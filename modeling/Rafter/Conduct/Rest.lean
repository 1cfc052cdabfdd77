import Rafter.Conduct.Emission

/-!
# Commitment at rest

Every input leaves a settled leader settled, for one of three reasons: the step ends without office,
it ends with a commit attempt, or it changes nothing that commitment depends on.

Results:

* `Node.calls_settled`: the calls that give a node inputs.
-/

namespace Rafter

open Protocol

namespace PendingBatch

variable {n : Node}

theorem accept_settled (hn : n.Bounded) (hs : n.Settled) (batch : PendingBatch) (input : Input) :
    (batch.accept n input).1.node.Settled := by
  rcases batch.accept_cases n input with h | h | h
  · rw [h]
    exact hs
  · rw [h]
    exact (flush_performs n batch).rests hn hs
  · rw [h]
    exact (Node.step_performs _ input).rests (flush_bounded hn batch)
      ((flush_performs n batch).rests hn hs)

end PendingBatch

namespace Node

variable {n : Node}

/-- The calls that give a node inputs. -/
def Call.isInputs : Call → Bool
  | .step _ | .stepBatch _ | .stepProposalBatch _ => true
  | _ => false

theorem call_settled (hn : n.Bounded) (hs : n.Settled) {call : Call} (h : call.isInputs) :
    (n.call call).node.Settled := by
  cases call with
  | step input => exact (n.step_performs input).rests hn hs
  | stepBatch inputs =>
    rw [Node.call, stepBatch_eq_run]
    generalize PendingBatch.empty = batch
    induction inputs generalizing n batch with
    | nil => exact (PendingBatch.flush_performs n batch).rests hn hs
    | cons input rest ih =>
      exact ih (PendingBatch.accept_bounded hn batch input)
        (PendingBatch.accept_settled hn hs batch input) rfl _
  | stepProposalBatch ps => exact (n.stepProposalBatch_performs (c := ⟨n, none⟩) ps).rests hn hs
  | installLocalSnapshot => cases h
  | drainCommittedOutputs => cases h

theorem calls_settled {cs : List Call} (hn : n.Bounded) (hs : n.Settled)
    (h : ∀ call ∈ cs, call.isInputs) : (n.calls cs).node.Settled := by
  induction cs generalizing n with
  | nil => exact hs
  | cons call rest ih =>
    exact ih (hn.call call) (call_settled hn hs (h call List.mem_cons_self))
      fun call' hmem => h call' (List.mem_cons_of_mem _ hmem)

end Node

end Rafter
