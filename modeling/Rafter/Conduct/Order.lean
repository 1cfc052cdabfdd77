import Rafter.Conduct.Step

/-!
# Runs that keep the rows in order

Results:

* `Node.Ordered.calls`: a run of calls whose inputs are timely.
-/

namespace Rafter

open Protocol

namespace Node

variable {c : Occasion} {n : Node} {b : Bool}

variable {rs : List Request} {o : Outcome}

theorem Acts.ordered (h : n.Acts c b rs o)
    (htimely : ∀ input, c.input = some input → c.node.timely input) (hn : n.Ordered) :
    o.node.Ordered := by
  exact h.invariant
    (fun hact h => ⟨hact.move.sound h.sound, hact.rowsOrdered htimely h.sound h.rows⟩) hn

/-! ## Runs of calls -/

theorem Ordered.step (hn : n.Ordered) {input : Input} (h : n.timely input) :
    (n.step input).node.Ordered :=
  (n.step_acts input).ordered (fun _ hinput => Option.some_inj.1 hinput ▸ h) hn

/-- What does not answer a single input is timely. -/
theorem Acts.ordered_of_none (h : n.Acts ⟨n, none⟩ b rs o) (hn : n.Ordered) : o.node.Ordered :=
  h.ordered (fun _ hinput => by cases hinput) hn

theorem Ordered.installLocalSnapshot (hn : n.Ordered) {snapshot : RaftSnapshot}
    (h : n.installLocalSnapshot snapshot = .ok o) : o.node.Ordered :=
  ⟨hn.sound.compacted (compacted_of_ok h),
    rowsOrdered_iff.2 ((rowsOrdered_iff.1 hn.rows).compacted rowRule_ordered h)⟩

theorem Constructed.ordered (h : n.Constructed) : n.Ordered where
  sound := h.sound
  rows := rowsOrdered_iff.2 <| rowsIn_of_idle fun v => by
    rw [h.fresh.1]
    exact get_default v

end Node

namespace PendingBatch

/-- Every input of the batch is timely when it is reached. -/
def timely (n : Node) (batch : PendingBatch) : List Input → Bool
  | [] => true
  | input :: rest =>
    let (o, later) := batch.accept n input
    (batch.flush n).node.timely input && later.timely o.node rest

variable {n : Node}

theorem flush_ordered (hn : n.Ordered) (batch : PendingBatch) : (batch.flush n).node.Ordered :=
  (flush_performs n batch).ordered_of_none hn

theorem accept_ordered (hn : n.Ordered) (batch : PendingBatch) {input : Input}
    (h : (batch.flush n).node.timely input) : (batch.accept n input).1.node.Ordered := by
  rcases batch.accept_cases n input with haccept | haccept | haccept
  · rw [haccept]
    exact hn
  · rw [haccept]
    exact flush_ordered hn batch
  · rw [haccept]
    exact (flush_ordered hn batch).step h

theorem run_ordered (hn : n.Ordered) (batch : PendingBatch) (inputs : List Input)
    (h : batch.timely n inputs) : (batch.run n inputs).node.Ordered := by
  induction inputs generalizing n batch with
  | nil => exact flush_ordered hn batch
  | cons input rest ih =>
    obtain ⟨hinput, hrest⟩ := Bool.and_eq_true_iff.1 h
    exact ih (accept_ordered hn batch hinput) _ hrest

end PendingBatch

namespace Node

variable {n : Node}

/-- The inputs of the call are timely. -/
def timelyCall (n : Node) : Call → Bool
  | .step input => n.timely input
  | .stepBatch inputs => PendingBatch.empty.timely n inputs
  | _ => true

/-- The inputs of all calls are timely. -/
def timelyCalls (n : Node) : List Call → Bool
  | [] => true
  | call :: rest => n.timelyCall call && (n.call call).node.timelyCalls rest

theorem Ordered.stepBatch (hn : n.Ordered) {inputs : List Input}
    (h : PendingBatch.empty.timely n inputs) : (n.stepBatch inputs).node.Ordered := by
  match inputs with
  | [] => exact hn
  | [input] => exact hn.step (Bool.and_eq_true_iff.1 h).1
  | i₁ :: i₂ :: rest => exact PendingBatch.run_ordered hn .empty (i₁ :: i₂ :: rest) h

theorem Ordered.call (hn : n.Ordered) {call : Call} (h : n.timelyCall call) :
    (n.call call).node.Ordered := by
  cases call with
  | step input => exact hn.step h
  | stepBatch inputs => exact hn.stepBatch h
  | stepProposalBatch proposals => exact (n.stepProposalBatch_performs proposals).ordered_of_none hn
  | installLocalSnapshot snapshot =>
    unfold Node.call
    dsimp only
    cases h : n.installLocalSnapshot snapshot with
    | ok o => exact hn.installLocalSnapshot h
    | error e => exact hn
  | drainCommittedOutputs => exact (n.emitCommittedOutputs_acts (b := false)).ordered_of_none hn

theorem Ordered.calls (hn : n.Ordered) {cs : List Call} (h : n.timelyCalls cs) :
    (n.calls cs).node.Ordered := by
  induction cs generalizing n with
  | nil => exact hn
  | cons call rest ih =>
    obtain ⟨hcall, hrest⟩ := Bool.and_eq_true_iff.1 h
    exact ih (hn.call hcall) hrest

end Node

end Rafter
