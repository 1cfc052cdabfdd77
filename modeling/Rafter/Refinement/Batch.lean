import Rafter.Conduct.Hydration
import Rafter.Conduct.Staging
import Rafter.Refinement.Step

/-!
# Batches refine the protocol

A batch of inputs is a transition of the protocol as its inputs are: the proposals of a batch are
appended one by one and replicated once, its reads are one round.

Results:

* `NodeOk.stepBatch`: the batched inputs of a node;
* `Sim.stepBatch`: a batch of inputs that the cluster can give a node;
* `Sim.snapshotTerm_pos`: a snapshot that a batch installs is of a leader's term.
-/

namespace Rafter

open Protocol

variable {initial : MembershipConfig} {s : Ghost} {i : NodeId} {n : Node}
variable {snapshot : RaftSnapshot} {inputs : List Input} {input : Input}
variable (hI : (raftScheme initial).Inv s) (h : NodeOk initial i s n)

/-! ## Inputs -/

include hI h in
theorem PendingBatch.flush_reaches (batch : PendingBatch) : Reaches initial i s (batch.flush n) :=
  (flush_performs n batch).refines hI (fun _ hinput => (by cases hinput)) h

include hI h in
theorem PendingBatch.accept_reaches (batch : PendingBatch) (hin : InputOk initial i s input) :
    Reaches initial i s (batch.accept n input).1 := by
  rcases batch.accept_cases n input with haccept | haccept | haccept
  · rw [haccept]
    exact .of_node h (by simp)
  · rw [haccept]
    exact batch.flush_reaches hI h
  · rw [haccept]
    exact (batch.flush_reaches hI h).andThen hI fun _ hI' he h' => h'.step hI' (hin.mono hI he)

include hI h in
theorem PendingBatch.run_reaches (batch : PendingBatch)
    (hin : ∀ x ∈ inputs, InputOk initial i s x) : Reaches initial i s (batch.run n inputs) := by
  induction inputs generalizing n s batch with
  | nil => exact batch.flush_reaches hI h
  | cons input rest ih =>
    refine (batch.accept_reaches hI h (hin input List.mem_cons_self)).andThen
      (f := fun n' => (batch.accept n input).2.run n' rest) hI fun s' hI' he h' => ?_
    exact ih hI' h' _ fun x hx => (hin x (List.mem_cons_of_mem _ hx)).mono hI he

include hI h in
theorem NodeOk.stepBatch (hin : ∀ x ∈ inputs, InputOk initial i s x) :
    Reaches initial i s (n.stepBatch inputs) := by
  match inputs, hin with
  | [], _ => exact .of_node h (by simp)
  | [input], hin => exact h.step hI (hin input List.mem_cons_self)
  | i₁ :: i₂ :: rest, hin => exact PendingBatch.empty.run_reaches hI h hin

/-! ## Installed snapshots -/

/-- A step that sends the application a snapshot has received it. -/
theorem Node.received_of_step (h : .applySnapshot snapshot ∈ (n.step input).outputs) :
    ∃ term, n.Received term snapshot (n.step input).node := by
  have hstages : Occasion.stages ⟨n, some input⟩ := by
    by_contra hstages
    have hstaging := ((n.step_acts input).unstaged (by simpa using hstages)).outputs _ h
    cases hstaging
  cases input with
  | message sender message =>
    change .applySnapshot snapshot ∈ (n.receive sender message).outputs at h
    change ∃ term, n.Received term snapshot (n.receive sender message).node
    unfold Node.receive at h ⊢
    split_ifs at h ⊢
    · cases message with
      | installSnapshot request => exact ⟨_, received_of_whole h⟩
      | installSnapshotChunk request => exact ⟨_, received_of_chunk h⟩
      | appendEntries | appendEntriesResponse | installSnapshotResponse | preVote | preVoteResponse
      | timeoutNow | requestVote | requestVoteResponse => cases hstages
    · simp at h
  | tick | clientProposal | trackedClientProposal | addLearner | promoteLearner | removeVoter
  | enterJoint | leaveJoint | changeMembership | dangerousRawConfigurationProposal
  | transferLeadership | readIndex => cases hstages

include hI h in
theorem NodeOk.snapshotTerm_pos (hin : InputOk initial i s input)
    (hmem : .applySnapshot snapshot ∈ (n.step input).outputs) :
    snapshot.metadata.lastIncludedTerm ≠ 0 := by
  obtain ⟨term, hreceived⟩ := Node.received_of_step hmem
  obtain ⟨s', hs, h', -⟩ := h.step hI hin
  have hI' := (hI.steps hs).1
  have hsnapshot : (n.step input).node.persistent.snapshot = some snapshot := by
    rw [hreceived.persistent]
  have hterm := (h'.rep.snapshot snapshot hsnapshot).1.term
  intro hzero
  rw [hzero] at hterm
  have hindex := eq_zero_of_termOf_eq_zero hI' (hI'.log_valid i) hterm
  have hcovered := hreceived.covered
  omega

include hI h in
/-- The outputs for the snapshot store are those of the inputs of the batch, one by one. -/
theorem PendingBatch.mem_run (batch : PendingBatch) (hin : ∀ x ∈ inputs, InputOk initial i s x)
    {output : Output} (hstaging : output.isStaging) (hmem : output ∈ (batch.run n inputs).outputs) :
    ∃ (s' : Ghost) (m : Node) (input : Input), (raftScheme initial).Inv s' ∧ NodeOk initial i s' m ∧
      InputOk initial i s' input ∧ output ∈ (m.step input).outputs := by
  have hflush : ∀ (batch : PendingBatch) (n : Node), output ∉ (batch.flush n).outputs := by
    intro batch n hmem
    rw [((flush_performs n batch).unstaged rfl).outputs output hmem] at hstaging
    cases hstaging
  induction inputs generalizing n s batch with
  | nil => exact absurd hmem (hflush batch n)
  | cons input rest ih =>
    rw [run, Outcome.andThen_outputs] at hmem
    rcases List.mem_append.1 hmem with hhead | hrest
    · rcases batch.accept_cases n input with haccept | haccept | haccept
      · rw [haccept] at hhead
        cases hhead
      · rw [haccept] at hhead
        exact absurd hhead (hflush batch n)
      · rw [haccept] at hhead
        obtain ⟨s', hs, h', -⟩ := batch.flush_reaches hI h
        obtain ⟨hI', he, -⟩ := hI.steps hs
        rcases List.mem_append.1 hhead with hhead | hhead
        · exact absurd hhead (hflush batch n)
        · exact ⟨s', _, input, hI', h', (hin input List.mem_cons_self).mono hI he, hhead⟩
    · obtain ⟨s', hs, h', -⟩ := batch.accept_reaches hI h (hin input List.mem_cons_self)
      obtain ⟨hI', he, -⟩ := hI.steps hs
      exact ih hI' h' _ (fun x hx => (hin x (List.mem_cons_of_mem _ hx)).mono hI he) hrest

/-! ## Clusters -/

/-- An input the cluster can give node `i`: one of the application, or a message that was
emitted. -/
def Cluster.Feeds (c : Cluster) (i : NodeId) : Input → Prop
  | .message sender message => ∃ e ∈ c.emitted, e.node = sender ∧ e.carries i message
  | input => input.isLocal

variable {cfg : ClusterConfig} {c : Cluster}

theorem Sim.inputOk (h : Sim cfg c s) (hin : c.Feeds i input) :
    InputOk cfg.membership i s input := by
  cases input with
  | message sender message =>
    obtain ⟨e, he, rfl, hm⟩ := hin
    exact h.messageOk he hm
  | _ => exact hin

theorem Sim.stepBatch (h : Sim cfg c s) (hin : ∀ x ∈ inputs, c.Feeds i x) :
    Reaches cfg.membership i s ((c.nodes i).stepBatch inputs) :=
  (h.nodes i).stepBatch h.inv fun x hx => h.inputOk (hin x hx)

theorem Sim.snapshotTerm_pos (h : Sim cfg c s) (hin : ∀ x ∈ inputs, c.Feeds i x)
    (hmem : .applySnapshot snapshot ∈ ((c.nodes i).stepBatch inputs).outputs) :
    snapshot.metadata.lastIncludedTerm ≠ 0 := by
  have hok : ∀ x ∈ inputs, InputOk cfg.membership i s x := fun x hx => h.inputOk (hin x hx)
  match inputs, hok, hmem with
  | [], _, hmem => simp [Node.stepBatch] at hmem
  | [input], hok, hmem =>
    exact (h.nodes i).snapshotTerm_pos h.inv (hok input List.mem_cons_self) hmem
  | i₁ :: i₂ :: rest, hok, hmem =>
    obtain ⟨s', m, input, hI', h', hin', hstep⟩ :=
      PendingBatch.empty.mem_run h.inv (h.nodes i) hok rfl hmem
    exact h'.snapshotTerm_pos hI' hin' hstep

end Rafter
