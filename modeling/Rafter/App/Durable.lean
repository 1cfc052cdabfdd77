import Rafter.App.Types
import Rafter.Conduct.Dispatch
import Rafter.Conduct.Staging

/-!
# The durable runtime

`DurableRaftNode` of `crates/rafter-runtime`: a kernel whose outputs are released once the stores
have its writes (`step.rs`), and what it reports about itself (`inspect.rs`). The stores are
modelled by what a step can tell of them: whether its writes fail, and the bytes of a snapshot
chunk. A failed write leaves the kernel's memory ahead of the medium, releases nothing and is
latched.

Results:

* `Node.Conducts.positions`: the positions of a call's outputs increase;
* `Node.Stages.snapshotIndex_eq`: a new boundary was sent to the application.
-/

namespace Rafter

open Protocol

/-! ## Committed application entries -/

/-- `LogEntry::application_payload`. -/
def LogEntry.applicationPayload (e : LogEntry) : Option Payload :=
  match e.kind with
  | .application payload => some payload
  | _ => none

/-- `DurableRaftNode::committed_application_index_through`: the highest committed application entry
at or below the index, or what the snapshot covers of it. -/
def Node.committedApplicationIndexThrough (n : Node) (index : ℕ) : ℕ :=
  let bound := min index n.commitIndex
  let firstRetained := n.snapshotIndex + 1
  match ((n.logEntriesFrom firstRetained).zipIdx firstRetained).reverse.find? fun p =>
      p.2 ≤ bound ∧ p.1.applicationPayload.isSome with
  | some (_, entryIndex) => entryIndex
  | none => min n.snapshotIndex index

/-! ## Steps -/

/-- The errors of a step, as far as a group tells them apart. -/
inductive RaftRuntimeError where
  | poisoned
  | persistence
deriving DecidableEq

/-- `DurableRaftNode`. -/
structure DurableRaftNode where
  node : Node
  /-- A failed write has been latched (`fatal_error`). -/
  fatal : Bool := false
  /-- Whether the writes of the coming steps fail; those past the end succeed. -/
  faults : List Bool := []
  /-- The bytes the snapshot store serves. -/
  chunkBytes : SnapshotChunkSend → Option Payload := fun _ => none

namespace DurableRaftNode

/-- `resolve_snapshot_chunk_sends`: a directive becomes its message or is dropped. -/
def resolveSnapshotChunkSends (s : DurableRaftNode) (outputs : List Output) : List Output :=
  outputs.filterMap fun output => match output with
    | .sendSnapshotChunk recipient chunk =>
      ((s.chunkBytes chunk).bind chunk.resolve).map fun message =>
      .send recipient (.installSnapshotChunk message)
    | output => some output

/-- `step_and_persist`. -/
def stepAndPersist (s : DurableRaftNode) (step : Node → Outcome) :
    Except RaftRuntimeError (List Output) × DurableRaftNode :=
  if s.fatal then (.error .poisoned, s)
  else if s.faults.headD false then
    (.error .persistence,
      { s with node := (step s.node).node, fatal := true, faults := s.faults.tail })
  else
    (.ok (s.resolveSnapshotChunkSends (step s.node).outputs),
      { s with node := (step s.node).node, faults := s.faults.tail })

/-- `DurableRaftNode::step`. -/
def step (s : DurableRaftNode) (input : Input) : Except RaftRuntimeError
    (List Output) × DurableRaftNode :=
  s.stepAndPersist (·.step input)

/-- `step_proposal_batch`; an empty batch is answered before the latch is looked at. -/
def stepProposalBatch (s : DurableRaftNode) (proposals : List ClientProposalInput) :
    Except RaftRuntimeError (List Output) × DurableRaftNode :=
  if proposals.isEmpty then (.ok [], s) else s.stepAndPersist (·.stepProposalBatch proposals)

/-- `step_batch`. -/
def stepBatch (s : DurableRaftNode) (inputs : List Input) :
    Except RaftRuntimeError (List Output) × DurableRaftNode :=
  match inputs with
  | [input] => s.step input
  | inputs => s.stepAndPersist (·.stepBatch inputs)

variable {s s' : DurableRaftNode} {outputs : List Output}

/-- Resolving touches directives only. -/
theorem filterMap_resolveSnapshotChunkSends {α : Type} (f : Output → Option α)
    (hsend : ∀ recipient message, f (.send recipient message) = none)
    (hchunk : ∀ recipient chunk, f (.sendSnapshotChunk recipient chunk) = none)
    (s : DurableRaftNode) (outputs : List Output) :
    (s.resolveSnapshotChunkSends outputs).filterMap f = outputs.filterMap f := by
  unfold resolveSnapshotChunkSends
  rw [List.filterMap_filterMap]
  refine List.filterMap_congr fun output _ => ?_
  cases output with
  | sendSnapshotChunk recipient chunk =>
    rw [hchunk]
    dsimp only
    cases (s.chunkBytes chunk).bind chunk.resolve with
    | none => rfl
    | some message => exact hsend _ _
  | _ => rfl

theorem mem_of_mem_resolve {output : Output}
    (hsend : ∀ recipient message, output ≠ .send recipient message)
    (h : output ∈ s.resolveSnapshotChunkSends outputs) : output ∈ outputs := by
  obtain ⟨original, hmem, hresolved⟩ := List.mem_filterMap.1 h
  cases original with
  | sendSnapshotChunk recipient chunk =>
    obtain ⟨message, -, heq⟩ := Option.map_eq_some_iff.1 hresolved
    exact absurd heq.symm (hsend _ _)
  | _ =>
    cases Option.some_inj.1 hresolved
    exact hmem

/-- A step that releases outputs: the kernel's, with their directives resolved. -/
theorem stepAndPersist_ok {step : Node → Outcome} (h : s.stepAndPersist step = (.ok outputs, s')) :
    s'.node = (step s.node).node ∧
      outputs = s.resolveSnapshotChunkSends (step s.node).outputs ∧ s.fatal = false ∧
      s'.fatal = false := by
  unfold stepAndPersist at h
  split at h
  · simp at h
  · rename_i hfatal
    split at h
    · simp at h
    · obtain ⟨houtputs, rfl⟩ := Prod.mk.inj h
      have hfatal' : s.fatal = false := by simpa using hfatal
      exact ⟨rfl, (Except.ok.inj houtputs).symm, hfatal', hfatal'⟩

theorem stepBatch_ok {inputs : List Input} (h : s.stepBatch inputs = (.ok outputs, s')) :
    s'.node = (s.node.stepBatch inputs).node ∧
      outputs = s.resolveSnapshotChunkSends (s.node.stepBatch inputs).outputs := by
  unfold stepBatch at h
  split at h
  · exact ⟨(stepAndPersist_ok h).1, (stepAndPersist_ok h).2.1⟩
  · exact ⟨(stepAndPersist_ok h).1, (stepAndPersist_ok h).2.1⟩

end DurableRaftNode

/-- `DurableRaftNode` as the runtime of a group. -/
def App.durable : App.PersistedRaftRuntime where
  State := DurableRaftNode
  Error := RaftRuntimeError
  leaderHint s := s.node.volatile.leaderHint
  currentTerm s := s.node.currentTerm
  commitIndex s := s.node.commitIndex
  lastLogIndex s := s.node.lastLogIndex
  snapshotIndex s := s.node.snapshotIndex
  snapshot s := s.node.persistent.snapshot
  committedApplicationIndexThrough s := s.node.committedApplicationIndexThrough
  membership s := s.node.effectiveMembership
  committedMembership s := s.node.committedMembership
  termAtIndex s := s.node.termAt
  step := DurableRaftNode.step
  stepProposalBatch := DurableRaftNode.stepProposalBatch

/-! ## What the kernel sends the application -/

namespace Node

variable {n : Node} {o : Outcome}

/-- The positions of the outputs increase, above what was dispatched before. -/
theorem Conducts.positions {requests : List Request} (h : n.Conducts requests o) (hn : n.Sound) :
    (o.outputs.filterMap Output.position).Pairwise (· < ·) ∧
      ∀ k ∈ o.outputs.filterMap Output.position, n.dispatchedIndex < k ∧
        k ≤ o.node.dispatchedIndex := by
  obtain ⟨trace, hpath, -, houtputs⟩ := h.delivers hn
  have htold := (Medium.Told.start hn.dispatched_le).path hpath
  rw [List.nil_append] at htold
  rw [← houtputs, ← filterMap_position_eq]
  exact ⟨htold.increasing, htold.between⟩

theorem Conducts.dispatched_mono {requests : List Request} (h : n.Conducts requests o)
    (hn : n.Sound) : n.dispatchedIndex ≤ o.node.dispatchedIndex := by
  obtain ⟨trace, hpath, -, -⟩ := h.delivers hn
  exact ((Medium.Told.start hn.dispatched_le).path hpath).floor_le

/-- A node after a step has the snapshot it had, or one it sent to the application. -/
theorem Stages.snapshot_eq (h : n.Stages o) : o.node.persistent.snapshot = n.persistent.snapshot ∨
    ∃ snapshot, .applySnapshot snapshot ∈ o.outputs ∧
    o.node.persistent.snapshot = some snapshot := by
  have hend := h.history (P := fun past m => m.persistent.snapshot = n.persistent.snapshot ∨
    ∃ snapshot, .applySnapshot snapshot ∈ past ∧ m.persistent.snapshot = some snapshot)
    (p := []) ?_ (.inl rfl)
  · rw [List.nil_append] at hend
    refine hend.imp_right fun ⟨snapshot, hmem, hsnapshot⟩ => ⟨snapshot, ?_, hsnapshot⟩
    exact List.mem_of_mem_filter hmem
  · intro m l m' hstage past hpast
    have hkept : m'.persistent.snapshot = m.persistent.snapshot →
        m'.persistent.snapshot = n.persistent.snapshot ∨ ∃ snapshot,
          .applySnapshot snapshot ∈ past ++ l ∧ m'.persistent.snapshot = some snapshot := by
      intro hsame
      rw [hsame]
      exact hpast.imp_right fun ⟨snapshot, hmem, hsnapshot⟩ =>
        ⟨snapshot, List.mem_append_left _ hmem, hsnapshot⟩
    cases hstage with
    | idle _ hsnapshot | chunk _ _ _ _ _ hsnapshot => exact hkept hsnapshot
    | install haccepts hdone hnext htransfer hsnapshot =>
      exact .inr ⟨_, List.mem_append_right _ (by simp), hsnapshot⟩

theorem Stages.snapshotIndex_eq (h : n.Stages o) : o.node.snapshotIndex = n.snapshotIndex ∨
    ∃ snapshot, .applySnapshot snapshot ∈ o.outputs ∧
      o.node.snapshotIndex = snapshot.metadata.lastIncludedIndex := by
  unfold snapshotIndex
  rcases h.snapshot_eq with hsame | ⟨snapshot, hmem, hsnapshot⟩
  · exact .inl (by rw [hsame])
  · exact .inr ⟨snapshot, hmem, by rw [hsnapshot]⟩

end Node

end Rafter
