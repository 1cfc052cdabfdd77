import Rafter.Conduct.Compaction
import Rafter.Node.Hydrate

/-!
# Hydration after a received snapshot

A snapshot that arrives from a leader, whole or by its final chunk, replaces the log up to its
boundary. What is left in the durable state is the descriptor, the suffix of the log if it agrees
with the boundary, and the adopted term. The receive path checks the descriptor's author and hard
state term; hydration checks these and that the captured configuration is not above the boundary.

Results:

* `Node.received_snapshot_hydrates_iff`: when hydration accepts what a received snapshot leaves.
-/

namespace Rafter

namespace Node

open Bootstrap

variable {n m : Node} {term : ℕ} {snapshot : RaftSnapshot}

/-! ## What a received snapshot leaves -/

/-- `m` is what the receive path makes of `n` when it installs the snapshot in `term`. -/
structure Received (n : Node) (term : ℕ) (snapshot : RaftSnapshot) (m : Node) : Prop where
  current : n.currentTerm ≤ term
  covered : n.snapshotCoveredThrough < snapshot.metadata.lastIncludedIndex
  hardState : snapshot.metadata.hardStateTerm ≤ term
  author : n.validSnapshotAuthor snapshot.metadata
  config : m.config = n.config
  persistent : m.persistent =
    { currentTerm := term
      votedFor := if n.currentTerm < term then none else n.persistent.votedFor
      committedConfiguration := snapshot.metadata.committedConfigurationState
      snapshot := some snapshot
      log := n.suffixAbove snapshot.metadata }
  index : m.configuration = .fromLog m.persistent.log
  commit : m.commitIndex = snapshot.metadata.lastIncludedIndex

/-- The kept suffix is read off the snapshot and the log. -/
theorem suffixAbove_congr (hsnapshot : m.persistent.snapshot = n.persistent.snapshot)
    (hlog : m.persistent.log = n.persistent.log) (metadata : RaftSnapshotMetadata) :
    m.suffixAbove metadata = n.suffixAbove metadata := by
  unfold suffixAbove logEntriesFrom termAt entryAt firstRetainedLogIndex lastLogIndex snapshotIndex
  rw [hsnapshot, hlog]

theorem adoptSnapshotTerm_eq (hterm : n.currentTerm ≤ term) (snapshot : RaftSnapshot) :
    (n.adoptSnapshotTerm term).node.config = n.config ∧
      (n.adoptSnapshotTerm term).node.persistent = { n.persistent with
        currentTerm := term
        votedFor := if n.currentTerm < term then none else n.persistent.votedFor } ∧
      (n.adoptSnapshotTerm term).node.commitIndex = n.commitIndex ∧
      .applySnapshot snapshot ∉ (n.adoptSnapshotTerm term).outputs := by
  unfold adoptSnapshotTerm
  by_cases hadopt : n.currentTerm < term ∨ n.role ≠ .follower
  · rw [if_pos hadopt]
    refine ⟨rfl, ?_, rfl, fun hmem => ?_⟩
    · show { n.persistent with
        currentTerm := max n.currentTerm term
        votedFor := if n.currentTerm < term then none else n.persistent.votedFor } = _
      rw [max_eq_right hterm]
    · have hposition := position_becomeFollower hmem
      simp [Output.position] at hposition
  · rw [if_neg hadopt]
    have hnot : ¬ n.currentTerm < term := fun hlt => hadopt (.inl hlt)
    have heq : n.persistent.currentTerm = term := le_antisymm hterm (not_lt.1 hnot)
    refine ⟨rfl, ?_, rfl, by simp⟩
    rw [if_neg hnot, ← heq]

/-- Installing on a node that adopted the term. -/
theorem received_of_adopted {n₁ n₂ : Node} (hterm : n.currentTerm ≤ term)
    (hconfig : n₁.config = n.config)
    (hpersistent : n₁.persistent = { n.persistent with
      currentTerm := term
      votedFor := if n.currentTerm < term then none else n.persistent.votedFor })
    (hcommit : n₁.commitIndex = n.commitIndex)
    (hmetadata : n₁.validSnapshotMetadata snapshot.metadata term)
    (hcovered : n₁.snapshotCoveredThrough < snapshot.metadata.lastIncludedIndex)
    (hn₂ : n₂.config = n₁.config ∧ n₂.persistent = n₁.persistent ∧
      n₂.commitIndex = n₁.commitIndex) :
    n.Received term snapshot (n₂.installSnapshotState snapshot).node := by
  obtain ⟨hconfig₂, hpersistent₂, hcommit₂⟩ := hn₂
  have hboundary : n₁.snapshotIndex = n.snapshotIndex := by
    unfold snapshotIndex
    rw [hpersistent]
  rw [snapshotCoveredThrough, hboundary, hcommit] at hcovered
  obtain ⟨hhard, hauthor⟩ := Bool.and_eq_true_iff.1 hmetadata
  rw [validSnapshotAuthor, hconfig] at hauthor
  obtain ⟨tracker, dropped, hinstall, -⟩ := n₂.installSnapshotState_eq snapshot
  have hsuffix : n₂.suffixAbove snapshot.metadata = n.suffixAbove snapshot.metadata :=
    suffixAbove_congr (by rw [hpersistent₂, hpersistent]) (by rw [hpersistent₂, hpersistent]) _
  rw [hinstall]
  refine ⟨hterm, hcovered, of_decide_eq_true hhard, hauthor, hconfig₂.trans hconfig, ?_, rfl, ?_⟩
  · simp only [hsuffix, hpersistent₂, hpersistent]
  · show max n₂.commitIndex _ = _
    rw [hcommit₂, hcommit]
    exact max_eq_right ((le_max_right _ _).trans hcovered.le)

variable {leaderId : NodeId} {x : CommittedConfiguration}

theorem validSnapshotMetadata_of_header {n₁ : Node} {metadata : RaftSnapshotMetadata}
    (h : n₁.validateSnapshotTransferHeader leaderId metadata term = .ok ()) :
    n₁.validSnapshotMetadata metadata term := by
  unfold validateSnapshotTransferHeader at h
  split_ifs at h with hmetadata
  simpa using hmetadata

/-- An installation sends one snapshot to the application. -/
theorem eq_of_installed {snapshot' : RaftSnapshot} {staged : StagedSnapshotChunk} {reply : Output}
    (hreply : reply.position = none)
    (h : .applySnapshot snapshot ∈ (n.installSnapshotState snapshot').outputs ++
      [.stageSnapshotChunk staged, .applySnapshot snapshot', reply]) : snapshot = snapshot' := by
  obtain ⟨tracker, dropped, hinstall, -⟩ := n.installSnapshotState_eq snapshot'
  rw [hinstall] at h
  simp only [List.mem_append, List.mem_cons, reduceCtorEq, Output.applySnapshot.injEq,
    List.not_mem_nil, or_false, false_or] at h
  rcases h with hdrop | heq | heq
  · have hposition := position_dropOutputs hdrop
    simp [Output.position] at hposition
  · exact heq
  · rw [← heq] at hreply
    simp [Output.position] at hreply

theorem received_of_whole {request : InstallSnapshot}
    (h : .applySnapshot snapshot ∈ (n.handleInstallSnapshot leaderId request).outputs) :
    n.Received request.term snapshot (n.handleInstallSnapshot leaderId request).node := by
  unfold handleInstallSnapshot at h ⊢
  by_cases hstale : request.term < n.currentTerm
  · rw [if_pos hstale] at h
    simp [snapshotReply] at h
  rw [if_neg hstale] at h ⊢
  obtain ⟨hconfig, hpersistent, hcommit, hquiet⟩ := adoptSnapshotTerm_eq (not_lt.1 hstale) snapshot
  rw [Outcome.andThen] at h ⊢
  replace h := (List.mem_append.1 h).resolve_left hquiet
  generalize (n.adoptSnapshotTerm request.term).node = n₁ at *
  unfold wholeSnapshotAsFollower at h ⊢
  dsimp only at h ⊢
  cases hheader : n₁.validateSnapshotTransferHeader leaderId
      (RaftSnapshot.fromPayload request.metadata request.applicationPayload).metadata
      request.term with
  | error e =>
    rw [hheader] at h
    simp [snapshotReply] at h
  | ok u =>
    rw [hheader] at h
    dsimp only at h ⊢
    split_ifs at h ⊢ with hcovered
    · simp [snapshotReply] at h
    · obtain rfl := eq_of_installed rfl h
      exact received_of_adopted (not_lt.1 hstale) hconfig hpersistent hcommit
        (validSnapshotMetadata_of_header hheader) (not_le.1 hcovered) ⟨rfl, rfl, rfl⟩

theorem received_of_chunk {request : InstallSnapshotChunk}
    (h : .applySnapshot snapshot ∈ (n.handleInstallSnapshotChunk leaderId request).outputs) :
    n.Received request.term snapshot (n.handleInstallSnapshotChunk leaderId request).node := by
  unfold handleInstallSnapshotChunk at h ⊢
  by_cases hstale : request.term < n.currentTerm
  · rw [if_pos hstale] at h
    simp [refuseChunk, snapshotReply] at h
  rw [if_neg hstale] at h ⊢
  obtain ⟨hconfig, hpersistent, hcommit, hquiet⟩ := adoptSnapshotTerm_eq (not_lt.1 hstale) snapshot
  rw [Outcome.andThen] at h ⊢
  replace h := (List.mem_append.1 h).resolve_left hquiet
  generalize (n.adoptSnapshotTerm request.term).node = n₁ at *
  unfold snapshotChunkAsFollower at h ⊢
  cases hheader : n₁.validateInstallSnapshotChunkHeader leaderId request with
  | error e =>
    rw [hheader] at h
    simp [refuseChunk, snapshotReply] at h
  | ok u =>
    have hmetadata : n₁.validSnapshotMetadata request.metadata request.term := by
      unfold validateInstallSnapshotChunkHeader at hheader
      cases htransfer : n₁.validateSnapshotTransferHeader leaderId request.metadata
          request.term with
      | error e => cases e <;> simp [htransfer] at hheader
      | ok u => exact validSnapshotMetadata_of_header htransfer
    rw [hheader] at h
    dsimp only at h ⊢
    cases hclass : (n₁.recordAcceptedSnapshotLeader leaderId).classifySnapshotChunk leaderId
        request with
    | error e =>
      rw [hclass] at h
      simp [refuseChunk, snapshotReply] at h
    | ok p =>
      obtain ⟨n₂, disposition⟩ := p
      obtain ⟨⟨incoming, hn₂⟩, -, haccept⟩ := classifySnapshotChunk_ok hclass
      rw [hclass] at h
      cases disposition with
      | alreadyCovered k => simp [acknowledgeCoveredSnapshotChunk, snapshotReply] at h
      | retransmission k => simp [snapshotReply] at h
      | outOfOrder k => simp [refuseChunk, snapshotReply] at h
      | accept k =>
        obtain ⟨hnew, transfer, htransfer, hrequest⟩ := haccept k rfl
        dsimp only at h ⊢
        unfold acceptCurrentSnapshotChunk at h ⊢
        dsimp only at h ⊢
        rw [htransfer] at h ⊢
        split_ifs at h ⊢ with hdone hbounds
        · simp [refuseChunk, snapshotReply] at h
        · unfold installFinalSnapshotChunk at h ⊢
          rw [htransfer] at h ⊢
          obtain rfl := eq_of_installed rfl h
          have hinstalled : n.Received request.term ⟨request.metadata, request.totalPayloadLen,
              request.applicationPayloadCrc32⟩
              (installSnapshotState { n₂ with volatile.incomingSnapshot := none } _).node :=
            received_of_adopted (not_lt.1 hstale) hconfig hpersistent hcommit hmetadata hnew
              (by rw [hn₂]; exact ⟨rfl, rfl, rfl⟩)
          rw [← hrequest] at hinstalled
          exact hinstalled
        · simp [stageSnapshotChunk, snapshotReply] at h

/-! ## Hydration -/

/-- The configuration that is reported after the installation is the one the snapshot captured. -/
theorem Received.captured_of_state (h : n.Received term snapshot m)
    (hx : m.committedConfigurationState = some x) :
    snapshot.metadata.committedConfigurationState = some x ∧
      x.index ≤ snapshot.metadata.lastIncludedIndex := by
  have hboundary : m.snapshotIndex = snapshot.metadata.lastIncludedIndex := by
    rw [snapshotIndex, h.persistent]
  rw [committedConfigurationState, h.commit] at hx
  obtain ⟨hle, hrecorded⟩ := mem_recordedAt.1 (committedConfigurationStateAt_spec hx).1
  refine ⟨?_, hle⟩
  rcases hrecorded with hretained | hstored | hcaptured
  · rw [retainedStateAt, h.index, ConfigurationIndex.committedStateAt_fromLog, hboundary,
      Nat.sub_self, List.take_zero] at hretained
    simp [lastConfiguration] at hretained
  · rw [h.persistent] at hstored
    exact hstored
  · rw [snapshotCommittedConfigurationState, h.persistent] at hcaptured
    exact hcaptured

/-- The captured configuration passes for the stored one. -/
theorem validateStored_captured {log : List LogEntry} {c : ℕ}
    (hx : snapshot.metadata.committedConfigurationState = some x)
    (hle : x.index ≤ snapshot.metadata.lastIncludedIndex) (hc : x.index ≤ c) :
    validateStored x (some snapshot.metadata) log c = .ok () := by
  obtain ⟨declared, hdeclared, hstate⟩ := Option.bind_eq_some_iff.1 hx
  have hmembership : snapshot.metadata.committedMembership = some declared.membership := by
    rw [RaftSnapshotMetadata.committedMembership, hdeclared, Option.map_some]
  simp [validateStored, validateFloor, validateIdentity, not_lt.2 hc, not_lt.2 hle, hmembership, hx,
    bind, Except.bind]

/-- After the receive path installed a snapshot, hydration accepts what it left exactly if the
captured configuration is not above the boundary, and the vote and the log suffix that the node
keeps are durable in the adopted term. -/
theorem Received.hydrates_iff (h : n.Received term snapshot m) {c : ℕ}
    {stored : Option CommittedConfiguration} (hc : c ≤ m.commitIndex)
    (hstored : stored = none ∨ stored = m.committedConfigurationState) :
    m.Hydrates c stored ↔
      (∀ x, snapshot.metadata.committedConfigurationState = some x →
        x.index ≤ snapshot.metadata.lastIncludedIndex) ∧
      (n.persistent.votedFor.isSome → term ≠ 0) ∧
      ∀ j e, (n.suffixAbove snapshot.metadata)[j]? = some e →
        ValidEntry term (snapshot.metadata.lastIncludedIndex + 1 + j) e := by
  have hboundary : m.snapshotIndex = snapshot.metadata.lastIncludedIndex := by
    rw [snapshotIndex, h.persistent]
  have hcaptured : m.snapshotCommittedConfigurationState =
      snapshot.metadata.committedConfigurationState := by
    rw [snapshotCommittedConfigurationState, h.persistent]
    rfl
  have hterm : m.currentTerm = term := by rw [currentTerm, h.persistent]
  constructor
  · intro hm
    refine ⟨fun x hx => ?_, fun hvote => ?_, ?_⟩
    · rw [← hboundary]
      exact hm.captured x (hcaptured.trans hx)
    · have hcurrent := h.current
      have hm := hm.vote
      rw [h.persistent, hterm] at hm
      by_cases hlt : n.currentTerm < term
      · omega
      · exact hm (by rw [if_neg hlt]; exact hvote)
    · have hlog := hm.log
      rw [hterm, hboundary, h.persistent] at hlog
      exact hlog
  · rintro ⟨hfloor, hvote, hlog⟩
    refine ⟨fun hsome => ?_, fun s hs => ?_, ?_, ?_, fun x hx => ?_, fun x hx => ?_⟩
    · rw [hterm]
      rw [h.persistent] at hsome
      dsimp only at hsome
      split_ifs at hsome with hlt
      · simp at hsome
      · exact hvote hsome
    · rw [h.persistent] at hs
      obtain rfl := Option.some_inj.1 hs
      rw [hterm, h.config]
      exact ⟨h.hardState, h.author⟩
    · rw [hterm, hboundary, h.persistent]
      exact hlog
    · rw [h.commit] at hc
      rw [lastLogIndex, hboundary]
      exact hc.trans (Nat.le_add_right _ _)
    · rw [hboundary]
      exact hfloor x (hcaptured ▸ hx)
    · rcases hstored with rfl | rfl
      · simp at hx
      · obtain ⟨hx, hle⟩ := h.captured_of_state hx
        rw [h.persistent, hboundary]
        exact validateStored_captured hx hle (hle.trans (le_max_right _ _))

/-- The kept entries stand at indexes of the log. -/
theorem index_le_of_suffixAbove {metadata : RaftSnapshotMetadata} {j : ℕ} {e : LogEntry}
    (h : (n.suffixAbove metadata)[j]? = some e) :
    metadata.lastIncludedIndex + 1 + j ≤ n.lastLogIndex := by
  have hlt := (List.getElem?_eq_some_iff.1 h).1
  unfold suffixAbove at hlt
  split_ifs at hlt with hterm
  · have hlow := (isSome_termAt.1 (Option.isSome_of_eq_some hterm)).1
    unfold logEntriesFrom at hlt
    by_cases hnone : metadata.lastIncludedIndex + 1 = 0 ∨
        n.lastLogIndex < metadata.lastIncludedIndex + 1
    · rw [if_pos hnone] at hlt
      exact absurd hlt (Nat.not_lt_zero _)
    · rw [if_neg hnone, List.length_drop, firstRetainedLogIndex] at hlt
      unfold lastLogIndex
      omega
  · exact absurd hlt (Nat.not_lt_zero _)

/-- For any node whose log ends within the range of `u64`, any sender, term and descriptor: when the
receive path installs a snapshot, whole or by its final chunk, `from_bootstrap` accepts the durable
state it leaves, with the commit index and the committed configuration up to date or behind, exactly
if the captured configuration is not above the boundary, and the vote and the log suffix that the
node had before are durable. -/
theorem received_snapshot_hydrates_iff {leaderId : NodeId} {o : Outcome}
    (h : (∃ request : InstallSnapshot, request.term = term ∧
        o = n.handleInstallSnapshot leaderId request) ∨
      ∃ request : InstallSnapshotChunk, request.term = term ∧
        o = n.handleInstallSnapshotChunk leaderId request)
    (hinstalled : .applySnapshot snapshot ∈ o.outputs) (hlast : n.lastLogIndex ≤ u64Max) {c : ℕ}
    (hc : c ≤ o.node.commitIndex)
    {stored : Option CommittedConfiguration}
    (hstored : stored = none ∨ stored = o.node.committedConfigurationState) :
    (∃ n', fromBootstrap n.config (o.node.bootstrapState c stored) = .ok n') ↔
      (∀ x, snapshot.metadata.committedConfigurationState = some x →
        x.index ≤ snapshot.metadata.lastIncludedIndex) ∧
      (n.persistent.votedFor.isSome → term ≠ 0) ∧
      ∀ j e, (n.suffixAbove snapshot.metadata)[j]? = some e → e.term ≠ 0 ∧ e.term ≤ term ∧
        snapshot.metadata.lastIncludedIndex + 1 + j ≠ u64Max := by
  have hreceived : n.Received term snapshot o.node := by
    rcases h with ⟨request, rfl, rfl⟩ | ⟨request, rfl, rfl⟩
    · exact received_of_whole hinstalled
    · exact received_of_chunk hinstalled
  have hvalid : ∀ j e, (n.suffixAbove snapshot.metadata)[j]? = some e →
      (snapshot.metadata.lastIncludedIndex + 1 + j ≠ u64Max ↔
        snapshot.metadata.lastIncludedIndex + 1 + j < u64Max) :=
    fun j e he => (lt_iff_le_and_ne.trans
      (and_iff_right ((index_le_of_suffixAbove he).trans hlast))).symm
  rw [forall₃_congr fun j e he =>
      and_congr_right fun _ => and_congr_right fun _ => hvalid j e he,
    ← hreceived.config]
  exact Node.hydrates_iff.trans (hreceived.hydrates_iff hc hstored)

theorem received_snapshot_hydrates_iff_captured :
    .applySnapshot (RaftSnapshot.fromPayload (offeredSnapshot 5 4).metadata []) ∈
        (takeOffer 5 4).outputs ∧
      ∃ n', fromBootstrap oneOfThree ((takeOffer 5 4).node.bootstrapState 5
        (takeOffer 5 4).node.committedConfigurationState) = .ok n' := by
  have hinstalled : .applySnapshot (RaftSnapshot.fromPayload (offeredSnapshot 5 4).metadata []) ∈
      (takeOffer 5 4).outputs := by decide +kernel
  have hc : 5 ≤ (takeOffer 5 4).node.commitIndex := by decide +kernel
  have hsuffix : (Node.new oneOfThree).suffixAbove (offeredSnapshot 5 4).metadata = [] := by
    decide +kernel
  refine ⟨hinstalled, (received_snapshot_hydrates_iff (.inl ⟨offeredSnapshot 5 4, rfl, rfl⟩)
    hinstalled (by decide +kernel) hc (.inr rfl)).2
      ⟨fun x hx => ?_, by simp [Node.new], fun j e he => ?_⟩⟩
  · obtain rfl : (⟨4, 1⟩ : CommittedConfiguration) = x := Option.some_inj.1 hx
    exact Nat.le_succ 4
  · have he' : ([] : List LogEntry)[j]? = some e := hsuffix ▸ he
    simp at he'

/-- A snapshot whose captured configuration is above its boundary is installed and then refused. -/
theorem received_snapshot_refused :
    .applySnapshot (RaftSnapshot.fromPayload (offeredSnapshot 5 9).metadata []) ∈
        (takeOffer 5 9).outputs ∧
      (fromBootstrap oneOfThree ((takeOffer 5 9).node.bootstrapState
          (takeOffer 5 9).node.commitIndex (takeOffer 5 9).node.committedConfigurationState)).map
        (·.commitIndex) = .error (.committedConfigurationAheadOfCommit 9 5) := by
  decide +kernel

end Node

end Rafter
