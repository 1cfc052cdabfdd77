import Rafter.Node.State

/-!
# The retained log and the membership views

`crates/rafter/src/node/log.rs`, `node/log/read.rs`, `node/log/batch.rs`,
`node/local_snapshot.rs`, `node/state/proposal.rs` and `node/membership/view.rs`.
-/

namespace Rafter

namespace Node

/-! ## Observers (`node/observe.rs`) -/

/-- `Node::id`. -/
def id (n : Node) : NodeId := n.config.id
/-- `Node::role`. -/
def role (n : Node) : Role := n.volatile.role
/-- `Node::current_term`. -/
def currentTerm (n : Node) : ℕ := n.persistent.currentTerm
/-- `Node::commit_index`. -/
def commitIndex (n : Node) : ℕ := n.volatile.commitIndex
/-- `Node::dispatched_index`. -/
def dispatchedIndex (n : Node) : ℕ := n.volatile.dispatchedIndex

/-! ## Reading the log -/

/-- `Node::snapshot_index`. -/
def snapshotIndex (n : Node) : ℕ :=
  match n.persistent.snapshot with
  | some s => s.metadata.lastIncludedIndex
  | none => 0

/-- `Node::last_log_index`, a sum without the bound of `u64`. -/
def lastLogIndex (n : Node) : ℕ := n.snapshotIndex + n.persistent.log.length

/-- `Node::last_log_index` in a release build. -/
def lastLogIndexWrapping (n : Node) : ℕ := wrapping n.lastLogIndex

/-- `Node::first_retained_log_index`. -/
def firstRetainedLogIndex (n : Node) : ℕ := n.snapshotIndex + 1

/-- `Node::entry_at`. -/
def entryAt (n : Node) (index : ℕ) : Option LogEntry :=
  if index ≤ n.snapshotIndex then none
  else n.persistent.log[index - n.firstRetainedLogIndex]?

/-- `Node::term_at`. -/
def termAt (n : Node) (index : ℕ) : Option ℕ :=
  if index = 0 ∧ n.snapshotIndex = 0 then some 0
  else if index = n.snapshotIndex then n.persistent.snapshot.map (·.metadata.lastIncludedTerm)
  else if index < n.snapshotIndex then none
  else (n.entryAt index).map (·.term)

/-- `Node::last_log_term`. -/
def lastLogTerm (n : Node) : ℕ := (n.termAt n.lastLogIndex).getD 0

/-- `Node::log_entries_from`. -/
def logEntriesFrom (n : Node) (firstIndex : ℕ) : List LogEntry :=
  if firstIndex = 0 ∨ n.lastLogIndex < firstIndex then []
  else n.persistent.log.drop (max firstIndex n.firstRetainedLogIndex - n.firstRetainedLogIndex)

/-- `LogBatch`. -/
structure LogBatch where
  firstIndex : ℕ
  lastIndex : ℕ
  entries : List LogEntry
  replicationBytes : ℕ

/-- The loop of `log_batch_from_bounded`: the entries taken and their bytes. An oversized first
entry is taken all the same. -/
def takeBatch (maxReplicationBytes : ℕ) : List LogEntry → List LogEntry → ℕ → List LogEntry × ℕ
  | [], taken, bytes => (taken, bytes)
  | entry :: rest, taken, bytes =>
    let nextBytes := saturatingAdd bytes entry.replicationBytes
    if !taken.isEmpty && decide (maxReplicationBytes < nextBytes) then (taken, bytes)
    else takeBatch maxReplicationBytes rest (taken ++ [entry]) nextBytes

/-- The loop takes a front part of the log. -/
theorem takeBatch_eq (maxBytes : ℕ) (log taken : List LogEntry) (bytes : ℕ) :
    ∃ k, (takeBatch maxBytes log taken bytes).1 = taken ++ log.take k ∧ k ≤ log.length := by
  induction log generalizing taken bytes with
  | nil => exact ⟨0, by simp [takeBatch], by simp⟩
  | cons e log ih =>
    rw [takeBatch]
    split_ifs
    · exact ⟨0, by simp, by simp⟩
    · obtain ⟨k, hk, hle⟩ := ih (taken ++ [e]) (saturatingAdd bytes e.replicationBytes)
      exact ⟨k + 1, by rw [hk]; simp, by simpa using hle⟩

/-- `Node::log_batch_from_bounded`. -/
def logBatchFromBounded (n : Node) (firstIndex maxReplicationBytes : ℕ) : Option LogBatch :=
  if firstIndex = 0 ∨ n.lastLogIndex < firstIndex then none
  else
    let firstIndex := max firstIndex n.firstRetainedLogIndex
    let (entries, bytes) := takeBatch maxReplicationBytes
      (n.persistent.log.drop (firstIndex - n.firstRetainedLogIndex)) [] 0
    if entries.length = 0 then none
    else some
      { firstIndex := firstIndex
        lastIndex := firstIndex + (entries.length - 1)
        entries := entries
        replicationBytes := bytes }

/-! ## Membership views -/

/-- `Node::effective_configuration_entry`. -/
def effectiveConfigurationEntry (n : Node) : Option ConfigurationEntry :=
  n.configuration.effectiveEntry n.persistent.log

/-- `Node::snapshot_committed_membership`. -/
def snapshotCommittedMembership (n : Node) : Option MembershipConfig :=
  n.persistent.snapshot.bind (·.metadata.committedMembership)

/-- `Node::effective_base_membership_ref`. -/
def effectiveBaseMembership (n : Node) : MembershipConfig :=
  n.snapshotCommittedMembership.getD n.config.staticMembership

/-- `Node::effective_membership`. -/
def effectiveMembership (n : Node) : MembershipConfig :=
  match n.effectiveConfigurationEntry with
  | some entry => entry.membershipConfig
  | none => n.effectiveBaseMembership

/-- The membership read with the shortcut for a log without configuration entries, as in
`has_effective_quorum`, `record_quorum_ack` and `reconcile_replication_progress`. -/
def effectiveMembershipShortcut (n : Node) : MembershipConfig :=
  if n.configuration.isEmpty then n.effectiveBaseMembership else n.effectiveMembership

theorem effectiveMembershipShortcut_eq (n : Node) :
    n.effectiveMembershipShortcut = n.effectiveMembership := by
  unfold effectiveMembershipShortcut
  split_ifs with h
  · have hnil : n.configuration = [] := List.isEmpty_iff.1 h
    simp [effectiveMembership, effectiveConfigurationEntry, ConfigurationIndex.effectiveEntry, hnil]
  · rfl

/-- `Node::membership_at_index`. -/
def membershipAtIndex (n : Node) (index : ℕ) : MembershipConfig :=
  match n.configuration.entryAtOrBefore (n.snapshotIndex + 1) n.persistent.log index with
  | some entry => entry.membershipConfig
  | none =>
    (if n.snapshotIndex ≤ index then n.snapshotCommittedMembership else none).getD
      n.config.staticMembership

/-- `Node::committed_configuration_entry`. -/
def committedConfigurationEntry (n : Node) : Option ConfigurationEntry :=
  n.configuration.committedEntry (n.snapshotIndex + 1) n.persistent.log n.commitIndex

/-- `Node::committed_membership`. -/
def committedMembership (n : Node) : MembershipConfig :=
  ((n.committedConfigurationEntry.map (·.membershipConfig)).or n.snapshotCommittedMembership).getD
    n.config.staticMembership

/-- `Node::snapshot_committed_configuration_state`. -/
def snapshotCommittedConfigurationState (n : Node) : Option CommittedConfiguration :=
  n.persistent.snapshot.bind (·.metadata.committedConfigurationState)

/-- `Node::committed_configuration_state_at`: of the retained, recorded and snapshot states at or
below the index, the last one with the greatest index. -/
def committedConfigurationStateAt (n : Node) (commitIndex : ℕ) : Option CommittedConfiguration :=
  let retained := n.configuration.committedStateAt
    (n.snapshotIndex + 1) n.persistent.log commitIndex
  ([retained, n.persistent.committedConfiguration,
      n.snapshotCommittedConfigurationState].filterMap fun state =>
        state.filter fun s => s.index ≤ commitIndex).foldl
    (fun best state => match best with
      | none => some state
      | some b => if b.index ≤ state.index then some state else some b) none

/-- `Node::committed_configuration_state`. -/
def committedConfigurationState (n : Node) : Option CommittedConfiguration :=
  n.committedConfigurationStateAt n.commitIndex

/-- `Node::is_effective_voter`. -/
def isEffectiveVoter (n : Node) (nodeId : NodeId) : Bool :=
  n.effectiveMembership.containsVoter nodeId

/-- `Node::has_effective_quorum`. -/
def hasEffectiveQuorum (n : Node) (acks : List NodeId) : Bool :=
  (MembershipIndex.new n.effectiveMembershipShortcut n.id).hasQuorum acks

/-- `Node::uncommitted_configuration_indexes`. -/
def uncommittedConfigurationIndexes (n : Node) : List ℕ :=
  n.configuration.indexesAfter (n.snapshotIndex + 1) n.commitIndex

/-! ## Mutating the log -/

/-- `Node::append_log_entry`. -/
def appendLogEntry (n : Node) (entry : LogEntry) : Node :=
  { n with
    configuration := n.configuration.recordAppend n.persistent.log.length entry
    persistent.log := n.persistent.log ++ [entry] }

/-- The outputs that report dropped proposals. -/
def dropOutputs (reason : LocalProposalDropReason) (proposals : LocalProposalTracker) :
    List Output :=
  proposals.map fun (index, p) => .localProposalDropped p.id index p.term reason

/-- `Node::truncate_from`. -/
def truncateFrom (n : Node) (index : ℕ) (reason : LocalProposalDropReason) : Outcome :=
  let (kept, dropped) := LocalProposalTracker.splitOff n.volatile.localProposals index
  let retainedLen := if index ≤ n.firstRetainedLogIndex then 0 else index - n.firstRetainedLogIndex
  { node := { n with
      volatile.localProposals := kept
      persistent.log := n.persistent.log.take retainedLen
      configuration := n.configuration.truncate retainedLen }
    outputs := dropOutputs reason dropped }

/-- `Node::reconcile_local_proposals`. -/
def reconcileLocalProposals (n : Node) : Outcome :=
  let stands := fun e : ℕ × LocalProposal => decide (n.termAt e.1 = some e.2.term)
  { node := { n with
      volatile.localProposals := (n.volatile.localProposals.filter stands).foldl
        (fun t e => LocalProposalTracker.insert t e.1 e.2) [] }
    outputs := dropOutputs .logOverwritten
      (n.volatile.localProposals.filter fun e => !stands e) }

/-- `Node::replace_log`. -/
def replaceLog (n : Node) (log : List LogEntry) : Outcome :=
  reconcileLocalProposals { n with
    configuration := ConfigurationIndex.fromLog log
    persistent.log := log }

/-- `Node::install_snapshot_state_with_committed_configuration`. -/
def installSnapshotStateWithCommittedConfiguration (n : Node) (snapshot : RaftSnapshot)
    (committedConfiguration : Option CommittedConfiguration) : Outcome :=
  let boundaryIndex := snapshot.metadata.lastIncludedIndex
  let retainedSuffix :=
    if n.termAt boundaryIndex = some snapshot.metadata.lastIncludedTerm then
      n.logEntriesFrom (boundaryIndex + 1)
    else []
  let o := replaceLog { n with
    persistent.snapshot := some snapshot
    persistent.committedConfiguration := committedConfiguration } retainedSuffix
  { o with node := { o.node with
      volatile.commitIndex := max o.node.volatile.commitIndex boundaryIndex
      volatile.dispatchedIndex := max o.node.volatile.dispatchedIndex boundaryIndex } }

/-- `Node::install_snapshot_state`. -/
def installSnapshotState (n : Node) (snapshot : RaftSnapshot) : Outcome :=
  n.installSnapshotStateWithCommittedConfiguration snapshot
    snapshot.metadata.committedConfigurationState

/-! ## Local snapshots -/

/-- `LocalSnapshotInstallError`. -/
inductive LocalSnapshotInstallError where
  | boundaryBelowInstalledSnapshot (snapshotIndex installedIndex : ℕ)
  | boundaryAheadOfCommit (snapshotIndex commitIndex : ℕ)
  | boundaryAheadOfApplied (snapshotIndex appliedIndex : ℕ)
  | boundaryTermMismatch (snapshotIndex snapshotTerm : ℕ) (localTerm : Option ℕ)
  | committedMembershipMismatch (snapshotIndex : ℕ) (expected actual : MembershipConfig)
  | committedConfigurationMismatch (snapshotIndex : ℕ)
      (expected actual : Option CommittedConfiguration)
  | writerNotBoundaryReplica (snapshotIndex : ℕ) (writerId : NodeId)
      (membership : MembershipConfig)

/-- `Node::check_local_snapshot`. -/
def checkLocalSnapshot (n : Node) (snapshot : RaftSnapshot) :
    Except LocalSnapshotInstallError (Option CommittedConfiguration) :=
  let index := snapshot.metadata.lastIncludedIndex
  let term := snapshot.metadata.lastIncludedTerm
  let committedConfiguration := n.committedConfigurationStateAt index
  let boundaryMembership := n.membershipAtIndex index
  if index < n.snapshotIndex then .error (.boundaryBelowInstalledSnapshot index n.snapshotIndex)
  else if n.commitIndex < index then .error (.boundaryAheadOfCommit index n.commitIndex)
  else if n.dispatchedIndex < index then .error (.boundaryAheadOfApplied index n.dispatchedIndex)
  else if n.termAt index ≠ some term then
    .error (.boundaryTermMismatch index term (n.termAt index))
  else
    let declared : Except LocalSnapshotInstallError Unit :=
      match snapshot.metadata.committedConfiguration with
      | none => .ok ()
      | some declared =>
        if declared.membership ≠ boundaryMembership then
          .error (.committedMembershipMismatch index boundaryMembership declared.membership)
        else if declared.configuration ≠ committedConfiguration then
          .error (.committedConfigurationMismatch index committedConfiguration
            declared.configuration)
        else .ok ()
    match declared with
    | .error e => .error e
    | .ok () =>
      if !boundaryMembership.containsReplica snapshot.metadata.writerId then
        .error (.writerNotBoundaryReplica index snapshot.metadata.writerId boundaryMembership)
      else .ok committedConfiguration

/-- What `check_local_snapshot` verifies of a descriptor. -/
structure AcceptsLocalSnapshot (n : Node) (snapshot : RaftSnapshot) : Prop where
  installed : n.snapshotIndex ≤ snapshot.metadata.lastIncludedIndex
  committed : snapshot.metadata.lastIncludedIndex ≤ n.commitIndex
  applied : snapshot.metadata.lastIncludedIndex ≤ n.dispatchedIndex
  term : n.termAt snapshot.metadata.lastIncludedIndex = some snapshot.metadata.lastIncludedTerm
  declared : ∀ declared, snapshot.metadata.committedConfiguration = some declared →
    declared.membership = n.membershipAtIndex snapshot.metadata.lastIncludedIndex ∧
    declared.configuration = n.committedConfigurationStateAt snapshot.metadata.lastIncludedIndex
  writer : (n.membershipAtIndex snapshot.metadata.lastIncludedIndex).containsReplica
    snapshot.metadata.writerId

theorem checkLocalSnapshot_eq_ok {n : Node} {snapshot : RaftSnapshot}
    {state : Option CommittedConfiguration} :
    n.checkLocalSnapshot snapshot = .ok state ↔ n.AcceptsLocalSnapshot snapshot ∧
      state = n.committedConfigurationStateAt snapshot.metadata.lastIncludedIndex := by
  constructor
  · intro h
    unfold checkLocalSnapshot at h
    cases hdeclared : snapshot.metadata.committedConfiguration with
    | none =>
      simp only [hdeclared] at h
      split_ifs at h with hlow hcommit happlied hterm hwriter
      exact ⟨⟨not_lt.1 hlow, not_lt.1 hcommit, not_lt.1 happlied, not_not.1 hterm,
        by simp [hdeclared], by simpa using hwriter⟩, (Except.ok.inj h).symm⟩
    | some declared =>
      simp only [hdeclared] at h
      split_ifs at h with hlow hcommit happlied hterm hmembership hstate hwriter
      refine ⟨⟨not_lt.1 hlow, not_lt.1 hcommit, not_lt.1 happlied, not_not.1 hterm, ?_,
        by simpa using hwriter⟩, (Except.ok.inj h).symm⟩
      rintro _ hd
      obtain rfl := Option.some_inj.1 (hdeclared.symm.trans hd)
      exact ⟨not_not.1 hmembership, not_not.1 hstate⟩
  · rintro ⟨h, rfl⟩
    unfold checkLocalSnapshot
    dsimp only
    rw [if_neg (not_lt.2 h.installed), if_neg (not_lt.2 h.committed), if_neg (not_lt.2 h.applied),
      if_neg (not_not.2 h.term)]
    cases hdeclared : snapshot.metadata.committedConfiguration with
    | none => simp [h.writer]
    | some declared =>
      obtain ⟨hmembership, hstate⟩ := h.declared declared hdeclared
      simp [hmembership, hstate, h.writer]

/-- `Node::finish_local_snapshot_install`. -/
def finishLocalSnapshotInstall (n : Node) (snapshot : RaftSnapshot)
    (committedConfiguration : Option CommittedConfiguration) (retiredLen : ℕ) : Outcome :=
  reconcileLocalProposals { n with
    volatile.incomingSnapshot := none
    configuration := n.configuration.compactPrefix retiredLen
    persistent.snapshot := some snapshot
    persistent.committedConfiguration := committedConfiguration }

/-- `Node::install_local_snapshot`. -/
def installLocalSnapshot (n : Node) (snapshot : RaftSnapshot) :
    Except LocalSnapshotInstallError Outcome :=
  match n.checkLocalSnapshot snapshot with
  | .error e => .error e
  | .ok committedConfiguration =>
    let retiredLen := snapshot.metadata.lastIncludedIndex - n.snapshotIndex
    .ok (finishLocalSnapshotInstall
      { n with persistent.log := n.persistent.log.drop retiredLen }
      snapshot committedConfiguration retiredLen)

/-- An accepted local snapshot retires the entries up to its boundary. -/
theorem installLocalSnapshot_ok {n : Node} {snapshot : RaftSnapshot} {o : Outcome}
    (h : n.installLocalSnapshot snapshot = .ok o) :
    n.AcceptsLocalSnapshot snapshot ∧ o = finishLocalSnapshotInstall
      { n with persistent.log :=
        n.persistent.log.drop (snapshot.metadata.lastIncludedIndex - n.snapshotIndex) }
      snapshot (n.committedConfigurationStateAt snapshot.metadata.lastIncludedIndex)
      (snapshot.metadata.lastIncludedIndex - n.snapshotIndex) := by
  unfold installLocalSnapshot at h
  cases hcheck : n.checkLocalSnapshot snapshot with
  | error e => simp [hcheck] at h
  | ok state =>
    obtain ⟨haccepts, rfl⟩ := checkLocalSnapshot_eq_ok.1 hcheck
    rw [hcheck] at h
    exact ⟨haccepts, (Except.ok.inj h).symm⟩

end Node

end Rafter
