import Rafter.Conduct.Compaction
import Rafter.Conduct.Proposals

/-!
# Recording a local snapshot

A local snapshot is recorded in one call, or prepared first and committed once the embedder has made
it durable, with the retired entries dropped at once or handed out. All of them edit the log and the
index of its configurations in place, where the path of a received snapshot rebuilds both.

The descriptor may leave out the configuration at its boundary. The node then stands on its static
configuration there, and a descriptor whose author joined later is refused when it is recorded
again.

Results:

* `Node.local_snapshot_entry_points_iff`: when the entry points agree and can be repeated.
-/

namespace Rafter

/-! ## The prepared transition -/

/-- A checked local snapshot that the node has not taken over yet. -/
structure PreparedLocalSnapshotInstall where
  node : Node
  snapshot : RaftSnapshot
  committedConfiguration : Option CommittedConfiguration
  retiredLen : ℕ

namespace PreparedLocalSnapshotInstall

/-- `PreparedLocalSnapshotInstall::commit`. Draining more entries than the log has panics. -/
def commit (p : PreparedLocalSnapshotInstall) : Option Outcome :=
  if p.retiredLen ≤ p.node.persistent.log.length then
    some (Node.finishLocalSnapshotInstall
      { p.node with persistent.log := p.node.persistent.log.drop p.retiredLen }
      p.snapshot p.committedConfiguration p.retiredLen)
  else none

/-- `PreparedLocalSnapshotInstall::commit_with_retired_entries`: the log is split off, which panics
beyond its end, and its head is handed out. -/
def commitWithRetiredEntries (p : PreparedLocalSnapshotInstall) :
    Option (Outcome × List LogEntry) :=
  if p.retiredLen = 0 then
    some (Node.finishLocalSnapshotInstall p.node p.snapshot p.committedConfiguration p.retiredLen,
      [])
  else if p.retiredLen ≤ p.node.persistent.log.length then
    some (Node.finishLocalSnapshotInstall
      { p.node with persistent.log := p.node.persistent.log.drop p.retiredLen }
      p.snapshot p.committedConfiguration p.retiredLen, p.node.persistent.log.take p.retiredLen)
  else none

theorem commitWithRetiredEntries_eq (p : PreparedLocalSnapshotInstall) :
    p.commitWithRetiredEntries =
      p.commit.map fun o => (o, p.node.persistent.log.take p.retiredLen) := by
  unfold commitWithRetiredEntries commit
  by_cases hzero : p.retiredLen = 0
  · rw [if_pos hzero, if_pos (by omega), hzero]
    rfl
  · rw [if_neg hzero]
    split_ifs <;> rfl

end PreparedLocalSnapshotInstall

namespace Node

variable {n : Node} {snapshot : RaftSnapshot} {o : Outcome}

/-- `Node::prepare_local_snapshot_install`. -/
def prepareLocalSnapshotInstall (n : Node) (snapshot : RaftSnapshot) :
    Except LocalSnapshotInstallError PreparedLocalSnapshotInstall :=
  match n.checkLocalSnapshot snapshot with
  | .error e => .error e
  | .ok committedConfiguration =>
    let boundaryIndex := snapshot.metadata.lastIncludedIndex
    if boundaryIndex < n.snapshotIndex then
      .error (.boundaryBelowInstalledSnapshot boundaryIndex n.snapshotIndex)
    else .ok ⟨n, snapshot, committedConfiguration, boundaryIndex - n.snapshotIndex⟩

/-- The prepared transition commits to what the one call does: the check admits no boundary outside
the log. -/
theorem Sound.map_commit_prepare (hn : n.Sound) (snapshot : RaftSnapshot) :
    (n.prepareLocalSnapshotInstall snapshot).map PreparedLocalSnapshotInstall.commit =
      (n.installLocalSnapshot snapshot).map some := by
  unfold prepareLocalSnapshotInstall installLocalSnapshot
  cases hcheck : n.checkLocalSnapshot snapshot with
  | error e => rfl
  | ok state =>
    have haccepts := (checkLocalSnapshot_eq_ok.1 hcheck).1
    have hlast := haccepts.committed.trans hn.commit_le
    unfold lastLogIndex at hlast
    dsimp only
    rw [if_neg (not_lt.2 haccepts.installed), Except.map, PreparedLocalSnapshotInstall.commit,
      if_pos (by dsimp only; omega)]
    rfl

/-! ## Against a received snapshot -/

/-- The suffix that a received snapshot keeps is what compaction leaves. -/
theorem Compacted.log_eq_suffixAbove (hc : n.Compacted snapshot o) :
    o.node.persistent.log = n.suffixAbove snapshot.metadata := by
  have hs := hc.accepts.installed
  rw [hc.log, suffixAbove, if_pos hc.accepts.term, logEntriesFrom]
  by_cases hend : n.lastLogIndex < snapshot.metadata.lastIncludedIndex + 1
  · rw [if_pos (.inr hend)]
    unfold lastLogIndex at hend
    exact List.drop_eq_nil_of_le (by omega)
  · rw [if_neg (by omega)]
    unfold firstRetainedLogIndex
    congr 1
    omega

/-- What both paths to a snapshot decide. -/
structure SameBoundary (n n' : Node) : Prop where
  log : n'.persistent.log = n.persistent.log
  snapshot : n'.persistent.snapshot = n.persistent.snapshot
  configuration : n'.configuration = n.configuration
  commitIndex : n'.commitIndex = n.commitIndex
  dispatchedIndex : n'.dispatchedIndex = n.dispatchedIndex

theorem Sound.sameBoundary (hn : n.Sound) (hc : n.Compacted snapshot o) :
    SameBoundary (n.installSnapshotState snapshot).node o.node := by
  obtain ⟨tracker, dropped, hinstall, -⟩ := n.installSnapshotState_eq snapshot
  rw [hinstall]
  refine ⟨hc.log_eq_suffixAbove, hc.snapshot_eq, ?_, ?_, ?_⟩
  · show o.node.configuration = .fromLog (n.suffixAbove snapshot.metadata)
    rw [hc.configuration, hn.index, ConfigurationIndex.fromLog_drop, ← hc.log,
      hc.log_eq_suffixAbove]
  · exact hc.commit.trans (max_eq_left hc.accepts.committed).symm
  · exact hc.dispatched.trans (max_eq_left hc.accepts.applied).symm

/-! ## Recording again -/

/-- At the boundary the configuration that was recorded is read back. -/
theorem Sound.committedConfigurationStateAt_recorded (hn : n.Sound) (hc : n.Compacted snapshot o) :
    o.node.committedConfigurationStateAt snapshot.metadata.lastIncludedIndex =
      n.committedConfigurationStateAt snapshot.metadata.lastIncludedIndex := by
  refine (hn.committedConfigurationStateAt_of_none hc le_rfl ?_).1
  rw [(hn.compacted hc).retainedStateAt_eq, hc.snapshotIndex_eq, Nat.sub_self, List.take_zero]
  rfl

/-- The check passes again exactly if the author is a replica of what the node now reads at the
boundary. -/
theorem Sound.accepts_again_iff (hn : n.Sound) (hc : n.Compacted snapshot o) :
    o.node.AcceptsLocalSnapshot snapshot ↔ snapshot.metadata.committedConfiguration.isSome ∨
      n.config.staticMembership.containsReplica snapshot.metadata.writerId := by
  have hboundary := hn.membershipAtIndex_boundary hc
  rw [RaftSnapshotMetadata.committedMembership] at hboundary
  have hterm := hc.termAt_boundary.trans hc.accepts.term
  constructor
  · intro h
    have hwriter := h.writer
    cases hd : snapshot.metadata.committedConfiguration with
    | none =>
      rw [hboundary, hd] at hwriter
      exact .inr hwriter
    | some declared => exact .inl rfl
  · intro h
    refine ⟨hc.snapshotIndex_eq.le, hc.commit ▸ hc.accepts.committed,
      hc.dispatched ▸ hc.accepts.applied, hterm, fun declared hd => ?_, ?_⟩
    · rw [hboundary, hn.committedConfigurationStateAt_recorded hc, hd]
      exact ⟨rfl, (hc.accepts.declared declared hd).2⟩
    · rw [hboundary]
      cases hd : snapshot.metadata.committedConfiguration with
      | none =>
        rw [hd] at h
        exact h.resolve_left (by simp)
      | some declared =>
        -- the captured configuration is the one the author was found in the first time
        have hwriter := hc.accepts.writer
        rw [← (hc.accepts.declared declared hd).1] at hwriter
        exact hwriter

/-- Nothing is dropped or moved where every tracked proposal stands. -/
theorem reconcileLocalProposals_eq_self
    (hsorted : n.volatile.localProposals.Pairwise fun e e' => e.1 < e'.1)
    (hstands : ∀ e ∈ n.volatile.localProposals, n.termAt e.1 = some e.2.term) :
    n.reconcileLocalProposals = ⟨n, []⟩ := by
  unfold reconcileLocalProposals
  dsimp only
  rw [List.filter_eq_self.2 (by simpa using hstands),
    List.filter_eq_nil_iff.2 (by simpa using hstands),
    LocalProposalTracker.foldl_insert_eq (by simpa using hsorted)]
  rfl

theorem Sound.recorded_again_iff (hn : n.Sound)
    (hsorted : n.volatile.localProposals.Pairwise fun e e' => e.1 < e'.1)
    (h : n.installLocalSnapshot snapshot = .ok o) :
    o.node.installLocalSnapshot snapshot = .ok ⟨o.node, []⟩ ↔
      snapshot.metadata.committedConfiguration.isSome ∨
        n.config.staticMembership.containsReplica snapshot.metadata.writerId := by
  have hc := compacted_of_ok h
  rw [← hn.accepts_again_iff hc]
  refine ⟨fun hagain => (installLocalSnapshot_ok hagain).1, fun haccepts => ?_⟩
  have htracker := (proposals_recorded h hsorted).1
  have hself : o.node.reconcileLocalProposals = ⟨o.node, []⟩ := by
    apply reconcileLocalProposals_eq_self
    · rw [htracker]
      exact hsorted.filter _
    · intro e he
      rw [htracker, List.mem_filter] at he
      simpa using he.2
  have hincoming : none = o.node.volatile.incomingSnapshot := by
    rw [(installLocalSnapshot_ok h).2]
    rfl
  have hindex : o.node.configuration.compactPrefix 0 = o.node.configuration := by
    rw [(hn.compacted hc).index, ConfigurationIndex.fromLog_drop, List.drop_zero]
  -- no entry is retired, and every field is written with what it holds
  unfold installLocalSnapshot finishLocalSnapshotInstall
  rw [checkLocalSnapshot_eq_ok.2 ⟨haccepts, rfl⟩]
  dsimp only
  rw [hc.snapshotIndex_eq, Nat.sub_self, List.drop_zero, hindex,
    hn.committedConfigurationStateAt_recorded hc, ← hc.committedConfiguration, ← hc.snapshot_eq,
    hincoming]
  exact congrArg Except.ok hself

/-! ## The entry points together -/

/-- The entry points agree, fail cleanly, follow the path of a received snapshot and can be
repeated. -/
structure EntryPointsAgree (n : Node) (snapshot : RaftSnapshot) : Prop where
  prepared : (n.prepareLocalSnapshotInstall snapshot).map PreparedLocalSnapshotInstall.commit =
    (n.installLocalSnapshot snapshot).map some
  deferred : (n.prepareLocalSnapshotInstall snapshot).map
      (fun p => p.commitWithRetiredEntries.map Prod.fst) =
    (n.installLocalSnapshot snapshot).map some
  refused : ∀ e, n.installLocalSnapshot snapshot = .error e →
    n.call (.installLocalSnapshot snapshot) = ⟨n, []⟩
  received : ∀ o, n.installLocalSnapshot snapshot = .ok o →
    n.snapshotIndex < snapshot.metadata.lastIncludedIndex →
    SameBoundary (n.installSnapshotState snapshot).node o.node
  again : ∀ o, n.installLocalSnapshot snapshot = .ok o →
    o.node.installLocalSnapshot snapshot = .ok ⟨o.node, []⟩

/-- On every sound node the entry points agree exactly if a descriptor that is accepted captures the
configuration at its boundary or was written by a replica of the static one. -/
theorem local_snapshot_entry_points_iff (hn : n.Sound)
    (hsorted : n.volatile.localProposals.Pairwise fun e e' => e.1 < e'.1)
    (snapshot : RaftSnapshot) :
    n.EntryPointsAgree snapshot ↔ (n.AcceptsLocalSnapshot snapshot →
      snapshot.metadata.committedConfiguration.isSome ∨
        n.config.staticMembership.containsReplica snapshot.metadata.writerId) := by
  constructor
  · intro h haccepts
    have hok : ∃ o, n.installLocalSnapshot snapshot = .ok o := by
      unfold installLocalSnapshot
      rw [checkLocalSnapshot_eq_ok.2 ⟨haccepts, rfl⟩]
      exact ⟨_, rfl⟩
    obtain ⟨o, ho⟩ := hok
    exact (hn.recorded_again_iff hsorted ho).1 (h.again o ho)
  · intro h
    refine ⟨hn.map_commit_prepare snapshot, ?_, fun e he => ?_, fun o ho _ => ?_, fun o ho => ?_⟩
    · rw [← hn.map_commit_prepare]
      congr 1
      funext p
      rw [p.commitWithRetiredEntries_eq]
      cases p.commit <;> rfl
    · rw [call, he]
    · exact hn.sameBoundary (compacted_of_ok ho)
    · exact (hn.recorded_again_iff hsorted ho).2 (h (installLocalSnapshot_ok ho).1)

/-- A descriptor that captures its configuration: all entry points take it. -/
theorem local_snapshot_entry_points_declared :
    ((Node.new soleVoter).calls takeInLearner).node.EntryPointsAgree learnerSnapshot :=
  (local_snapshot_entry_points_iff
    (((Node.new soleVoter).calls_conducts takeInLearner).sound (Constructed.new soleVoter).sound)
    (by decide +kernel) learnerSnapshot).2 fun _ => .inl rfl

/-- The bare snapshot at index 2, written by the learner that joined there. -/
def learnersSnapshot : RaftSnapshot :=
  { bareSnapshot with metadata := { bareSnapshot.metadata with writerId := 2 } }

/-- The learner's descriptor is accepted once; the same call made again is refused. -/
theorem learners_snapshot_refused_again :
    (∃ o e, ((Node.new soleVoter).calls takeInLearner).node.installLocalSnapshot learnersSnapshot =
        .ok o ∧ o.node.installLocalSnapshot learnersSnapshot = .error e) ∧
      ¬ ((Node.new soleVoter).calls takeInLearner).node.EntryPointsAgree learnersSnapshot := by
  have hrefused : (((Node.new soleVoter).calls takeInLearner).node.installLocalSnapshot
      learnersSnapshot).toOption.map
        (fun o => (o.node.installLocalSnapshot learnersSnapshot).toOption.isNone) = some true := by
    decide +kernel
  cases ho : ((Node.new soleVoter).calls takeInLearner).node.installLocalSnapshot
      learnersSnapshot with
  | error e => rw [ho] at hrefused; simp [Except.toOption] at hrefused
  | ok o =>
    rw [ho] at hrefused
    cases hagain : o.node.installLocalSnapshot learnersSnapshot with
    | ok o' => rw [Except.toOption, Option.map_some, hagain] at hrefused; cases hrefused
    | error e =>
      refine ⟨⟨o, e, rfl, hagain⟩, fun h => ?_⟩
      rw [h.again o ho] at hagain
      cases hagain

end Node

end Rafter
