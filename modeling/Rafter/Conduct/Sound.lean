import Rafter.Conduct.Log
import Rafter.Conduct.Moves

/-!
# Index geometry

The order of a node's indexes, whatever the inputs: snapshot boundary, dispatch cursor, commit
index, last log index. The configuration index always lists the retained configuration entries.

Results:

* `Node.Constructed.sound`: constructed nodes are so;
* `Node.Move.sound`: every move keeps it.
-/

namespace Rafter

open Protocol

namespace Node

variable {n n' : Node} {l : List Observation} {o : Outcome} {snapshot : RaftSnapshot}

/-- The index order of a node and its configuration index. -/
structure Sound (n : Node) : Prop where
  snapshot_le : n.snapshotIndex ≤ n.dispatchedIndex
  dispatched_le : n.dispatchedIndex ≤ n.commitIndex
  commit_le : n.commitIndex ≤ n.lastLogIndex
  index : n.configuration = .fromLog n.persistent.log

/-! ## Constructed nodes -/

/-- A bootstrap entry at the boundary is checked only; one above it is appended. -/
theorem accept_ok {v v' : Bootstrap.LogValidation} {e : BootstrapLogEntry}
    (h : v.accept e = .ok v') : v' = v ∨ e.index = v.expectedIndex ∧ v' = { v with
      expectedIndex := e.index + 1
      lastLogIndex := e.index
      materializedLog := v.materializedLog ++ [{ term := e.term, kind := e.kind }] } := by
  unfold Bootstrap.LogValidation.accept at h
  dsimp only at h
  split_ifs at h with hbelow hboundary
  · left
    cases hsnapshot : v.snapshot with
    | none => simp [hsnapshot] at hboundary
    | some snapshot =>
      rw [hsnapshot] at h
      dsimp only at h
      split_ifs at h
      obtain ⟨-, -, h⟩ := Bootstrap.bind_ok h
      obtain ⟨-, -, h⟩ := Bootstrap.bind_ok h
      exact (Except.ok.inj h).symm
  · right
    obtain ⟨⟨⟩, hentry, h⟩ := Bootstrap.bind_ok h
    refine ⟨?_, (Except.ok.inj h).symm⟩
    unfold Bootstrap.LogValidation.validateRetainedEntry at hentry
    split_ifs at hentry with hindex
    exact not_not.1 hindex

theorem foldlM_accept_lastLogIndex {entries : List BootstrapLogEntry}
    {v v' : Bootstrap.LogValidation} (hexpected : v.expectedIndex = v.lastLogIndex + 1)
    (h : entries.foldlM Bootstrap.LogValidation.accept v = .ok v') :
    v'.lastLogIndex + v.materializedLog.length = v.lastLogIndex + v'.materializedLog.length := by
  induction entries generalizing v with
  | nil =>
    obtain rfl : v = v' := Except.ok.inj h
    rfl
  | cons e rest ih =>
    rw [List.foldlM_cons] at h
    obtain ⟨v₁, hv₁, hrest⟩ := Bootstrap.bind_ok h
    rcases accept_ok hv₁ with rfl | ⟨hindex, rfl⟩
    · exact ih hexpected hrest
    · have := ih rfl hrest
      simp only [List.length_append, List.length_singleton] at this
      omega

/-- Hydration never commits past the log it accepts. -/
theorem commit_le_of_validateLog {b : BootstrapState} {log : List LogEntry}
    (h : Bootstrap.validateLog b = .ok log) :
    max b.commitIndex ((b.snapshot.map (·.metadata.lastIncludedIndex)).getD 0) ≤
      (b.snapshot.map (·.metadata.lastIncludedIndex)).getD 0 + log.length := by
  unfold Bootstrap.validateLog at h
  dsimp only at h
  obtain ⟨v, hv, h⟩ := Bootstrap.bind_ok h
  have hlast := foldlM_accept_lastLogIndex rfl hv
  split_ifs at h with hcommit
  obtain rfl := Except.ok.inj h
  simp only [Option.map_map, Function.comp_def, List.length_nil] at hlast hcommit
  omega

/-- The parts of a constructed node that only a leader fills are empty. -/
theorem Constructed.fresh (h : n.Constructed) :
    n.leader = {} ∧ n.role = .follower ∧ n.volatile.localProposals = [] := by
  cases h with
  | new config => exact ⟨rfl, rfl, rfl⟩
  | restored h =>
    obtain ⟨log, committed, -, -, -, -, rfl⟩ := fromBootstrap_eq_ok.1 h
    exact ⟨rfl, rfl, rfl⟩
  | resumed h =>
    obtain ⟨m, hm, -, rfl⟩ := fromBootstrapAppliedThrough_ok h
    obtain ⟨log, committed, -, -, -, -, rfl⟩ := fromBootstrap_eq_ok.1 hm
    exact ⟨rfl, rfl, rfl⟩

theorem sound_of_fromBootstrap {config : NodeConfig} {b : BootstrapState}
    (h : fromBootstrap config b = .ok n) : n.Sound := by
  obtain ⟨log, committed, -, -, hlog, -, rfl⟩ := fromBootstrap_eq_ok.1 h
  have hcommit := commit_le_of_validateLog hlog
  have hindex : ∀ m : Node, m.persistent.snapshot = b.snapshot →
      m.snapshotIndex = (b.snapshot.map (·.metadata.lastIncludedIndex)).getD 0 := by
    intro m hm
    rw [snapshotIndex, hm]
    cases b.snapshot <;> rfl
  refine ⟨?_, le_max_right _ _, ?_, rfl⟩
  · rw [hindex _ rfl]
    exact le_rfl
  · unfold lastLogIndex
    rw [hindex _ rfl]
    exact hcommit

theorem Constructed.sound (h : n.Constructed) : n.Sound := by
  cases h with
  | new config => exact ⟨le_rfl, le_rfl, le_rfl, rfl⟩
  | restored h => exact sound_of_fromBootstrap h
  | resumed h =>
    obtain ⟨m, hm, hk, rfl⟩ := fromBootstrapAppliedThrough_ok h
    have hsound := sound_of_fromBootstrap hm
    exact ⟨hsound.snapshot_le.trans (le_max_left _ _), max_le hsound.dispatched_le hk,
      hsound.commit_le, hsound.index⟩

/-! ## Moves -/

/-- Geometry reads the ledger only. -/
theorem Sound.of_eq (h : n.Sound) (hsnapshot : n'.persistent.snapshot = n.persistent.snapshot)
    (hlog : n'.persistent.log = n.persistent.log) (hindex : n'.configuration = n.configuration)
    (hcommit : n'.commitIndex = n.commitIndex)
    (hdispatched : n'.dispatchedIndex = n.dispatchedIndex) :
    n'.Sound := by
  have hboundary : n'.snapshotIndex = n.snapshotIndex := by rw [snapshotIndex, hsnapshot]; rfl
  have hlast : n'.lastLogIndex = n.lastLogIndex := by rw [lastLogIndex, hboundary, hlog]; rfl
  exact ⟨by rw [hboundary, hdispatched]; exact h.snapshot_le,
    by rw [hdispatched, hcommit]; exact h.dispatched_le,
    by rw [hcommit, hlast]; exact h.commit_le, by rw [hindex, hlog]; exact h.index⟩

theorem Sound.of_ledger (h : n.Sound) (hledger : n'.ledger = n.ledger) : n'.Sound :=
  h.of_eq (congrArg Ledger.snapshot hledger) (congrArg Ledger.log hledger)
    (congrArg Ledger.configuration hledger) (congrArg Ledger.commitIndex hledger)
    (congrArg Ledger.dispatchedIndex hledger)

theorem Sound.appendLogEntry (h : n.Sound) (e : LogEntry) : (n.appendLogEntry e).Sound where
  snapshot_le := h.snapshot_le
  dispatched_le := h.dispatched_le
  commit_le := by
    have hlast : (n.appendLogEntry e).lastLogIndex = n.lastLogIndex + 1 := by
      simp [lastLogIndex, Node.appendLogEntry, snapshotIndex]; rfl
    rw [hlast]
    exact h.commit_le.trans (Nat.le_succ _)
  index := by
    rw [Node.appendLogEntry, h.index, ConfigurationIndex.fromLog_append_singleton]

theorem Sound.spliced (h : n.Sound) {f : ℕ} {rest : List LogEntry} (hs : n.Spliced f rest o) :
    o.node.Sound := by
  have hlast := hs.lastLogIndex_eq
  have hcommit := hs.committed
  rw [min_eq_left h.commit_le] at hcommit
  obtain ⟨tracker, configuration, hnode, hindex, -⟩ := hs.node
  have hcommit' : o.node.commitIndex ≤ o.node.lastLogIndex := by
    rw [hlast]
    exact (by rw [hnode]; exact hcommit : o.node.commitIndex ≤ f).trans (Nat.le_add_right _ _)
  rw [hnode] at hcommit' ⊢
  exact ⟨h.snapshot_le, h.dispatched_le, hcommit', hindex h.index⟩

theorem Sound.installed (h : n.Sound)
    (hnew : n.snapshotCoveredThrough < snapshot.metadata.lastIncludedIndex) :
    (n.installSnapshotState snapshot).node.Sound := by
  obtain ⟨tracker, dropped, hinstall, -⟩ := n.installSnapshotState_eq snapshot
  have hcovered : n.commitIndex ≤ snapshot.metadata.lastIncludedIndex :=
    (le_max_right _ _).trans hnew.le
  rw [hinstall]
  exact ⟨le_max_right _ _, max_le (h.dispatched_le.trans (le_max_left _ _)) (le_max_right _ _),
    (max_le hcovered le_rfl).trans (Nat.le_add_right _ _), rfl⟩

theorem Sound.compacted (h : n.Sound) (hc : n.Compacted snapshot o) : o.node.Sound := by
  have hinstalled := hc.accepts.installed
  have hcommitted := hc.accepts.committed.trans h.commit_le
  have hcommit := h.commit_le
  unfold lastLogIndex at hcommit hcommitted
  refine ⟨?_, ?_, ?_, ?_⟩
  · rw [hc.snapshotIndex_eq, hc.dispatched]
    exact hc.accepts.applied
  · rw [hc.dispatched, hc.commit]
    exact h.dispatched_le
  · rw [hc.commit, lastLogIndex, hc.snapshotIndex_eq, hc.log, List.length_drop]
    omega
  · rw [hc.configuration, hc.log, h.index, ConfigurationIndex.fromLog_drop]

theorem Move.sound (h : Move n l n') (hn : n.Sound) : n'.Sound := by
  cases h with
  | traffic hledger htransfer hsequence houtputs => exact hn.of_ledger hledger
  | follow | transfer | register => exact hn.of_eq rfl rfl rfl rfl rfl
  | campaign hrole hrole' hterm hledger hleader =>
    exact hn.of_eq (congrArg Ledger.snapshot hledger) (congrArg Ledger.log hledger)
      (congrArg Ledger.configuration hledger) (congrArg Ledger.commitIndex hledger)
      (congrArg Ledger.dispatchedIndex hledger)
  | lead hrole =>
    exact (hn.appendLogEntry ⟨n.currentTerm, .noop⟩).of_eq rfl rfl rfl rfl rfl
  | configure configuration hrole => exact hn.appendLogEntry _
  | propose proposal hrole =>
    rcases proposal with ⟨_ | id, payload⟩
    · exact hn.appendLogEntry _
    · exact (hn.appendLogEntry ⟨n.currentTerm, .application payload⟩).of_eq rfl rfl rfl rfl rfl
  | refuse | decline | grant | reject => exact hn
  | commit k hk hle =>
    exact ⟨hn.snapshot_le, hn.dispatched_le.trans hk, hle.trans (max_le hn.commit_le le_rfl),
      hn.index⟩
  | dispatch entry hlt hentry =>
    rw [dispatchEntry_node]
    exact ⟨hn.snapshot_le.trans (Nat.le_succ _), hlt, hn.commit_le, hn.index⟩
  | splice hrole hprev h =>
    obtain ⟨f, rest, hspliced, -⟩ := spliced_of_ok hprev h
    exact hn.spliced hspliced
  | install snapshot staged hrole hnew => exact hn.installed hnew
  | compact h => exact hn.compacted (compacted_of_ok h)
  | acknowledge v sequence =>
    obtain ⟨kept, hnode⟩ := n.acknowledgeReadBarriers_node v sequence
    rw [hnode]
    exact hn.of_eq rfl rfl rfl rfl rfl

/-- The dispatch cursor never moves back. -/
theorem Move.dispatched_le (h : Move n l n') : n.dispatchedIndex ≤ n'.dispatchedIndex := by
  cases h with
  | traffic hledger | campaign _ _ _ hledger => exact (congrArg Ledger.dispatchedIndex hledger).ge
  | propose proposal hrole => rcases proposal with ⟨_ | id, payload⟩ <;> exact le_rfl
  | dispatch entry hlt hentry =>
    rw [dispatchEntry_node]
    exact Nat.le_succ _
  | splice hrole hprev h =>
    obtain ⟨f, rest, hspliced, -⟩ := spliced_of_ok hprev h
    obtain ⟨tracker, configuration, hnode, -⟩ := hspliced.node
    rw [hnode]
    exact le_rfl
  | install snapshot staged hrole hnew => exact le_max_left _ _
  | compact h => exact (compacted_of_ok h).dispatched.ge
  | acknowledge v sequence =>
    obtain ⟨kept, hnode⟩ := n.acknowledgeReadBarriers_node v sequence
    rw [hnode]
    exact le_rfl
  | follow | lead | configure | refuse | commit | decline | transfer | register | grant | reject =>
    exact le_rfl

/-- The commit index stays, or all that is committed is dispatched. -/
def Settles (n n' : Node) : Prop :=
  n'.commitIndex = n.commitIndex ∧ n.dispatchedIndex ≤ n'.dispatchedIndex ∨
    n'.commitIndex ≤ n'.dispatchedIndex

theorem Settles.trans {n'' : Node} (h : n.Settles n') (h' : n'.Settles n'') : n.Settles n'' := by
  unfold Settles at *
  omega

end Node

end Rafter
