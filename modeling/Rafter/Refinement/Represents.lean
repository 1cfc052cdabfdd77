import Rafter.Node.Hydrate
import Rafter.Node.Proposal
import Rafter.Refinement.FullLog

/-!
# What a node says about its full log

`Represents initial n g`: the node retains the part of `g` above its snapshot boundary, and its
snapshot, configuration index and recorded configuration describe `g`. From it, the views of
`node/log/read.rs` and `node/membership/view.rs` read the full log, and the mutations of
`node/log.rs`, local snapshots and restarts keep representing one.

Results:

* `Represents.termAt_eq`, `Represents.effectiveMembership_eq`, `Represents.membershipAtIndex_eq`,
  `Represents.committedConfigurationStateAt_eq`, `Represents.nextConfigurationId_eq`;
* `Represents.append`, `Represents.truncateFrom`, `Represents.installSnapshotState`,
  `Represents.installLocalSnapshot`, `Represents.fromBootstrap`.
-/

namespace Rafter

open Protocol

variable {g : List LogEntry} {k : ℕ}
variable {c b t : ℕ} {x : CommittedConfiguration} {stored : Option CommittedConfiguration}
variable {snapshot : RaftSnapshot} {n' : Node}

/-- A snapshot descriptor that is true of the full log `g`. -/
structure SnapshotDescribes (initial : MembershipConfig) (g : List LogEntry)
    (m : RaftSnapshotMetadata) : Prop where
  le : m.lastIncludedIndex ≤ g.length
  term : termOf g m.lastIncludedIndex = some m.lastIncludedTerm
  configuration : m.committedConfiguration = some
    { configuration := configurationStateOf (g.take m.lastIncludedIndex)
      membership := membershipOf initial (g.take m.lastIncludedIndex) }
  writer : (membershipOf initial (g.take m.lastIncludedIndex)).containsReplica m.writerId

/-- The node stores the log of the history. -/
structure Represents (initial : MembershipConfig) (n : Node) (g : List LogEntry) : Prop where
  static : n.config.staticMembership = initial
  log : n.persistent.log = g.drop n.snapshotIndex
  index : n.configuration = ConfigurationIndex.fromLog n.persistent.log
  snapshot : ∀ s, n.persistent.snapshot = some s → SnapshotDescribes initial g s.metadata ∧
    s.metadata.hardStateTerm ≤ n.currentTerm ∧ s.applicationPayloadLen ≤ u64Max
  committed : ∀ x, n.persistent.committedConfiguration = some x →
    x.index ≤ n.commitIndex ∧ ConfigurationAt g x
  snapshot_le : n.snapshotIndex ≤ n.dispatchedIndex
  dispatched_le : n.dispatchedIndex ≤ n.commitIndex
  commit_le : n.commitIndex ≤ g.length

theorem termOf_zero (g : List LogEntry) : termOf g 0 = some 0 := rfl

theorem termOf_succ (g : List LogEntry) (k : ℕ) : termOf g (k + 1) = g[k]?.map (·.term) := rfl

theorem termOf_of_pos (h : 0 < k) : termOf g k = g[k - 1]?.map (·.term) :=
  if_neg (by omega)

theorem termOf_take (h : k ≤ b) : termOf (g.take b) k = termOf g k := by
  rcases k with _ | k
  · rfl
  · rw [termOf_succ, termOf_succ, List.getElem?_take_of_lt h]

/-- What is read below an index where two logs agree is the same. -/
theorem termOf_eq_of_take_eq {g' : List LogEntry} (h : g.take b = g'.take b) (hk : k ≤ b) :
    termOf g k = termOf g' k := by
  rw [← termOf_take hk, h, termOf_take hk]

theorem le_of_termOf_eq_some (h : termOf g k = some t) : k ≤ g.length := by
  rcases k with _ | k
  · omega
  · rw [termOf_succ, Option.map_eq_some_iff] at h
    obtain ⟨e, he, -⟩ := h
    exact (List.getElem?_eq_some_iff.1 he).1

theorem SnapshotDescribes.of_take {initial : MembershipConfig} {g' : List LogEntry}
    {m : RaftSnapshotMetadata} (h : SnapshotDescribes initial g m)
    (hle : m.lastIncludedIndex ≤ g'.length)
    (ht : g.take m.lastIncludedIndex = g'.take m.lastIncludedIndex) :
    SnapshotDescribes initial g' m where
  le := hle
  term := by rw [← termOf_eq_of_take_eq ht le_rfl, h.term]
  configuration := by rw [← ht, h.configuration]
  writer := by rw [← ht]; exact h.writer

theorem Node.snapshotIndex_eq {n : Node} {s : RaftSnapshot} (hs : n.persistent.snapshot = some s) :
    n.snapshotIndex = s.metadata.lastIncludedIndex := by
  simp [Node.snapshotIndex, hs]

theorem Node.termAt_eq_none {n : Node} (hk : k < n.snapshotIndex) : n.termAt k = none := by
  rw [Node.termAt, if_neg (by omega), if_neg (by omega), if_pos hk]

namespace Represents

variable {initial : MembershipConfig} {n : Node}

/-! ## Reading -/

section Reading

variable (h : Represents initial n g)

include h

theorem le : n.snapshotIndex ≤ g.length := (h.snapshot_le.trans h.dispatched_le).trans h.commit_le

theorem lastLogIndex_eq : n.lastLogIndex = g.length := by
  have := h.le
  rw [Node.lastLogIndex, h.log, List.length_drop]
  omega

theorem entryAt_eq (hk : n.snapshotIndex < k) : n.entryAt k = g[k - 1]? := by
  rw [Node.entryAt, if_neg (by omega), h.log, List.getElem?_drop, Node.firstRetainedLogIndex]
  congr 1
  omega

theorem termAt_eq (hk : n.snapshotIndex ≤ k) : n.termAt k = termOf g k := by
  unfold Node.termAt
  split_ifs with h0 hs hlt
  · rw [h0.1, termOf_zero]
  · cases hsn : n.persistent.snapshot with
    | none =>
      have : n.snapshotIndex = 0 := by simp [Node.snapshotIndex, hsn]
      omega
    | some s => rw [Option.map_some, hs, Node.snapshotIndex_eq hsn, (h.snapshot s hsn).1.term]
  · omega
  · rw [h.entryAt_eq (by omega), termOf_of_pos (by omega)]

/-- Whatever term the node reports at an index is the one of the full log. -/
theorem termOf_of_termAt (ht : n.termAt k = some t) : termOf g k = some t := by
  rcases lt_or_ge k n.snapshotIndex with hlt | hge
  · rw [Node.termAt_eq_none hlt] at ht
    exact absurd ht (by simp)
  · rwa [h.termAt_eq hge] at ht

theorem lastLogTerm_eq : n.lastLogTerm = (raftScheme initial).lastTerm g := by
  rw [Node.lastLogTerm, h.lastLogIndex_eq, h.termAt_eq h.le]
  rcases List.eq_nil_or_concat g with rfl | ⟨l, e, rfl⟩
  · rfl
  · simp [termOf, Scheme.lastTerm, raftScheme]

theorem lastConfiguration_take (k : ℕ) : lastConfiguration (g.take k) =
    ((lastConfiguration (n.persistent.log.take (k - n.snapshotIndex))).map fun x =>
      (n.snapshotIndex + x.1, x.2)).or (lastConfiguration (g.take (min k n.snapshotIndex))) := by
  have hsplit : g.take k =
      g.take (min k n.snapshotIndex) ++ n.persistent.log.take (k - n.snapshotIndex) := by
    rw [h.log]
    rcases le_total k n.snapshotIndex with hk | hk
    · rw [min_eq_left hk, Nat.sub_eq_zero_of_le hk, List.take_zero, List.append_nil]
    · rw [min_eq_right hk]
      conv_lhs => rw [← List.take_append_drop n.snapshotIndex (g.take k), List.take_take,
        min_eq_left hk, List.drop_take]
  rw [hsplit, lastConfiguration_append]
  rcases le_total k n.snapshotIndex with hk | hk
  · simp [Nat.sub_eq_zero_of_le hk, lastConfiguration]
  · rw [min_eq_right hk, List.length_take, min_eq_left h.le]

theorem snapshotCommittedMembership_getD :
    n.snapshotCommittedMembership.getD n.config.staticMembership =
      membershipOf initial (g.take n.snapshotIndex) := by
  rw [Node.snapshotCommittedMembership]
  cases hs : n.persistent.snapshot with
  | none =>
    have : n.snapshotIndex = 0 := by simp [Node.snapshotIndex, hs]
    rw [this, h.static]
    rfl
  | some s =>
    rw [Node.snapshotIndex_eq hs]
    simp [RaftSnapshotMetadata.committedMembership, (h.snapshot s hs).1.configuration]

theorem membershipAtIndex_eq (hk : n.snapshotIndex ≤ k) :
    n.membershipAtIndex k = membershipOf initial (g.take k) := by
  rw [Node.membershipAtIndex, h.index, ConfigurationIndex.entryAtOrBefore_fromLog, if_pos hk,
    h.snapshotCommittedMembership_getD, membershipOf_eq, membershipOf_eq,
    h.lastConfiguration_take k, min_eq_right hk, Nat.add_sub_add_right]
  rcases lastConfiguration (n.persistent.log.take (k - n.snapshotIndex)) with _ | ⟨o, c⟩ <;> simp

theorem effectiveConfigurationEntry_eq :
    n.effectiveConfigurationEntry = (lastConfiguration n.persistent.log).map (·.2) := by
  rw [Node.effectiveConfigurationEntry, h.index, ConfigurationIndex.effectiveEntry_fromLog]

theorem lastConfiguration_eq : lastConfiguration g =
    ((lastConfiguration n.persistent.log).map fun x => (n.snapshotIndex + x.1, x.2)).or
      (lastConfiguration (g.take n.snapshotIndex)) := by
  have hall : n.persistent.log.take (g.length - n.snapshotIndex) = n.persistent.log :=
    List.take_of_length_le (by rw [h.log, List.length_drop])
  have := h.lastConfiguration_take g.length
  rwa [List.take_length, min_eq_right h.le, hall] at this

theorem effectiveMembership_eq : n.effectiveMembership = membershipOf initial g := by
  rw [Node.effectiveMembership, Node.effectiveBaseMembership, h.effectiveConfigurationEntry_eq,
    h.snapshotCommittedMembership_getD, membershipOf_eq, membershipOf_eq, h.lastConfiguration_eq]
  rcases lastConfiguration n.persistent.log with _ | ⟨o, c⟩ <;> simp

/-- The recorded and captured configurations at or below an index, with the retained one. -/
theorem committedConfigurationStateAt_eq (hk : n.snapshotIndex ≤ k) :
    n.committedConfigurationStateAt k = configurationStateOf (g.take k) := by
  have hret : n.configuration.committedStateAt (n.snapshotIndex + 1) n.persistent.log k =
      (lastConfiguration (n.persistent.log.take (k - n.snapshotIndex))).map fun x =>
        { index := n.snapshotIndex + 1 + x.1, configId := x.2.configId } := by
    rw [h.index, ConfigurationIndex.committedStateAt_fromLog, Nat.add_sub_add_right]
  have hsnap : ∀ x, n.snapshotCommittedConfigurationState = some x →
      configurationStateOf (g.take n.snapshotIndex) = some x := by
    intro x hx
    obtain ⟨s, hs, hx⟩ := Option.bind_eq_some_iff.1 hx
    rw [Node.snapshotIndex_eq hs, ← hx]
    simp [RaftSnapshotMetadata.committedConfigurationState, (h.snapshot s hs).1.configuration]
  have hstate : configurationStateOf (g.take k) =
      (n.configuration.committedStateAt (n.snapshotIndex + 1) n.persistent.log k).or
        (configurationStateOf (g.take n.snapshotIndex)) := by
    rw [hret, configurationStateOf, configurationStateOf, h.lastConfiguration_take k,
      min_eq_right hk]
    rcases lastConfiguration (n.persistent.log.take (k - n.snapshotIndex)) with _ | ⟨o, c⟩
    · simp
    · simp; omega
  unfold Node.committedConfigurationStateAt
  dsimp only
  generalize n.configuration.committedStateAt (n.snapshotIndex + 1) n.persistent.log k = retained
    at hret hstate
  -- every candidate stands in the log at or below `k`
  have hcand : ∀ x ∈ [retained, n.persistent.committedConfiguration,
      n.snapshotCommittedConfigurationState].filterMap
        (fun state => state.filter fun s => s.index ≤ k), x.index ≤ k ∧ ConfigurationAt g x := by
    intro x hx
    obtain ⟨state, hmem, hx⟩ := List.mem_filterMap.1 hx
    obtain ⟨rfl, hxk⟩ := Option.filter_eq_some_iff.1 hx
    refine ⟨by simpa using hxk, ?_⟩
    simp only [List.mem_cons, List.not_mem_nil, or_false] at hmem
    rcases hmem with hr | hc | hs
    · rw [← hr] at hstate
      exact (configurationStateOf_take_spec hstate).2
    · exact (h.committed x hc.symm).2
    · exact (configurationStateOf_take_spec (hsnap x hs.symm)).2
  cases hst : configurationStateOf (g.take k) with
  | none =>
    have hnil := List.eq_nil_iff_forall_not_mem.2 fun x hx => by
      obtain ⟨y, hy, -⟩ := index_le_of_configurationAt (hcand x hx).2 (hcand x hx).1
      rw [hst] at hy
      exact absurd hy (by simp)
    rw [hnil, List.foldl_nil]
  | some y =>
    refine foldl_latest (fun _ => rfl) (fun _ _ => rfl) (fun x hx => ?_) (.inl rfl) (.inl ?_)
    · obtain ⟨y', hy', hle, heq⟩ := index_le_of_configurationAt (hcand x hx).2 (hcand x hx).1
      obtain rfl := Option.some_inj.1 (hst.symm.trans hy')
      exact ⟨hle, heq⟩
    · -- the last configuration is the retained one or the one the snapshot captured
      have hyk := (configurationStateOf_take_spec hst).1
      rw [hst] at hstate
      rcases retained with _ | r
      · rw [Option.none_or] at hstate
        have hs : n.snapshotCommittedConfigurationState = some y := by
          cases hsn : n.persistent.snapshot with
          | none =>
            have : n.snapshotIndex = 0 := by simp [Node.snapshotIndex, hsn]
            simp [this, configurationStateOf, lastConfiguration] at hstate
          | some s =>
            rw [Node.snapshotIndex_eq hsn] at hstate
            simp [Node.snapshotCommittedConfigurationState, hsn, hstate,
              RaftSnapshotMetadata.committedConfigurationState,
              (h.snapshot s hsn).1.configuration]
        simp [hs, Option.filter, hyk]
      · obtain rfl : y = r := by simpa using hstate
        simp [Option.filter, hyk]

theorem nextConfigurationId_eq : n.nextConfigurationId
    = ((raftScheme initial).configOf g).1 + 1 := by
  rw [Node.nextConfigurationId, h.effectiveConfigurationEntry_eq, configOf_eq,
    h.lastConfiguration_eq]
  cases hl : lastConfiguration n.persistent.log with
  | some x => simp
  | none =>
    have hsc := h.snapshot_le.trans h.dispatched_le
    have hnil : lastConfiguration (n.persistent.log.take
      (n.commitIndex - n.snapshotIndex)) = none :=
      lastConfiguration_eq_none.2 fun e he =>
        lastConfiguration_eq_none.1 hl e (List.mem_of_mem_take he)
    rw [h.committedConfigurationStateAt_eq hsc, configurationStateOf,
      h.lastConfiguration_take, hnil, min_eq_right hsc]
    cases lastConfiguration (g.take n.snapshotIndex) <;> simp

/-- Nothing is reported uncommitted when no configuration stands above the commit index. -/
theorem not_configuration_of_uncommitted_nil (hnil : n.uncommittedConfigurationIndexes = []) :
    ∀ e ∈ g.drop n.commitIndex, e.configurationEntry = none := by
  intro e he
  obtain ⟨j, hj⟩ := List.getElem?_of_mem he
  rw [List.getElem?_drop] at hj
  by_contra hc
  have hsc := h.snapshot_le.trans h.dispatched_le
  have hmem : n.commitIndex + j - n.snapshotIndex ∈ n.configuration := by
    rw [h.index, ConfigurationIndex.mem_fromLog]
    refine ⟨e, ?_, by simpa [LogEntry.isConfiguration, Option.isSome_iff_ne_none] using hc⟩
    rw [h.log, List.getElem?_drop, Nat.add_sub_cancel' (by omega), hj]
  rw [Node.uncommittedConfigurationIndexes, ConfigurationIndex.indexesAfter,
    List.filter_eq_nil_iff] at hnil
  refine hnil _ (List.mem_map_of_mem hmem) ?_
  simp only [decide_eq_true_eq]
  omega

end Reading

/-! ## Mutations -/

section Mutations

variable (h : Represents initial n g)

include h

/-- Fields outside the retained log may change as long as the cursors stay ordered. -/
theorem of_eq
    (hcfg : n'.config.staticMembership = n.config.staticMembership)
    (hsn : n'.persistent.snapshot = n.persistent.snapshot)
    (hcc : n'.persistent.committedConfiguration = n.persistent.committedConfiguration)
    (hlog : n'.persistent.log = n.persistent.log) (hidx : n'.configuration = n.configuration)
    (ht : n.currentTerm ≤ n'.currentTerm) (hd : n.dispatchedIndex ≤ n'.dispatchedIndex)
    (hdc : n'.dispatchedIndex ≤ n'.commitIndex) (hc : n.commitIndex ≤ n'.commitIndex)
    (hle : n'.commitIndex ≤ g.length) : Represents initial n' g := by
  have hs : n'.snapshotIndex = n.snapshotIndex := by simp [Node.snapshotIndex, hsn]
  refine ⟨hcfg.trans h.static, by rw [hlog, hs, h.log], by rw [hidx, hlog, h.index], ?_, ?_,
    by rw [hs]; exact h.snapshot_le.trans hd, hdc, hle⟩
  · intro s hs'
    obtain ⟨hdesc, hterm, hlen⟩ := h.snapshot s (hsn ▸ hs')
    exact ⟨hdesc, hterm.trans ht, hlen⟩
  · intro x hx
    obtain ⟨hle', hat⟩ := h.committed x (hcc ▸ hx)
    exact ⟨hle'.trans hc, hat⟩

/-- The retained log may be replaced by that of a log that agrees up to the commit index. -/
theorem replace (g' : List LogEntry)
    (ht : g.take n.commitIndex = g'.take n.commitIndex) (hc : n.commitIndex ≤ g'.length) :
    Represents initial { n with
      configuration := ConfigurationIndex.fromLog (g'.drop n.snapshotIndex)
      persistent.log := g'.drop n.snapshotIndex } g' where
  static := h.static
  log := rfl
  index := rfl
  snapshot s hs := by
    obtain ⟨hdesc, hterm, hlen⟩ := h.snapshot s hs
    have hsc : s.metadata.lastIncludedIndex ≤ n.commitIndex := by
      rw [← Node.snapshotIndex_eq hs]
      exact h.snapshot_le.trans h.dispatched_le
    refine ⟨hdesc.of_take (hsc.trans hc) ?_, hterm, hlen⟩
    rw [← min_eq_left hsc, ← List.take_take, ht, List.take_take]
  committed x hx := by
    obtain ⟨hle, hat⟩ := h.committed x hx
    exact ⟨hle, hat.of_take ht hle⟩
  snapshot_le := h.snapshot_le
  dispatched_le := h.dispatched_le
  commit_le := hc

theorem append (e : LogEntry) :
    Represents initial (n.appendLogEntry e) (g ++ [e]) := by
  have hr := h.replace (g ++ [e]) (List.take_append_of_le_length h.commit_le).symm
    (h.commit_le.trans (by simp))
  have hlog : (g ++ [e]).drop n.snapshotIndex = n.persistent.log ++ [e] := by
    rw [List.drop_append_of_le_length h.le, h.log]
  rwa [hlog, ConfigurationIndex.fromLog_append_singleton, ← h.index] at hr

theorem truncateFrom (hk : n.commitIndex < k) (hkg : k ≤ g.length + 1)
    (reason : LocalProposalDropReason) :
    Represents initial (n.truncateFrom k reason).node (g.take (k - 1)) := by
  have hr := h.replace (g.take (k - 1))
    (by rw [List.take_take, min_eq_left (by omega)])
    (by rw [List.length_take, min_eq_left (by omega)]; omega)
  have hlen : (if k ≤ n.firstRetainedLogIndex then 0 else k - n.firstRetainedLogIndex) =
      k - 1 - n.snapshotIndex := by
    rw [Node.firstRetainedLogIndex]
    split_ifs <;> omega
  rw [List.drop_take, ← h.log, ← ConfigurationIndex.fromLog_take, ← h.index, ← hlen] at hr
  exact hr.of_eq rfl rfl rfl rfl rfl le_rfl le_rfl hr.dispatched_le le_rfl hr.commit_le

theorem logEntriesFrom_eq (hb : n.snapshotIndex ≤ b) :
    n.logEntriesFrom (b + 1) = g.drop b := by
  rw [Node.logEntriesFrom, h.lastLogIndex_eq]
  by_cases hlast : g.length < b + 1
  · rw [if_pos (.inr hlast), List.drop_of_length_le (by omega)]
  · rw [if_neg (by omega), h.log, List.drop_drop, Node.firstRetainedLogIndex]
    congr 1
    omega

/-- Installing a snapshot of a log `l` above the commit index: the suffix stays when the logs agree
at the boundary, and nothing stays otherwise. -/
theorem installSnapshotState {l : List LogEntry}
    (hdesc : SnapshotDescribes initial l snapshot.metadata)
    (hterm : snapshot.metadata.hardStateTerm ≤ n.currentTerm)
    (hlen : snapshot.applicationPayloadLen ≤ u64Max)
    (hb : n.commitIndex < snapshot.metadata.lastIncludedIndex)
    (hmatch : termOf g snapshot.metadata.lastIncludedIndex =
      some snapshot.metadata.lastIncludedTerm → g.take snapshot.metadata.lastIncludedIndex =
        l.take snapshot.metadata.lastIncludedIndex) :
    Represents initial (n.installSnapshotState snapshot).node
      (if termOf g snapshot.metadata.lastIncludedIndex = some snapshot.metadata.lastIncludedTerm
        then g else l.take snapshot.metadata.lastIncludedIndex) := by
  set b := snapshot.metadata.lastIncludedIndex with hbdef
  set g' := if termOf g b = some snapshot.metadata.lastIncludedTerm then g else l.take b with hg'
  have hsb : n.snapshotIndex ≤ b := (h.snapshot_le.trans h.dispatched_le).trans hb.le
  have htake : g'.take b = l.take b := by
    rw [hg']
    split_ifs with hm
    · exact hmatch hm
    · rw [List.take_take, min_self]
  have hble : b ≤ g'.length := by
    rw [hg']
    split_ifs with hm
    · exact le_of_termOf_eq_some hm
    · rw [List.length_take, min_eq_left hdesc.le]
  have hsuffix : (if n.termAt b = some snapshot.metadata.lastIncludedTerm then
      n.logEntriesFrom (b + 1) else []) = g'.drop b := by
    rw [h.termAt_eq hsb, hg']
    split_ifs with hm
    · exact h.logEntriesFrom_eq hsb
    · rw [List.drop_of_length_le (by simp)]
  have hdesc' : SnapshotDescribes initial g' snapshot.metadata := hdesc.of_take hble htake.symm
  have hcommit : max n.commitIndex b = b := max_eq_right hb.le
  have hdispatched : max n.dispatchedIndex b = b := max_eq_right (h.dispatched_le.trans hb.le)
  refine ⟨h.static, hsuffix, rfl, ?_, ?_, hdispatched.ge, ?_, ?_⟩
  · rintro s ⟨⟩
    exact ⟨hdesc', hterm, hlen⟩
  · intro x hx
    have hx' : configurationStateOf (g'.take b) = some x := by
      rw [← hx]
      show _ = snapshot.metadata.committedConfigurationState
      simp [RaftSnapshotMetadata.committedConfigurationState, hdesc'.configuration, ← hbdef]
    obtain ⟨hle, hat⟩ := configurationStateOf_take_spec hx'
    exact ⟨hle.trans hcommit.ge, hat⟩
  · exact (hdispatched.trans hcommit.symm).le
  · exact hcommit.le.trans hble

/-- A truthful descriptor that a node accepts describes the node's log. -/
theorem describes_of_accepts
    (hsome : snapshot.metadata.committedConfiguration.isSome)
    (haccepts : n.AcceptsLocalSnapshot snapshot) : SnapshotDescribes initial g
    snapshot.metadata := by
  obtain ⟨declared, hdecl⟩ := Option.isSome_iff_exists.1 hsome
  obtain ⟨hmembership, hstate⟩ := haccepts.declared declared hdecl
  have hs := haccepts.installed
  have hwriter := haccepts.writer
  rw [h.membershipAtIndex_eq hs] at hmembership hwriter
  rw [h.committedConfigurationStateAt_eq hs] at hstate
  refine ⟨haccepts.committed.trans h.commit_le, (h.termAt_eq hs).symm.trans haccepts.term, ?_,
    hwriter⟩
  rw [hdecl, ← hmembership, ← hstate]

/-- A truthful local snapshot compacts the log it describes. -/
theorem installLocalSnapshot {o : Outcome} (hsome : snapshot.metadata.committedConfiguration.isSome)
    (hterm : snapshot.metadata.hardStateTerm ≤ n.currentTerm)
    (hlen : snapshot.applicationPayloadLen ≤ u64Max)
    (hok : n.installLocalSnapshot snapshot = .ok o) :
    Represents initial o.node g := by
  obtain ⟨haccepts, rfl⟩ := Node.installLocalSnapshot_ok hok
  have hdesc := h.describes_of_accepts hsome haccepts
  have hs := haccepts.installed
  have hd := haccepts.applied
  rw [h.committedConfigurationStateAt_eq hs]
  set b := snapshot.metadata.lastIncludedIndex
  have hlog : n.persistent.log.drop (b - n.snapshotIndex) = g.drop b := by
    rw [h.log, List.drop_drop, Nat.add_sub_cancel' hs]
  refine ⟨h.static, hlog, ?_, ?_, ?_, hd, h.dispatched_le, h.commit_le⟩
  · show n.configuration.compactPrefix (b - n.snapshotIndex) = _
    rw [h.index, ConfigurationIndex.fromLog_drop]
    rfl
  · rintro s ⟨⟩
    exact ⟨hdesc, hterm, hlen⟩
  · intro x hx
    obtain ⟨hle, hat⟩ := configurationStateOf_take_spec hx
    exact ⟨hle.trans (hd.trans h.dispatched_le), hat⟩

omit h

end Mutations

end Represents

/-! ## Restarts -/

namespace Bootstrap

theorem recoverConfiguration_mem {r : Option CommittedConfiguration}
    {snapshot : Option RaftSnapshotMetadata} {log : List LogEntry}
    (hok : recoverConfiguration stored snapshot log c = .ok r) (hr : r = some x) :
    stored = some x ∨ snapshot.bind (·.committedConfigurationState) = some x ∨
      retainedConfiguration ((snapshot.map (·.lastIncludedIndex)).getD 0) c log = some x := by
  unfold recoverConfiguration at hok
  dsimp only at hok
  -- whichever states are validated, the result is the same fold
  obtain ⟨f, hf, hfold⟩ : ∃ f : Option CommittedConfiguration → CommittedConfiguration →
      Option CommittedConfiguration, (∀ b x, f b x = some x ∨ f b x = b) ∧
      ([stored, snapshot.bind (·.committedConfigurationState),
        retainedConfiguration ((snapshot.map (·.lastIncludedIndex)).getD 0) c log].filterMap
          (fun state => state)).foldl f none = r := by
    split at hok <;> obtain ⟨-, -, hok⟩ := bind_ok hok <;> split at hok <;>
      obtain ⟨-, -, hok⟩ := bind_ok hok <;> refine ⟨_, fun b x => ?_, Except.ok.inj hok⟩ <;>
      cases b with
      | none => exact .inl rfl
      | some b => dsimp only; split_ifs <;> simp
  rw [← hfold] at hr
  have hmem := foldl_mem hf hr
  simpa [eq_comm] using hmem

theorem retainedConfiguration_spec {s : ℕ} (h : retainedConfiguration s c (g.drop s) = some x) :
    x.index ≤ c ∧ ConfigurationAt g x := by
  obtain ⟨⟨e, i⟩, hmem, hx⟩ := List.exists_of_findSome?_eq_some h
  obtain ⟨hic, hx⟩ := Option.ite_none_right_eq_some.1 hx
  obtain ⟨cfg, hcfg, rfl⟩ := Option.map_eq_some_iff.1 hx
  obtain ⟨hle, -, he⟩ := List.mk_mem_zipIdx_iff_le_and_getElem?_sub.1 (List.mem_reverse.1 hmem)
    |> fun h => (⟨h.1, trivial, h.2⟩ : _ ∧ True ∧ _)
  rw [List.getElem?_drop] at he
  exact ⟨hic, by simp only; omega, e, cfg, by rw [← he]; congr 1; simp only; omega, hcfg, rfl⟩

end Bootstrap

/-- What a restart keeps and what it resets. -/
structure RestartedFrom (n n' : Node) (c : ℕ) : Prop where
  config : n'.config = n.config
  term : n'.persistent.currentTerm = n.persistent.currentTerm
  votedFor : n'.persistent.votedFor = n.persistent.votedFor
  snapshot : n'.persistent.snapshot = n.persistent.snapshot
  log : n'.persistent.log = n.persistent.log
  index : n'.configuration = ConfigurationIndex.fromLog n'.persistent.log
  commit : n'.commitIndex = c
  dispatched : n'.dispatchedIndex = n.snapshotIndex
  role : n'.role = .follower
  election : n'.election = {}
  leader : n'.leader = {}
  leaderHint : n'.volatile.leaderHint = none

theorem fromBootstrap_ok {n : Node} (hc : n.snapshotIndex ≤ c)
    (hok : Node.fromBootstrap n.config (n.bootstrapState c stored) = .ok n') :
    RestartedFrom n n' c ∧ Bootstrap.recoverConfiguration stored
      (n.persistent.snapshot.map (·.metadata)) n.persistent.log c =
        .ok n'.persistent.committedConfiguration := by
  have hs' : (n.persistent.snapshot.map (·.metadata.lastIncludedIndex)).getD 0 =
      n.snapshotIndex := by
    cases hsn : n.persistent.snapshot <;> simp [Node.snapshotIndex, hsn]
  obtain ⟨log, cc, -, -, hlog, hcc, rfl⟩ := Node.fromBootstrap_eq_ok.1 hok
  obtain ⟨-, -, rfl⟩ := Node.validateLog_image.1 hlog
  have hcommit : max c ((n.persistent.snapshot.map (·.metadata.lastIncludedIndex)).getD 0) = c := by
    rw [hs']
    exact max_eq_left hc
  refine ⟨⟨rfl, rfl, rfl, rfl, rfl, rfl, hcommit, hs', rfl, rfl, rfl, rfl⟩, ?_⟩
  rw [← hcc]
  exact congrArg _ hcommit.symm

namespace Represents

variable {initial : MembershipConfig} {n : Node}

theorem fromBootstrap (h : Represents initial n g) (hs : n.snapshotIndex ≤ c)
    (hc : c ≤ n.commitIndex) (hstored : stored = none ∨ stored = n.committedConfigurationStateAt c)
    (hok : Node.fromBootstrap n.config (n.bootstrapState c stored) = .ok n') :
    Represents initial n' g := by
  obtain ⟨hr, hcc⟩ := fromBootstrap_ok hs hok
  have hidx : n'.snapshotIndex = n.snapshotIndex := by simp [Node.snapshotIndex, hr.snapshot]
  have hcap : (n.persistent.snapshot.map (·.metadata)).bind (·.committedConfigurationState) =
      n.snapshotCommittedConfigurationState := by
    cases hsn : n.persistent.snapshot <;> simp [Node.snapshotCommittedConfigurationState, hsn]
  have hsi : ((n.persistent.snapshot.map (·.metadata)).map (·.lastIncludedIndex)).getD 0 =
      n.snapshotIndex := by
    cases hsn : n.persistent.snapshot <;> simp [Node.snapshotIndex, hsn]
  refine ⟨by rw [hr.config, h.static], by rw [hr.log, hidx, h.log], hr.index, ?_, ?_,
    by rw [hidx, hr.dispatched], by rw [hr.dispatched, hr.commit]; exact hs,
    by rw [hr.commit]; exact hc.trans h.commit_le⟩
  · intro s hsn
    rw [Node.currentTerm, hr.term]
    exact h.snapshot s (hr.snapshot ▸ hsn)
  · intro x hx
    rw [hr.commit]
    rcases Bootstrap.recoverConfiguration_mem hcc hx with hst | hsn | hret
    · rcases hstored with rfl | rfl
      · simp at hst
      · rw [h.committedConfigurationStateAt_eq hs] at hst
        exact configurationStateOf_take_spec hst
    · rw [hcap] at hsn
      obtain ⟨s, hs', hx'⟩ := Option.bind_eq_some_iff.1 hsn
      have hst : configurationStateOf (g.take s.metadata.lastIncludedIndex) = some x := by
        rw [← hx']
        simp [RaftSnapshotMetadata.committedConfigurationState, (h.snapshot s hs').1.configuration]
      obtain ⟨hle, hat⟩ := configurationStateOf_take_spec hst
      exact ⟨hle.trans ((Node.snapshotIndex_eq hs').ge.trans hs), hat⟩
    · rw [hsi, h.log] at hret
      exact Bootstrap.retainedConfiguration_spec hret

end Represents

end Rafter
