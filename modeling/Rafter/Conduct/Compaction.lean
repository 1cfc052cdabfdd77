import Rafter.Conduct.Configurations

/-!
# Local compaction

A local snapshot moves the boundary up and retires the log below it. The views of the log and of the
configurations are read through the boundary: above it from retained entries, at it from the
snapshot's descriptor, and from the static configuration where the descriptor captures none.

Results:

* `Node.local_snapshot_unchanged_iff`: when a local snapshot changes nothing that the node means.
-/

namespace Rafter

namespace Node

variable {n n' : Node} {k : ℕ} {x y : CommittedConfiguration}

/-- The last configuration of the retained log at or below `k`. -/
def retainedStateAt (n : Node) (k : ℕ) : Option CommittedConfiguration :=
  n.configuration.committedStateAt (n.snapshotIndex + 1) n.persistent.log k

/-- The states that `committedConfigurationStateAt` chooses from. -/
def recordedAt (n : Node) (k : ℕ) : List CommittedConfiguration :=
  [n.retainedStateAt k, n.persistent.committedConfiguration,
    n.snapshotCommittedConfigurationState].filterMap fun state => state.filter fun s => s.index ≤ k

theorem mem_recordedAt : x ∈ n.recordedAt k ↔ x.index ≤ k ∧ (n.retainedStateAt k = some x ∨
    n.persistent.committedConfiguration = some x ∨
      n.snapshotCommittedConfigurationState = some x) := by
  simp only [recordedAt, List.mem_filterMap, List.mem_cons, List.not_mem_nil, or_false,
    Option.filter_eq_some_iff, decide_eq_true_eq]
  constructor
  · rintro ⟨state, hmem, rfl, hk⟩
    exact ⟨hk, by simpa [eq_comm] using hmem⟩
  · rintro ⟨hk, hmem⟩
    exact ⟨some x, by simpa [eq_comm] using hmem, rfl, hk⟩

theorem committedConfigurationStateAt_spec (h : n.committedConfigurationStateAt k = some y) :
    y ∈ n.recordedAt k ∧ ∀ x ∈ n.recordedAt k, x.index ≤ y.index := by
  refine ⟨?_, (index_le_of_foldl (fun _ => rfl) (fun _ _ => rfl) h).1⟩
  refine (foldl_mem (fun b x => ?_) h).resolve_right (by simp)
  rcases b with _ | b
  · exact .inl rfl
  · dsimp only
    split_ifs
    · exact .inl rfl
    · exact .inr rfl

theorem committedConfigurationStateAt_of_latest (hy : y ∈ n.recordedAt k)
    (hlatest : ∀ x ∈ n.recordedAt k, x.index ≤ y.index ∧ (x.index = y.index → x = y)) :
    n.committedConfigurationStateAt k = some y :=
  foldl_latest (fun _ => rfl) (fun _ _ => rfl) hlatest (.inl rfl) (.inl hy)

theorem exists_committedConfigurationStateAt (hx : x ∈ n.recordedAt k) :
    ∃ y, n.committedConfigurationStateAt k = some y ∧ x.index ≤ y.index := by
  have hsome : (n.committedConfigurationStateAt k).isSome := by
    refine isSome_foldl (fun b x => ?_) (.inl (List.ne_nil_of_mem hx))
    rcases b with _ | b
    · rfl
    · dsimp only
      split_ifs <;> rfl
  obtain ⟨y, hy⟩ := Option.isSome_iff_exists.1 hsome
  exact ⟨y, hy, (committedConfigurationStateAt_spec hy).2 x hx⟩

theorem index_le_of_committedConfigurationStateAt (h : n.committedConfigurationStateAt k = some y) :
    y.index ≤ k := (mem_recordedAt.1 (committedConfigurationStateAt_spec h).1).1

theorem committedConfigurationStateAt_congr {k' : ℕ} (h : n.recordedAt k = n'.recordedAt k') :
    n.committedConfigurationStateAt k = n'.committedConfigurationStateAt k' := by
  show (n.recordedAt k).foldl _ none = (n'.recordedAt k').foldl _ none
  rw [h]

/-! ## Configurations of the retained log -/

/-- The configuration `x` stands in the retained log. -/
def Stands (n : Node) (x : CommittedConfiguration) : Prop :=
  ∃ e c, n.entryAt x.index = some e ∧ e.configurationEntry = some c ∧ c.configId = x.configId

theorem Stands.lt (h : n.Stands x) : n.snapshotIndex < x.index := by
  obtain ⟨e, c, he, -⟩ := h
  exact (isSome_entryAt.1 (by rw [he]; rfl)).1

theorem stands_iff (hx : n.snapshotIndex < x.index) :
    n.Stands x ↔ ConfigurationAt n.persistent.log ⟨x.index - n.snapshotIndex, x.configId⟩ := by
  have hentry : n.entryAt x.index = n.persistent.log[x.index - n.snapshotIndex - 1]? := by
    rw [entryAt, if_neg (by omega), firstRetainedLogIndex, Nat.sub_sub]
  unfold Stands ConfigurationAt
  rw [hentry]
  exact ⟨fun h => ⟨by dsimp only; omega, h⟩, fun h => h.2⟩

theorem Sound.retainedStateAt_eq (hn : n.Sound) : n.retainedStateAt k =
    (configurationStateOf (n.persistent.log.take (k - n.snapshotIndex))).map fun x =>
      ⟨n.snapshotIndex + x.index, x.configId⟩ := by
  rw [retainedStateAt, hn.index, ConfigurationIndex.committedStateAt_fromLog,
    Nat.add_sub_add_right, configurationStateOf, Option.map_map]
  congr 1
  funext p
  simp only [Function.comp_apply, CommittedConfiguration.mk.injEq, and_true]
  omega

theorem Sound.stands_of_retained (hn : n.Sound) (h : n.retainedStateAt k = some x) :
    x.index ≤ k ∧ n.Stands x := by
  rw [hn.retainedStateAt_eq] at h
  obtain ⟨r, hr, rfl⟩ := Option.map_eq_some_iff.1 h
  obtain ⟨hle, hat⟩ := configurationStateOf_take_spec hr
  have hpos := hat.1
  refine ⟨by dsimp only; omega, (stands_iff (by dsimp only; omega)).2 ?_⟩
  simpa using hat

theorem Sound.le_retained (hn : n.Sound) (h : n.Stands x) (hk : x.index ≤ k) :
    ∃ r, n.retainedStateAt k = some r ∧ x.index ≤ r.index ∧ (x.index = r.index → x = r) := by
  have hlt := h.lt
  obtain ⟨r, hr, hle, heq⟩ := index_le_of_configurationAt ((stands_iff hlt).1 h)
    (k := k - n.snapshotIndex) (by dsimp only; omega)
  refine ⟨_, by rw [hn.retainedStateAt_eq, hr, Option.map_some], by dsimp only at hle ⊢; omega,
    fun hindex => ?_⟩
  have hr' := heq (by dsimp only at hindex ⊢; omega)
  rw [← hr']
  obtain ⟨i, id⟩ := x
  simp only [CommittedConfiguration.mk.injEq, and_true] at hlt ⊢
  omega

/-! ## Views after a local snapshot -/

section Compacted

variable {snapshot : RaftSnapshot} {o : Outcome} (hn : n.Sound) (hc : n.Compacted snapshot o)
include hn hc

omit hn in
/-- The base that the descriptor gives to the memberships above it. -/
theorem Compacted.effectiveBaseMembership_eq : o.node.effectiveBaseMembership =
    snapshot.metadata.committedMembership.getD n.config.staticMembership := by
  rw [effectiveBaseMembership, snapshotCommittedMembership, hc.snapshot_eq, hc.config]
  rfl

theorem Sound.membershipAtIndex_boundary :
    o.node.membershipAtIndex snapshot.metadata.lastIncludedIndex =
      snapshot.metadata.committedMembership.getD n.config.staticMembership := by
  rw [(hn.compacted hc).membershipAtIndex_eq hc.snapshotIndex_eq.le, hc.snapshotIndex_eq,
    Nat.sub_self, List.take_zero, ← hc.effectiveBaseMembership_eq]
  rfl

/-- Above the boundary the retained configurations stay; those at or below it are retired. -/
theorem Sound.retainedStateAt_compacted (hk : snapshot.metadata.lastIncludedIndex ≤ k) :
    n.retainedStateAt k = (o.node.retainedStateAt k).or
      (n.retainedStateAt snapshot.metadata.lastIncludedIndex) := by
  have hs := hc.accepts.installed
  have hlast := hc.accepts.committed.trans hn.commit_le
  unfold lastLogIndex at hlast
  have hlength : (n.persistent.log.take
      (snapshot.metadata.lastIncludedIndex - n.snapshotIndex)).length =
      snapshot.metadata.lastIncludedIndex - n.snapshotIndex := by
    rw [List.length_take]
    omega
  rw [hn.retainedStateAt_eq, hn.retainedStateAt_eq, (hn.compacted hc).retainedStateAt_eq,
    hc.take_eq hk, hc.snapshotIndex_eq, configurationStateOf, lastConfiguration_append, hlength,
    configurationStateOf, configurationStateOf]
  rcases lastConfiguration (o.node.persistent.log.take _) with _ | ⟨offset, c⟩
  · simp
  · simp
    omega

omit hn in
/-- After a local snapshot the configuration at the boundary is recorded besides the retained
one. -/
theorem Compacted.mem_recordedAt_iff : x ∈ o.node.recordedAt k ↔ x.index ≤ k ∧
    (o.node.retainedStateAt k = some x ∨
      n.committedConfigurationStateAt snapshot.metadata.lastIncludedIndex = some x) := by
  rw [mem_recordedAt, hc.committedConfiguration]
  refine and_congr_right fun _ => or_congr_right (or_iff_left_of_imp fun hx => ?_)
  rw [snapshotCommittedConfigurationState, hc.snapshot_eq, Option.bind_some] at hx
  obtain ⟨declared, hd, hx⟩ := Option.bind_eq_some_iff.1 hx
  rw [← (hc.accepts.declared declared hd).2, hx]

/-- Nothing is retained above the boundary: the configuration at the boundary is reported. -/
theorem Sound.committedConfigurationStateAt_of_none
    (hk : snapshot.metadata.lastIncludedIndex ≤ k) (hnone : o.node.retainedStateAt k = none) :
    o.node.committedConfigurationStateAt k =
        n.committedConfigurationStateAt snapshot.metadata.lastIncludedIndex ∧
      ((∀ x, n.committedConfigurationStateAt k = some x →
          snapshot.metadata.lastIncludedIndex < x.index → n.Stands x) →
        n.committedConfigurationStateAt k =
          n.committedConfigurationStateAt snapshot.metadata.lastIncludedIndex) := by
  constructor
  · have hmem : ∀ x, x ∈ o.node.recordedAt k ↔
        n.committedConfigurationStateAt snapshot.metadata.lastIncludedIndex = some x := by
      intro x
      rw [hc.mem_recordedAt_iff, hnone]
      simp only [reduceCtorEq, false_or, and_iff_right_iff_imp]
      exact fun hx => (index_le_of_committedConfigurationStateAt hx).trans hk
    cases hb : n.committedConfigurationStateAt snapshot.metadata.lastIncludedIndex with
    | none =>
      have hnil : o.node.recordedAt k = [] :=
        List.eq_nil_iff_forall_not_mem.2 fun x hx => by simp [hb, hmem] at hx
      show (o.node.recordedAt k).foldl _ none = none
      rw [hnil, List.foldl_nil]
    | some y =>
      refine committedConfigurationStateAt_of_latest ((hmem y).2 hb) fun x hx => ?_
      obtain rfl := Option.some_inj.1 (((hmem x).1 hx).symm.trans hb)
      exact ⟨le_rfl, fun _ => rfl⟩
  · intro hstands
    have hretained : n.retainedStateAt k =
        n.retainedStateAt snapshot.metadata.lastIncludedIndex := by
      rw [hn.retainedStateAt_compacted hc hk, hnone, Option.none_or]
    -- a later configuration would stand in the log above the boundary
    have hle : ∀ x ∈ n.recordedAt k, x.index ≤ snapshot.metadata.lastIncludedIndex := by
      intro x hx
      obtain ⟨y, hy, hxy⟩ := exists_committedConfigurationStateAt hx
      by_contra hgt
      have hyk := index_le_of_committedConfigurationStateAt hy
      obtain ⟨r, hr, hyr, -⟩ := hn.le_retained (hstands y hy (by omega)) hyk
      rw [hretained] at hr
      have := (hn.stands_of_retained hr).1
      omega
    refine committedConfigurationStateAt_congr ?_
    rw [recordedAt, recordedAt, hretained]
    refine List.filterMap_congr fun state hstate => ?_
    rcases state with _ | x
    · rfl
    have hiff : x.index ≤ k ↔ x.index ≤ snapshot.metadata.lastIncludedIndex := by
      refine ⟨fun hxk => hle x (mem_recordedAt.2 ⟨hxk, ?_⟩), fun hxb => hxb.trans hk⟩
      rw [hretained]
      simpa [eq_comm] using hstate
    simp [Option.filter, hiff]

/-- The last retained configuration, if above the boundary, is reported after the snapshot. -/
theorem Sound.committedConfigurationStateAt_of_some (hk : snapshot.metadata.lastIncludedIndex ≤ k)
    {r : CommittedConfiguration} (hr : o.node.retainedStateAt k = some r) :
    o.node.committedConfigurationStateAt k = some r ∧ n.Stands r ∧
      ((∀ x, n.committedConfigurationStateAt k = some x →
          snapshot.metadata.lastIncludedIndex < x.index → n.Stands x) →
        n.committedConfigurationStateAt k = some r) := by
  obtain ⟨hrk, hstands⟩ := (hn.compacted hc).stands_of_retained hr
  have habove := hstands.lt
  rw [hc.snapshotIndex_eq] at habove
  have hretained : n.retainedStateAt k = some r := by
    rw [hn.retainedStateAt_compacted hc hk, hr, Option.some_or]
  refine ⟨?_, (hn.stands_of_retained hretained).2, fun hall => ?_⟩
  · refine committedConfigurationStateAt_of_latest
      (hc.mem_recordedAt_iff.2 ⟨hrk, .inl hr⟩) fun x hx => ?_
    rcases (hc.mem_recordedAt_iff.1 hx).2 with hx | hx
    · obtain rfl := Option.some_inj.1 (hx.symm.trans hr)
      exact ⟨le_rfl, fun _ => rfl⟩
    · have := index_le_of_committedConfigurationStateAt hx
      exact ⟨by omega, fun heq => by omega⟩
  · obtain ⟨y, hy, hry⟩ :=
      exists_committedConfigurationStateAt (mem_recordedAt.2 ⟨hrk, .inl hretained⟩)
    obtain ⟨r', hr', hyr, heq⟩ := hn.le_retained (hall y hy (by omega))
      (index_le_of_committedConfigurationStateAt hy)
    obtain rfl := Option.some_inj.1 (hr'.symm.trans hretained)
    rw [hy, heq (le_antisymm hyr hry)]

/-- A local snapshot keeps the committed configuration exactly if the one that is reported before,
when it is above the boundary, stands in the log. -/
theorem Sound.committedConfigurationState_compacted :
    o.node.committedConfigurationState = n.committedConfigurationState ↔
      ∀ x, n.committedConfigurationState = some x →
        snapshot.metadata.lastIncludedIndex < x.index → n.Stands x := by
  have hk := hc.accepts.committed
  unfold committedConfigurationState
  rw [hc.commit]
  cases hr : o.node.retainedStateAt n.commitIndex with
  | none =>
    obtain ⟨hafter, hbefore⟩ := hn.committedConfigurationStateAt_of_none hc hk hr
    rw [hafter]
    refine ⟨fun heq x hx hgt => ?_, fun hall => (hbefore hall).symm⟩
    rw [← heq] at hx
    have := index_le_of_committedConfigurationStateAt hx
    omega
  | some r =>
    obtain ⟨hafter, hstands, hbefore⟩ := hn.committedConfigurationStateAt_of_some hc hk hr
    rw [hafter]
    refine ⟨fun heq x hx _ => ?_, fun hall => (hbefore hall).symm⟩
    obtain rfl := Option.some_inj.1 (heq.trans hx)
    exact hstands

end Compacted

/-! ## What a local snapshot leaves unchanged -/

theorem Sound.effectiveMembership_eq (hn : n.Sound) :
    n.effectiveMembership = n.membershipAtIndex n.lastLogIndex := by
  have hall : n.persistent.log.take (n.lastLogIndex - n.snapshotIndex) = n.persistent.log := by
    rw [lastLogIndex, Nat.add_sub_cancel_left, List.take_length]
  have hle : n.snapshotIndex ≤ n.lastLogIndex := Nat.le_add_right _ _
  rw [hn.membershipAtIndex_eq hle, hall, effectiveMembership,
    effectiveConfigurationEntry, hn.index, ConfigurationIndex.effectiveEntry_fromLog]
  cases lastConfiguration n.persistent.log <;> rfl

theorem Sound.committedMembership_eq (hn : n.Sound) :
    n.committedMembership = n.membershipAtIndex n.commitIndex := by
  rw [hn.membershipAtIndex_eq (hn.snapshot_le.trans hn.dispatched_le), committedMembership,
    committedConfigurationEntry, hn.index, ConfigurationIndex.committedEntry_fromLog,
    Nat.add_sub_add_right, effectiveBaseMembership]
  cases lastConfiguration (n.persistent.log.take _) <;> rfl

variable {snapshot : RaftSnapshot} {o : Outcome}

theorem Compacted.termAt_boundary (hc : n.Compacted snapshot o) :
    o.node.termAt snapshot.metadata.lastIncludedIndex =
      n.termAt snapshot.metadata.lastIncludedIndex := by
  rw [termAt, hc.snapshotIndex_eq, hc.snapshot_eq, if_pos rfl]
  split_ifs with hzero
  · have hs := hc.accepts.installed
    rw [termAt, if_pos ⟨hzero.1, by omega⟩]
  · exact hc.accepts.term.symm

/-- The node means the same above the boundary `b`. -/
structure SameFrom (b : ℕ) (n n' : Node) : Prop where
  effectiveMembership : n'.effectiveMembership = n.effectiveMembership
  committedMembership : n'.committedMembership = n.committedMembership
  committedConfigurationState : n'.committedConfigurationState = n.committedConfigurationState
  membershipAtIndex : ∀ i, b ≤ i → n'.membershipAtIndex i = n.membershipAtIndex i
  termAt : ∀ i, b ≤ i → n'.termAt i = n.termAt i
  entryAt : ∀ i, b < i → n'.entryAt i = n.entryAt i
  commitIndex : n'.commitIndex = n.commitIndex
  dispatchedIndex : n'.dispatchedIndex = n.dispatchedIndex
  lastLogIndex : n'.lastLogIndex = n.lastLogIndex
  role : n'.role = n.role
  currentTerm : n'.currentTerm = n.currentTerm
  votedFor : n'.persistent.votedFor = n.persistent.votedFor

theorem Sound.sameFrom_iff (hn : n.Sound) (hc : n.Compacted snapshot o) :
    SameFrom snapshot.metadata.lastIncludedIndex n o.node ↔
      (snapshot.metadata.committedConfiguration.isSome ∨
        n.membershipAtIndex snapshot.metadata.lastIncludedIndex = n.config.staticMembership) ∧
      ∀ x, n.committedConfigurationState = some x →
        snapshot.metadata.lastIncludedIndex < x.index → n.Stands x := by
  rw [← hn.committedConfigurationState_compacted hc]
  constructor
  · intro h
    refine ⟨?_, h.committedConfigurationState⟩
    have hboundary := h.membershipAtIndex _ le_rfl
    rw [hn.membershipAtIndex_boundary hc, RaftSnapshotMetadata.committedMembership] at hboundary
    cases hd : snapshot.metadata.committedConfiguration with
    | none =>
      rw [hd] at hboundary
      exact .inr hboundary.symm
    | some declared => exact .inl rfl
  · rintro ⟨hdeclared, hstate⟩
    have hbase : o.node.effectiveBaseMembership =
        n.membershipAtIndex snapshot.metadata.lastIncludedIndex := by
      rw [hc.effectiveBaseMembership_eq, RaftSnapshotMetadata.committedMembership]
      cases hd : snapshot.metadata.committedConfiguration with
      | none =>
        rw [hd] at hdeclared
        exact (hdeclared.resolve_left (by simp)).symm
      | some declared => exact (hc.accepts.declared declared hd).1
    have hmembership : ∀ i, snapshot.metadata.lastIncludedIndex ≤ i →
        o.node.membershipAtIndex i = n.membershipAtIndex i :=
      fun i hi => hn.membershipAtIndex_of_base hc hbase hi
    have hle := hc.accepts.committed.trans hn.commit_le
    have hlast : o.node.lastLogIndex = n.lastLogIndex := by
      have hs := hc.accepts.installed
      unfold lastLogIndex at hle ⊢
      rw [hc.snapshotIndex_eq, hc.log, List.length_drop]
      omega
    have hentry : ∀ i, snapshot.metadata.lastIncludedIndex < i →
        o.node.entryAt i = n.entryAt i := fun i hi => by
      rw [hc.entryAt_eq, if_neg (not_le.2 hi)]
    refine ⟨?_, ?_, hstate, hmembership, fun i hi => ?_, hentry, hc.commit, hc.dispatched, hlast,
      hc.role, hc.term, hc.vote⟩
    · rw [(hn.compacted hc).effectiveMembership_eq, hn.effectiveMembership_eq, hlast,
        hmembership _ hle]
    · rw [(hn.compacted hc).committedMembership_eq, hn.committedMembership_eq, hc.commit,
        hmembership _ hc.accepts.committed]
    · rcases hi.eq_or_lt with rfl | hlt
      · exact hc.termAt_boundary
      · rw [termAt_of_lt (by rw [hc.snapshotIndex_eq]; exact hlt),
          termAt_of_lt (hc.accepts.installed.trans_lt hlt), hentry i hlt]

/-- A local snapshot that any run of calls leads to changes nothing the node means exactly if its
descriptor captures the configuration at the boundary, or that is the static one; and if the
committed configuration that the node reports, when above the boundary, stands in its log. -/
theorem local_snapshot_unchanged_iff (h : n.Constructed) (cs : List Call)
    {snapshot : RaftSnapshot} {o : Outcome}
    (hok : (n.calls cs).node.installLocalSnapshot snapshot = .ok o) :
    SameFrom snapshot.metadata.lastIncludedIndex (n.calls cs).node o.node ↔
      (snapshot.metadata.committedConfiguration.isSome ∨
        (n.calls cs).node.membershipAtIndex snapshot.metadata.lastIncludedIndex =
          (n.calls cs).node.config.staticMembership) ∧
      ∀ x, (n.calls cs).node.committedConfigurationState = some x →
        snapshot.metadata.lastIncludedIndex < x.index → (n.calls cs).node.Stands x :=
  ((n.calls_conducts cs).sound h.sound).sameFrom_iff (compacted_of_ok hok)

/-- The sole voter takes in learner 2. -/
def takeInLearner : List Call := [.step .tick, .step (.addLearner 2)]

theorem local_snapshot_unchanged_iff_declared :
    ∃ o, ((Node.new soleVoter).calls takeInLearner).node.installLocalSnapshot learnerSnapshot =
        .ok o ∧ o.node.snapshotIndex = 2 ∧
      SameFrom 2 ((Node.new soleVoter).calls takeInLearner).node o.node := by
  have hok : (((Node.new soleVoter).calls takeInLearner).node.installLocalSnapshot
      learnerSnapshot).toOption.map (·.node.snapshotIndex) = some 2 := by decide +kernel
  have hstate : ((Node.new soleVoter).calls takeInLearner).node.committedConfigurationState =
      some ⟨2, 1⟩ := by decide +kernel
  cases ho : ((Node.new soleVoter).calls takeInLearner).node.installLocalSnapshot
      learnerSnapshot with
  | error e => rw [ho] at hok; simp [Except.toOption] at hok
  | ok o =>
    rw [ho] at hok
    refine ⟨o, rfl, Option.some_inj.1 hok, (local_snapshot_unchanged_iff (.new soleVoter)
      takeInLearner ho).2 ⟨.inl rfl, fun x hx hlt => ?_⟩⟩
    rw [hstate] at hx
    obtain rfl := Option.some_inj.1 hx
    exact absurd hlt (lt_irrefl 2)

/-- The snapshot at index 2 without the configuration that learner 2 joined in. -/
def bareSnapshot : RaftSnapshot :=
  { learnerSnapshot with
    metadata := { learnerSnapshot.metadata with committedConfiguration := none } }

/-- With no captured configuration the sole voter forgets its learner. -/
theorem bare_snapshot_forgets_learner :
    ∃ o, ((Node.new soleVoter).calls takeInLearner).node.installLocalSnapshot bareSnapshot = .ok o ∧
      ((Node.new soleVoter).calls takeInLearner).node.effectiveMembership =
        .stable voterAndLearner ∧
      o.node.effectiveMembership = .stable oneVoter ∧
      ¬ SameFrom 2 ((Node.new soleVoter).calls takeInLearner).node o.node := by
  have hok : (((Node.new soleVoter).calls takeInLearner).node.installLocalSnapshot
      bareSnapshot).toOption.map (·.node.effectiveMembership) = some (.stable oneVoter) := by
    decide +kernel
  have hbefore : ((Node.new soleVoter).calls takeInLearner).node.effectiveMembership =
      .stable voterAndLearner := by decide +kernel
  cases ho : ((Node.new soleVoter).calls takeInLearner).node.installLocalSnapshot bareSnapshot with
  | error e => rw [ho] at hok; simp [Except.toOption] at hok
  | ok o =>
    rw [ho] at hok
    have hafter : o.node.effectiveMembership = .stable oneVoter := Option.some_inj.1 hok
    refine ⟨o, rfl, hbefore, hafter, fun hsame => ?_⟩
    have heq := hsame.effectiveMembership
    rw [hbefore, hafter] at heq
    exact absurd heq (by decide +kernel)

end Node

end Rafter
