import Mathlib.Order.Bounds.Basic
import Rafter.Conduct.Rows

/-!
# Settled leaders

The commit candidate of a leader is the greatest index that a majority of every voter set has. A
leader is settled when it has committed what its rows allow and, if it is a quorum by itself, has
committed and dispatched its whole log.

Results:

* `isGreatest_quorumReplicatedIndex`: the candidate of a reconciled leader is the greatest index
  with its majorities;
* `Node.exists_candidate`: what a commit attempt decides, in terms of the rows before it;
* `Node.Still.settled`: a leader stays settled while no row moves above its commit index.
-/

namespace Rafter

open Protocol

/-! ## Order statistics -/

variable {i : ℕ} {s : ProgressSet} {m : MembershipConfig}

/-- Position `k` of a descending sort holds the greatest number that more than `k` elements
reach. -/
theorem isGreatest_sorted_getElem? {l : List ℕ} {k : ℕ}
    (h : (l.insertionSort (· ≥ ·))[k]? = some i) :
    IsGreatest {j | k < (l.filter (j ≤ ·)).length} i := by
  refine ⟨lt_length_filter_of_sorted_getElem? h, ?_⟩
  intro j hj
  by_contra hlt
  rw [not_le] at hlt
  set d := l.insertionSort (· ≥ ·) with hd
  have hperm : (d.filter (j ≤ ·)).length = (l.filter (j ≤ ·)).length :=
    ((List.perm_insertionSort _ l).filter _).length_eq
  have hsorted : d.Pairwise (· ≥ ·) := List.pairwise_insertionSort _ l
  obtain ⟨hk, hi⟩ := List.getElem?_eq_some_iff.1 h
  -- from position `k` on nothing reaches `j`
  have hdrop : (d.drop k).filter (j ≤ ·) = [] := by
    refine List.filter_eq_nil_iff.2 fun x hx => ?_
    obtain ⟨m, hm, rfl⟩ := List.mem_iff_getElem.1 hx
    rw [List.length_drop] at hm
    rw [List.getElem_drop, decide_eq_true_eq, not_le]
    refine lt_of_le_of_lt ?_ hlt
    rw [← hi]
    rcases Nat.eq_zero_or_pos m with rfl | hpos
    · exact le_rfl
    · exact List.pairwise_iff_getElem.1 hsorted k (k + m) hk (by omega) (by omega)
  have hsplit : d.filter (j ≤ ·) = (d.take k).filter (j ≤ ·) := by
    conv_lhs => rw [← List.take_append_drop k d, List.filter_append, hdrop, List.append_nil]
  have hle : (d.filter (j ≤ ·)).length ≤ k := by
    rw [hsplit]
    exact (List.length_filter_le _ _).trans (List.length_take_le _ _)
  have hj' : k < (l.filter (j ≤ ·)).length := hj
  omega

/-! ## Commit candidates -/

/-- A strict majority of every voter set of the membership has reached the index. -/
def MembershipConfig.Reached (m : MembershipConfig) (matchIndex : NodeId → ℕ) (i : ℕ) : Prop :=
  ∀ h ∈ m.halves, h.voters.length < 2 * (h.voters.filter fun n => i ≤ matchIndex n).length

theorem MembershipSet.voters_length_pos (h : MembershipSet) : 0 < h.voters.length :=
  List.length_pos_of_ne_nil h.voters_ne_nil

/-- The quorum index of one voter set. -/
theorem isGreatest_quorumIndex {set : SlotSet} {h : MembershipSet}
    (hm : Marks s.index.replicas set h.voters) (hsub : ∀ n ∈ h.voters, n ∈ s.index.replicas) :
    ∃ i, quorumIndex s set = some i ∧
      IsGreatest {j | h.voters.length < 2 * (h.voters.filter fun n => j ≤ s.matchIndexOf n).length}
        i := by
  have hcount : set.count = h.voters.length := hm.count s.index.replicas_nodup h.voters_nodup hsub
  have hlength : ∀ j, ((s.matchIndexesFor set).filter (j ≤ ·)).length =
      (h.voters.filter fun n => j ≤ s.matchIndexOf n).length :=
    ProgressSet.length_filter_matchIndexesFor hm h.voters_nodup hsub
  have hall : (s.matchIndexesFor set).length = h.voters.length := by
    simpa using hlength 0
  have hpos := h.voters_length_pos
  have hquorum : majority set.count - 1 < (s.matchIndexesFor set).length := by
    rw [hcount, hall]
    unfold majority
    omega
  obtain ⟨i, hi⟩ : ∃ i, ((s.matchIndexesFor set).insertionSort (· ≥ ·))[majority set.count - 1]? =
      some i := by
    refine ⟨_, List.getElem?_eq_getElem ?_⟩
    rw [List.length_insertionSort]
    exact hquorum
  refine ⟨i, ?_, ?_⟩
  · unfold quorumIndex
    dsimp only
    rw [if_neg (by omega)]
    exact hi
  · have hsame : {j | h.voters.length < 2 * (h.voters.filter fun n => j ≤ s.matchIndexOf n).length}
      =
        {j | majority set.count - 1 < ((s.matchIndexesFor set).filter (j ≤ ·)).length} := by
      refine Set.ext fun j => ?_
      show h.voters.length < 2 * (h.voters.filter fun n => j ≤ s.matchIndexOf n).length ↔
        majority set.count - 1 < ((s.matchIndexesFor set).filter (j ≤ ·)).length
      rw [hlength, hcount]
      unfold majority
      omega
    rw [hsame]
    exact isGreatest_sorted_getElem? hi

/-- Majorities are kept by lower indexes. -/
theorem majority_antitone (h : MembershipSet) (matchIndex : NodeId → ℕ) {j : ℕ} (hij : i ≤ j)
    (hj : h.voters.length < 2 * (h.voters.filter fun n => j ≤ matchIndex n).length) :
    h.voters.length < 2 * (h.voters.filter fun n => i ≤ matchIndex n).length := by
  have hle : (h.voters.filter fun n => j ≤ matchIndex n).length ≤
      (h.voters.filter fun n => i ≤ matchIndex n).length := by
    refine (List.monotone_filter_right h.voters fun n hn => ?_).length_le
    rw [decide_eq_true_eq] at hn ⊢
    exact hij.trans hn
  omega

theorem isGreatest_quorumReplicatedIndex {selfId : NodeId} (hi : s.index.IsFor m selfId) :
    ∃ i, quorumReplicatedIndex s = some i ∧ IsGreatest {j | m.Reached s.matchIndexOf j} i := by
  have hsub : ∀ h ∈ m.halves, ∀ n ∈ h.voters, n ∈ s.index.replicas := by
    intro h hh n hn
    rw [hi.replicas]
    exact MembershipConfig.mem_replicaIds_of_halves hh hn
  unfold quorumReplicatedIndex
  cases m with
  | stable c =>
    obtain ⟨hmarks, hnone⟩ := hi.voters
    obtain ⟨i, hquorum, hgreatest⟩ := isGreatest_quorumIndex hmarks (hsub c List.mem_cons_self)
    refine ⟨i, by rw [hquorum, hnone]; rfl, ?_⟩
    simpa [MembershipConfig.Reached, MembershipConfig.halves] using hgreatest
  | joint c =>
    obtain ⟨hmarks, voters, hsome, hmarks'⟩ := hi.voters
    obtain ⟨i, hold, hi⟩ := isGreatest_quorumIndex hmarks
      (hsub c.old (by simp [MembershipConfig.halves]))
    obtain ⟨j, hnew, hj⟩ := isGreatest_quorumIndex hmarks'
      (hsub c.new (by simp [MembershipConfig.halves]))
    refine ⟨min i j, by rw [hold, hsome, Option.bind_some]; dsimp only; rw [hnew]; rfl, ?_⟩
    constructor
    · intro h hh
      rcases (by simpa [MembershipConfig.halves] using hh : h = c.old ∨ h = c.new) with rfl | rfl
      · exact majority_antitone _ _ (min_le_left _ _) hi.1
      · exact majority_antitone _ _ (min_le_right _ _) hj.1
    · intro k hk
      exact le_min (hi.2 (hk c.old (by simp [MembershipConfig.halves])))
        (hj.2 (hk c.new (by simp [MembershipConfig.halves])))

/-! ## Majorities -/

theorem MembershipConfig.reached_congr {f g : NodeId → ℕ}
    (h : ∀ v ∈ m.replicaIds, i ≤ f v ↔ i ≤ g v) : m.Reached f i ↔ m.Reached g i := by
  refine forall₂_congr fun half hhalf => ?_
  have hfilter : (half.voters.filter fun v => i ≤ f v) = half.voters.filter fun v => i ≤ g v := by
    refine List.filter_congr fun v hv => ?_
    rw [decide_eq_decide]
    exact h v (mem_replicaIds_of_halves hhalf hv)
  rw [hfilter]

theorem MembershipConfig.exists_mem_halves (m : MembershipConfig) : ∃ half, half ∈ m.halves := by
  cases m with
  | stable c => exact ⟨c, List.mem_singleton.2 rfl⟩
  | joint c => exact ⟨c.old, List.mem_cons_self⟩

/-- A node that is a quorum of a voter set is its only voter. -/
theorem MembershipSet.voters_of_alone {m : MembershipSet} {id : NodeId} (h : m.hasQuorum [id]) :
    m.voters = [id] := by
  have hquorum : m.voters.length / 2 + 1 ≤ (m.voters.filter (· ∈ [id])).length :=
    of_decide_eq_true h
  have hone : (m.voters.filter (· ∈ [id])).length ≤ 1 := by
    simp only [List.mem_singleton]
    have hcount := List.nodup_iff_count_le_one.1 m.voters_nodup id
    rwa [List.count_eq_length_filter] at hcount
  obtain ⟨v, hv⟩ : ∃ v, m.voters = [v] := by
    rw [← List.length_eq_one_iff]
    have := m.voters_length_pos
    omega
  rw [hv] at hquorum ⊢
  by_contra hne
  have hnone : [v].filter (· ∈ [id]) = [] := by
    simpa using hne
  rw [hnone] at hquorum
  simp at hquorum

namespace Node

variable {c : Occasion} {n n' n'' : Node} {i : ℕ} {v : NodeId}

/-! ## The commit candidate -/

/-- Rows are laid out for the effective membership. -/
theorem reconcileReplicationProgress_isFor (hrole : n.role = .leader) :
    n.reconcileReplicationProgress.leader.progress.index.IsFor n.effectiveMembership n.id := by
  unfold reconcileReplicationProgress
  rw [if_neg (not_not.2 hrole), effectiveMembershipShortcut_eq]
  exact ProgressSet.reconcileMembership_isFor ..

/-- The commit index moves to a candidate above it of the leader's term. -/
theorem advanceCommitIndex_eq
    (h : quorumReplicatedIndex n.reconcileReplicationProgress.leader.progress = some i) :
    n.advanceCommitIndex =
      if n.commitIndex < i ∧ n.termAt i = some n.currentTerm then
        emitCommittedOutputs { n.reconcileReplicationProgress with volatile.commitIndex := i }
      else ⟨n.reconcileReplicationProgress, []⟩ := by
  obtain ⟨progress, hnode⟩ := n.reconcileReplicationProgress_node
  have hcommit : n.reconcileReplicationProgress.commitIndex = n.commitIndex := by rw [hnode]; rfl
  have hterm : n.reconcileReplicationProgress.termAt i = n.termAt i := by rw [hnode]; rfl
  have hcurrent : n.reconcileReplicationProgress.currentTerm = n.currentTerm := by rw [hnode]; rfl
  unfold advanceCommitIndex
  dsimp only
  rw [h]
  dsimp only
  rw [hcommit, hterm, hcurrent]
  by_cases hle : i ≤ n.commitIndex
  · rw [if_pos hle, if_neg fun h => absurd h.1 (not_lt.2 hle)]
  rw [if_neg hle]
  by_cases hown : n.termAt i = some n.currentTerm
  · rw [if_neg (not_not.2 hown), if_pos ⟨not_le.1 hle, hown⟩]
  · rw [if_pos hown, if_neg fun h => hown h.2]

/-- A follower that had no row starts one at match index zero; the others keep theirs. -/
theorem matchIndex_reconcile {row : Progress} (hv : v ≠ n.id)
    (hrow : n.reconcileReplicationProgress.leader.progress.get v = some row) :
    row.matchIndex = n.leader.progress.matchIndexOf v := by
  unfold reconcileReplicationProgress at hrow
  split_ifs at hrow
  · rw [ProgressSet.matchIndexOf, hrow]
    rfl
  · rw [ProgressSet.get_reconcileMembership] at hrow
    split_ifs at hrow
    obtain rfl := Option.some_inj.1 hrow
    rw [ProgressSet.reconciledRow, if_neg hv, if_neg hv, ProgressSet.matchIndexOf]
    cases n.leader.progress.get v <;> rfl

/-- How far a replica is known to hold the leader's log. -/
def reach (n : Node) (v : NodeId) : ℕ :=
  if v = n.id then n.lastLogIndex else n.leader.progress.matchIndexOf v

/-- The greatest index that majorities are known to hold. -/
def Candidate (n : Node) (i : ℕ) : Prop :=
  IsGreatest {j | n.effectiveMembership.Reached n.reach j} i

/-- The node is a quorum of its effective membership by itself. -/
def Alone (n : Node) : Prop := n.effectiveMembership.hasQuorum [n.id]

theorem Alone.reached_iff (h : n.Alone) :
    n.effectiveMembership.Reached n.reach i ↔ i ≤ n.lastLogIndex := by
  have hvoters : ∀ half ∈ n.effectiveMembership.halves, half.voters = [n.id] := fun half hhalf =>
    MembershipSet.voters_of_alone (MembershipConfig.hasQuorum_iff.1 h half hhalf)
  have hself : n.reach n.id = n.lastLogIndex := if_pos rfl
  constructor
  · intro hreached
    obtain ⟨half, hhalf⟩ := n.effectiveMembership.exists_mem_halves
    have hmajority := hreached half hhalf
    rw [hvoters half hhalf] at hmajority
    by_contra hlt
    simp [hself, hlt] at hmajority
  · intro hle half hhalf
    rw [hvoters half hhalf]
    simp [hself, hle]

/-- The candidate of a leader by itself is its last index. -/
theorem Alone.candidate (h : n.Alone) (hi : n.Candidate i) : i = n.lastLogIndex :=
  (h.reached_iff.1 hi.1).antisymm (hi.2 (h.reached_iff.2 le_rfl))

theorem matchIndexOf_reconcile (hn : n.Bounded) (hrole : n.role = .leader)
    (hv : v ∈ n.effectiveMembership.replicaIds) :
    n.reconcileReplicationProgress.leader.progress.matchIndexOf v = n.reach v := by
  unfold reconcileReplicationProgress ProgressSet.matchIndexOf
  rw [if_neg (not_not.2 hrole), effectiveMembershipShortcut_eq]
  dsimp only
  rw [ProgressSet.get_reconcileMembership, if_pos hv, Option.map_some, Option.getD_some,
    ProgressSet.reconciledRow]
  by_cases hself : v = n.id
  · rw [if_pos hself, if_pos hself, reach, if_pos hself]
    cases hrow : n.leader.progress.get v with
    | none => exact max_self _
    | some row => exact max_eq_right (hn.rows.rows v row hrow).matched
  · rw [if_neg hself, if_neg hself, reach, if_neg hself, ProgressSet.matchIndexOf]
    cases n.leader.progress.get v <;> rfl

/-- What a commit attempt decides. -/
theorem exists_candidate (hn : n.Bounded) (hrole : n.role = .leader) :
    ∃ i, n.Candidate i ∧ n.advanceCommitIndex =
      if n.commitIndex < i ∧ n.termAt i = some n.currentTerm then
        emitCommittedOutputs { n.reconcileReplicationProgress with volatile.commitIndex := i }
      else ⟨n.reconcileReplicationProgress, []⟩ := by
  obtain ⟨i, hquorum, hgreatest⟩ :=
    isGreatest_quorumReplicatedIndex (reconcileReplicationProgress_isFor hrole)
  refine ⟨i, ?_, advanceCommitIndex_eq hquorum⟩
  have hset : {j | n.effectiveMembership.Reached n.reach j} = {j | n.effectiveMembership.Reached
      n.reconcileReplicationProgress.leader.progress.matchIndexOf j} := by
    refine Set.ext fun j => MembershipConfig.reached_congr fun v hv => ?_
    rw [matchIndexOf_reconcile hn hrole hv]
  rw [Candidate, hset]
  exact hgreatest

/-! ## Settled nodes -/

/-- A leader has committed what its rows allow, and its whole log if it is alone. -/
def Settled (n : Node) : Prop :=
  n.role = .leader →
    (∀ i, n.Candidate i → n.termAt i = some n.currentTerm → i ≤ n.commitIndex) ∧
    (n.Alone → n.dispatchedIndex = n.lastLogIndex)

theorem settled_of_role (h : n.role ≠ .leader) : n.Settled := fun hrole => absurd hrole h

/-- The node without what commitment does not depend on, and without the rows. -/
def standing (n : Node) : Node :=
  { n with
    persistent.votedFor := none
    volatile.leaderHint := none
    volatile.incomingSnapshot := none
    volatile.snapshotChunkRejections := {}
    volatile.localProposals := []
    election := {}
    leader := {} }

theorem eq_of_standing {α : Type*} {f : Node → α} (h : n'.standing = n.standing)
    (hf : ∀ m : Node, f m.standing = f m) : f n' = f n := by
  rw [← hf n', h, hf n]

/-- Nothing changes that the next commit attempt depends on: no row moves above the commit index. -/
structure Still (n n' : Node) : Prop where
  standing : n'.standing = n.standing
  rows : ∀ v ∈ n.effectiveMembership.replicaIds, v ≠ n.id → ∀ i, n.commitIndex < i →
    (i ≤ n'.leader.progress.matchIndexOf v ↔ i ≤ n.leader.progress.matchIndexOf v)

theorem Still.of_rows (hstanding : n'.standing = n.standing)
    (hrows : ∀ v ∈ n.effectiveMembership.replicaIds, v ≠ n.id →
      n'.leader.progress.matchIndexOf v = n.leader.progress.matchIndexOf v) : n.Still n' :=
  ⟨hstanding, fun v hv hself i _ => by rw [hrows v hv hself]⟩

theorem Still.of_progress (hstanding : n'.standing = n.standing)
    (hprogress : n'.leader.progress = n.leader.progress) : n.Still n' :=
  .of_rows hstanding fun v _ _ => by rw [hprogress]

theorem Still.refl (n : Node) : n.Still n := .of_progress rfl rfl

theorem Still.trans (h : n.Still n') (h' : n'.Still n'') : n.Still n'' := by
  refine ⟨h'.standing.trans h.standing, fun v hv hself i hi => ?_⟩
  have hmembership := eq_of_standing (f := effectiveMembership) h.standing fun _ => rfl
  have hid := eq_of_standing (f := Node.id) h.standing fun _ => rfl
  have hcommit := eq_of_standing (f := commitIndex) h.standing fun _ => rfl
  rw [h'.rows v (hmembership ▸ hv) (hid ▸ hself) i (hcommit ▸ hi), h.rows v hv hself i hi]

theorem Still.reached (h : n.Still n') (hi : n.commitIndex < i) :
    n'.effectiveMembership.Reached n'.reach i ↔ n.effectiveMembership.Reached n.reach i := by
  rw [eq_of_standing (f := effectiveMembership) h.standing fun _ => rfl]
  refine MembershipConfig.reached_congr fun v hv => ?_
  unfold reach
  rw [eq_of_standing (f := Node.id) h.standing fun _ => rfl,
    eq_of_standing (f := lastLogIndex) h.standing fun _ => rfl]
  by_cases hself : v = n.id
  · rw [if_pos hself, if_pos hself]
  · rw [if_neg hself, if_neg hself]
    exact h.rows v hv hself i hi

theorem Still.settled (h : n.Still n') (hn : n.Settled) : n'.Settled := by
  have hcommit := eq_of_standing (f := commitIndex) h.standing fun _ => rfl
  intro hrole
  obtain ⟨hcandidate, halone⟩ := hn ((eq_of_standing (f := role) h.standing fun _ => rfl) ▸ hrole)
  constructor
  · intro i hi hterm
    rw [eq_of_standing (f := (termAt · i)) h.standing fun _ => rfl,
      eq_of_standing (f := currentTerm) h.standing fun _ => rfl] at hterm
    rw [hcommit]
    -- above the commit index the two nodes have the same candidates
    by_contra hlt
    rw [not_le] at hlt
    refine absurd (hcandidate i ⟨(h.reached hlt).1 hi.1, fun j hj => ?_⟩ hterm) (not_le.2 hlt)
    by_contra hij
    rw [not_le] at hij
    exact absurd (hi.2 ((h.reached (hlt.trans hij)).2 hj)) (not_le.2 hij)
  · rw [Alone, eq_of_standing (f := effectiveMembership) h.standing fun _ => rfl,
      eq_of_standing (f := Node.id) h.standing fun _ => rfl,
      eq_of_standing (f := dispatchedIndex) h.standing fun _ => rfl,
      eq_of_standing (f := lastLogIndex) h.standing fun _ => rfl]
    exact halone

/-! ## Sends -/

theorem still_reconcile (n : Node) : n.Still n.reconcileReplicationProgress := by
  obtain ⟨progress, hp⟩ := n.reconcileReplicationProgress_node
  refine .of_rows (by rw [hp]; rfl) fun v hv hself => ?_
  by_cases hrole : n.role = .leader
  · have hmem : v ∈ n.reconcileReplicationProgress.leader.progress.index.replicas := by
      rw [(reconcileReplicationProgress_isFor hrole).replicas]
      exact hv
    obtain ⟨row, hrow⟩ := ProgressSet.exists_get hmem
    rw [← matchIndex_reconcile hself hrow, ProgressSet.matchIndexOf, hrow]
    rfl
  · rw [reconcileReplicationProgress, if_pos hrole]

/-- Updates of a row that leave its match index. -/
theorem still_modifyProgress {f : Progress → Progress}
    (hf : ∀ row, (f row).matchIndex = row.matchIndex) : n.Still (n.modifyProgress v f) :=
  .of_rows rfl fun w _ _ => matchIndexOf_modify _ v w hf

theorem still_record (n : Node) : n.Still n.recordLocalProgress := by
  obtain ⟨progress, hp⟩ := n.reconcileReplicationProgress_node
  refine n.still_reconcile.trans (.of_rows rfl fun v _ hself => ?_)
  unfold recordLocalProgress ProgressSet.matchIndexOf
  dsimp only
  rw [ProgressSet.get_modify, if_neg hself]

theorem Pushes.still {o : Outcome} (h : n.Pushes o) : n.Still o.node := by
  refine .of_rows ?_ fun v _ _ => h.matchIndexOf v
  obtain ⟨progress, hnode⟩ := h.node
  rw [hnode]
  rfl

end Node

end Rafter
