import Rafter.Node.Slots
import Mathlib.Data.List.Sort

/-!
# Replication progress and the quorum index

`crates/rafter/src/node/state/progress.rs`, `state/membership/progress.rs` and the quorum
calculation of `node/commit/advance.rs`.

A `ProgressSet` holds one row for each replica of its index; the structure carries that the two
lists have the same length.

Results:

* `ProgressSet.get_modify`, `get_reset`, `get_reconcileMembership`: which row a replica has after
  each update;
* `quorumReplicatedIndex_quorum`: a quorum of the membership matches at least the index
  `quorumReplicatedIndex` reports.
-/

namespace Rafter

/-- `ProgressMode`. -/
inductive ProgressMode where
  | probe (awaitingResponse : Bool)
  | replicate
  | snapshot (nextOffset : ℕ)
deriving DecidableEq

/-- `InflightBatch`. -/
structure InflightBatch where
  lastIndex : ℕ
  bytes : ℕ
deriving DecidableEq

/-- `Inflights`. -/
structure Inflights where
  batches : List InflightBatch := []
  bytes : ℕ := 0
deriving DecidableEq

namespace Inflights

/-- `Inflights::is_full`. -/
def isFull (w : Inflights) (maxBatches maxBytes : ℕ) : Bool :=
  decide (max maxBatches 1 ≤ w.batches.length) ||
    (!w.batches.isEmpty && decide (maxBytes ≤ w.bytes))

/-- `Inflights::record`. -/
def record (w : Inflights) (lastIndex bytes : ℕ) : Inflights where
  batches := w.batches ++ [{ lastIndex := lastIndex, bytes := bytes }]
  bytes := saturatingAdd w.bytes bytes

/-- The loop of `Inflights::free_through`, on the queue and the byte count. -/
def freeFront (matchIndex : ℕ) : List InflightBatch → ℕ → Inflights
  | [], bytes => { batches := [], bytes := bytes }
  | batch :: rest, bytes =>
    if matchIndex < batch.lastIndex then { batches := batch :: rest, bytes := bytes }
    else freeFront matchIndex rest (bytes - batch.bytes)

/-- `Inflights::free_through`. -/
def freeThrough (w : Inflights) (matchIndex : ℕ) : Inflights :=
  freeFront matchIndex w.batches w.bytes

end Inflights

/-- One replica as the leader sees it. -/
structure Progress where
  matchIndex : ℕ
  nextIndex : ℕ
  mode : ProgressMode
  inflights : Inflights
deriving DecidableEq

namespace Progress

/-- `Progress::probing`. -/
def probing (nextIndex : ℕ) : Progress where
  matchIndex := 0
  nextIndex := nextIndex
  mode := .probe false
  inflights := {}

/-- `Progress::local`. -/
def ofLocal (lastLogIndex : ℕ) : Progress where
  matchIndex := lastLogIndex
  nextIndex := lastLogIndex + 1
  mode := .replicate
  inflights := {}

/-- `Progress::collapse_into_probe`. -/
def collapseIntoProbe (p : Progress) (snapshotIndex : ℕ) : Progress where
  matchIndex := p.matchIndex
  nextIndex := max (p.nextIndex - 1) (max (p.matchIndex + 1) snapshotIndex)
  mode := .probe false
  inflights := {}

/-- `Progress::confirm_replicating`. -/
def confirmReplicating (p : Progress) : Progress :=
  match p.mode with
  | .replicate => p
  | _ => { p with mode := .replicate, inflights := {},
                  nextIndex := max p.nextIndex (p.matchIndex + 1) }

theorem matchIndex_confirmReplicating (row : Progress) :
    row.confirmReplicating.matchIndex = row.matchIndex := by
  unfold confirmReplicating
  split <;> rfl

/-- `ProgressSet::apply_local_progress_floor`. -/
def applyLocalFloor (p : Progress) (localMatchIndex : ℕ) : Progress :=
  { p with matchIndex := max p.matchIndex localMatchIndex,
           nextIndex := max p.nextIndex (localMatchIndex + 1) }

end Progress

/-- `ProgressSet`. -/
structure ProgressSet where
  index : MembershipIndex
  progress : List Progress
  length_eq : progress.length = index.replicas.length
deriving DecidableEq

namespace ProgressSet

variable {s : ProgressSet} {n : NodeId}

instance : Inhabited ProgressSet where
  default := { index := default, progress := [], length_eq := rfl }

/-- `ProgressSet::get`. -/
def get (s : ProgressSet) (n : NodeId) : Option Progress :=
  (s.index.slot n).bind (s.progress[·]?)

/-- `ProgressSet::get_mut`, followed by an update of the row. -/
def modify (s : ProgressSet) (n : NodeId) (f : Progress → Progress) : ProgressSet :=
  match s.index.slot n with
  | some i => { s with progress := s.progress.modify i f, length_eq := by simp [s.length_eq] }
  | none => s

/-- `ProgressSet::contains`. -/
def contains (s : ProgressSet) (n : NodeId) : Bool := (s.index.slot n).isSome

/-- `ProgressSet::reset`. -/
def reset (m : MembershipConfig) (selfId : NodeId) (followerNextIndex localMatchIndex : ℕ) :
    ProgressSet where
  index := MembershipIndex.new m selfId
  progress := (MembershipIndex.new m selfId).replicas.map fun replica =>
    if replica = selfId then Progress.ofLocal localMatchIndex else Progress.probing
      followerNextIndex
  length_eq := by simp

/-- `ProgressSet::refresh_local_progress`. -/
def refreshLocalProgress (s : ProgressSet) (selfId : NodeId) (localMatchIndex : ℕ) : ProgressSet :=
  match s.index.selfSlot with
  | some slot =>
    if s.index.replicas[slot]? = some selfId then
      { s with
        progress := s.progress.modify slot (·.applyLocalFloor localMatchIndex)
        length_eq := by simp [s.length_eq] }
    else s
  | none => s

/-- The row `reconcile_membership` gives a replica of the new membership. -/
def reconciledRow (s : ProgressSet) (selfId : NodeId) (firstSendableIndex localMatchIndex : ℕ)
    (replica : NodeId) : Progress :=
  let row := (s.get replica).getD
    (if replica = selfId then Progress.ofLocal localMatchIndex
      else Progress.probing firstSendableIndex)
  if replica = selfId then row.applyLocalFloor localMatchIndex else row

/-- `ProgressSet::reconcile_membership`. -/
def reconcileMembership (s : ProgressSet) (m : MembershipConfig) (selfId : NodeId)
    (firstSendableIndex localMatchIndex : ℕ) : ProgressSet :=
  if s.index.matchesMembership m selfId && decide (s.progress.length = s.index.replicas.length) then
    s.refreshLocalProgress selfId localMatchIndex
  else if s.index = MembershipIndex.new m selfId ∧
      s.progress.length = (MembershipIndex.new m selfId).replicas.length then
    s.refreshLocalProgress selfId localMatchIndex
  else
    { index := MembershipIndex.new m selfId
      progress := (MembershipIndex.new m selfId).replicas.map
        (s.reconciledRow selfId firstSendableIndex localMatchIndex)
      length_eq := by simp }

/-- `ProgressSet::match_indexes_for`. -/
def matchIndexesFor (s : ProgressSet) (voters : SlotSet) : List ℕ :=
  ((voters.iter s.progress.length).filterMap (s.progress[·]?)).map (·.matchIndex)

/-! ## Rows -/

theorem get_eq_getElem? {i : ℕ} (h : s.index.replicas[i]? = some n) :
    s.get n = s.progress[i]? := by
  have hslot : s.index.slot n = some i := (slotOf_eq_some_iff s.index.replicas_nodup).2 h
  rw [get, hslot, Option.bind_some]

theorem get_eq_none (h : n ∉ s.index.replicas) :
    s.get n = none := by
  have hslot : s.index.slot n = none := slotOf_eq_none_iff.2 h
  rw [get, hslot, Option.bind_none]

theorem exists_get (h : n ∈ s.index.replicas) :
    ∃ row, s.get n = some row := by
  obtain ⟨i, hi⟩ := List.getElem?_of_mem h
  have hlt : i < s.progress.length := s.length_eq ▸ (List.getElem?_eq_some_iff.1 hi).1
  exact ⟨_, (get_eq_getElem? hi).trans (List.getElem?_eq_getElem hlt)⟩

@[simp] theorem modify_index (s : ProgressSet) (n : NodeId) (f : Progress → Progress) :
    (s.modify n f).index = s.index := by
  unfold modify
  split <;> rfl

theorem get_modify (s : ProgressSet) (n k : NodeId) (f : Progress → Progress) :
    (s.modify n f).get k = if k = n then (s.get k).map f else s.get k := by
  by_cases hk : k ∈ s.index.replicas
  · obtain ⟨i, hi⟩ := List.getElem?_of_mem hk
    rw [get_eq_getElem? hi, get_eq_getElem? (s := s.modify n f) (by simpa using hi)]
    by_cases hkn : k = n
    · subst hkn
      have hslot : s.index.slot k = some i := (slotOf_eq_some_iff s.index.replicas_nodup).2 hi
      simp [modify, hslot]
    · rw [if_neg hkn]
      unfold modify
      split
      · rename_i j hj
        have hji : j ≠ i := by
          rintro rfl
          exact hkn (Option.some_inj.1 (hi.symm.trans (getElem?_of_slotOf hj)))
        simp [hji]
      · rfl
  · rw [get_eq_none hk, get_eq_none (s := s.modify n f) (by simpa using hk)]
    simp

theorem get_of_map {idx : MembershipIndex} {row : NodeId → Progress}
    {h : (idx.replicas.map row).length = idx.replicas.length} :
    (ProgressSet.mk idx (idx.replicas.map row) h).get n =
      if n ∈ idx.replicas then some (row n) else none := by
  split_ifs with hn
  · obtain ⟨i, hi⟩ := List.getElem?_of_mem hn
    rw [get_eq_getElem? (s := ProgressSet.mk idx (idx.replicas.map row) h) hi,
      List.getElem?_map, hi,
      Option.map_some]
  · exact get_eq_none hn

theorem get_reset (m : MembershipConfig) (selfId : NodeId) (a b : ℕ) (n : NodeId) :
    (reset m selfId a b).get n = if n ∈ m.replicaIds then
      some (if n = selfId then Progress.ofLocal b else Progress.probing a) else none := by
  rw [reset, get_of_map, (MembershipIndex.new_isFor m selfId).replicas]

theorem get_refreshLocalProgress {m : MembershipConfig} {selfId : NodeId}
    (hi : s.index.IsFor m selfId) (b : ℕ) (n : NodeId) :
    (s.refreshLocalProgress selfId b).get n =
      if n = selfId then (s.get n).map (·.applyLocalFloor b) else s.get n := by
  have hmod : s.refreshLocalProgress selfId b = s.modify selfId (·.applyLocalFloor b) := by
    have hself : s.index.selfSlot = s.index.slot selfId := hi.selfSlot
    unfold refreshLocalProgress modify
    rw [hself]
    cases hslot : s.index.slot selfId with
    | none => rfl
    | some i => simp only [getElem?_of_slotOf hslot, if_true]
  rw [hmod, get_modify]

theorem refreshLocalProgress_index (s : ProgressSet) (selfId : NodeId) (b : ℕ) :
    (s.refreshLocalProgress selfId b).index = s.index := by
  unfold refreshLocalProgress
  split
  · split_ifs <;> rfl
  · rfl

/-- Which of its three branches `reconcileMembership` takes. -/
theorem reconcileMembership_cases (s : ProgressSet) (m : MembershipConfig) (selfId : NodeId)
    (a b : ℕ) :
    (s.index.IsFor m selfId ∧
      s.reconcileMembership m selfId a b = s.refreshLocalProgress selfId b) ∨
    s.reconcileMembership m selfId a b =
      ⟨MembershipIndex.new m selfId, (MembershipIndex.new m selfId).replicas.map
        (s.reconciledRow selfId a b), by simp⟩ := by
  unfold reconcileMembership
  split_ifs with h1 h2
  · exact .inl ⟨MembershipIndex.isFor_of_matches (Bool.and_eq_true_iff.1 h1).1, rfl⟩
  · exact .inl ⟨h2.1 ▸ MembershipIndex.new_isFor m selfId, rfl⟩
  · exact .inr rfl

theorem reconcileMembership_isFor (s : ProgressSet) (m : MembershipConfig) (selfId : NodeId)
    (a b : ℕ) : (s.reconcileMembership m selfId a b).index.IsFor m selfId := by
  rcases reconcileMembership_cases s m selfId a b with ⟨hi, h⟩ | h
  · rw [h, refreshLocalProgress_index]
    exact hi
  · rw [h]
    exact MembershipIndex.new_isFor m selfId

theorem get_reconcileMembership (s : ProgressSet) (m : MembershipConfig) (selfId : NodeId)
    (a b : ℕ) (n : NodeId) :
    (s.reconcileMembership m selfId a b).get n =
      if n ∈ m.replicaIds then some (s.reconciledRow selfId a b n) else none := by
  rcases reconcileMembership_cases s m selfId a b with ⟨hi, h⟩ | h
  · rw [h, get_refreshLocalProgress hi]
    by_cases hn : n ∈ m.replicaIds
    · obtain ⟨row, hrow⟩ := exists_get (s := s) (n := n) (hi.replicas ▸ hn)
      rw [if_pos hn, reconciledRow, hrow]
      split_ifs <;> rfl
    · rw [get_eq_none (hi.replicas ▸ hn : n ∉ s.index.replicas)]
      simp [hn]
  · rw [h, get_of_map, (MembershipIndex.new_isFor m selfId).replicas]

/-- A replica's match index, zero for a node without a row. -/
def matchIndexOf (s : ProgressSet) (n : NodeId) : ℕ := ((s.get n).map (·.matchIndex)).getD 0

theorem length_filter_matchIndexesFor {set : SlotSet} {v : List NodeId}
    (hm : Marks s.index.replicas set v) (hv : v.Nodup) (hsub : ∀ n ∈ v, n ∈ s.index.replicas)
    (i : ℕ) : ((s.matchIndexesFor set).filter (i ≤ ·)).length =
      (v.filter fun n => i ≤ s.matchIndexOf n).length := by
  have hflat : ∀ l : List ℕ,
      (((l.filterMap (s.progress[·]?)).map (·.matchIndex)).filter (i ≤ ·)).length =
        (l.filter fun slot => (s.progress[slot]?).any fun row => i ≤ row.matchIndex).length := by
    intro l
    induction l with
    | nil => rfl
    | cons slot rest ih =>
      cases hrow : s.progress[slot]? with
      | none => simpa [hrow] using ih
      | some row => by_cases hle : i ≤ row.matchIndex <;> simpa [hrow, hle] using ih
  rw [matchIndexesFor, hflat, s.length_eq]
  refine hm.length_iter_filter s.index.replicas_nodup hv hsub fun slot n hn => ?_
  obtain ⟨row, hrow⟩ := exists_get (List.mem_of_getElem? hn)
  have hget : s.progress[slot]? = some row := (get_eq_getElem? hn).symm.trans hrow
  simp [hget, matchIndexOf, hrow]

end ProgressSet

/-! ## Quorum index -/

/-- `quorum_index`: the match index at the quorum's position from the top. -/
def quorumIndex (s : ProgressSet) (voters : SlotSet) : Option ℕ :=
  let quorum := majority voters.count
  let matchIndexes := s.matchIndexesFor voters
  if matchIndexes.length < quorum then none
  else (matchIndexes.insertionSort (· ≥ ·))[quorum - 1]?

/-- `quorum_replicated_index`. -/
def quorumReplicatedIndex (s : ProgressSet) : Option ℕ :=
  (quorumIndex s s.index.oldVoters).bind fun oldQuorumIndex =>
    match s.index.newVoters with
    | none => some oldQuorumIndex
    | some newVoters => (quorumIndex s newVoters).map (min oldQuorumIndex ·)

/-- At position `k` of a descending sort at least `k + 1` elements are at least as large. -/
theorem lt_length_filter_of_sorted_getElem? {l : List ℕ} {k i : ℕ}
    (h : (l.insertionSort (· ≥ ·))[k]? = some i) : k + 1 ≤ (l.filter (i ≤ ·)).length := by
  set d := l.insertionSort (· ≥ ·) with hd
  have hperm : (d.filter (i ≤ ·)).length = (l.filter (i ≤ ·)).length :=
    ((List.perm_insertionSort _ l).filter _).length_eq
  have hsorted : d.Pairwise (· ≥ ·) := List.pairwise_insertionSort _ l
  obtain ⟨hlt, hi⟩ := List.getElem?_eq_some_iff.1 h
  have htake : (d.take (k + 1)).filter (i ≤ ·) = d.take (k + 1) := by
    refine List.filter_eq_self.2 fun x hx => ?_
    obtain ⟨j, hj, rfl⟩ := List.mem_iff_getElem.1 hx
    rw [List.length_take] at hj
    rw [List.getElem_take, decide_eq_true_eq, ← hi]
    rcases Nat.lt_or_ge j k with hjk | hjk
    · exact List.pairwise_iff_getElem.1 hsorted j k (by omega) hlt hjk
    · have : j = k := by omega
      simp [this]
  rw [← hperm]
  calc k + 1 = (d.take (k + 1)).length := by rw [List.length_take]; omega
    _ = ((d.take (k + 1)).filter (i ≤ ·)).length := by rw [htake]
    _ ≤ (d.filter (i ≤ ·)).length := ((List.take_sublist _ d).filter _).length_le

theorem quorumIndex_majority {s : ProgressSet} {set : SlotSet} {h : MembershipSet} {i : ℕ}
    (hm : Marks s.index.replicas set h.voters) (hsub : ∀ n ∈ h.voters, n ∈ s.index.replicas)
    (hq : quorumIndex s set = some i) :
    h.quorumSize ≤ (h.voters.filter fun n => i ≤ s.matchIndexOf n).length := by
  have hcount : set.count = h.voters.length := hm.count s.index.replicas_nodup h.voters_nodup hsub
  simp only [quorumIndex] at hq
  split_ifs at hq
  have hlen := lt_length_filter_of_sorted_getElem? hq
  rw [ProgressSet.length_filter_matchIndexesFor hm h.voters_nodup hsub, hcount] at hlen
  rw [MembershipSet.quorumSize]
  unfold majority at hlen ⊢
  omega

theorem quorumReplicatedIndex_quorum {s : ProgressSet} {m : MembershipConfig} {selfId : NodeId}
    (hi : s.index.IsFor m selfId) {i : ℕ} (hq : quorumReplicatedIndex s = some i) :
    m.hasQuorum (m.replicaIds.filter fun n => i ≤ s.matchIndexOf n) := by
  -- one half reaching an index at or above `i` contributes its majority
  have hhalf : ∀ {set : SlotSet} {h : MembershipSet} {j : ℕ}, h ∈ m.halves →
      Marks s.index.replicas set h.voters → quorumIndex s set = some j → i ≤ j →
      h.hasQuorum (m.replicaIds.filter fun n => i ≤ s.matchIndexOf n) := by
    intro set h j hh hm hj hij
    have hsub : ∀ n ∈ h.voters, n ∈ m.replicaIds :=
      fun n hn => MembershipConfig.mem_replicaIds_of_halves hh hn
    have hmaj := quorumIndex_majority hm (by simpa [hi.replicas] using hsub) hj
    refine decide_eq_true (le_trans hmaj ?_)
    have hle : (h.voters.filter fun n => j ≤ s.matchIndexOf n).length ≤
        (h.voters.filter fun n => i ≤ s.matchIndexOf n).length := by
      refine (List.monotone_filter_right h.voters fun n hn => ?_).length_le
      simp only [decide_eq_true_eq] at hn ⊢
      exact le_trans hij hn
    refine le_trans hle (le_of_eq (congrArg List.length (List.filter_congr fun n hn => ?_)))
    simp [hsub n hn]
  rw [quorumReplicatedIndex, Option.bind_eq_some_iff] at hq
  obtain ⟨old, hold, hnew⟩ := hq
  rw [MembershipConfig.hasQuorum_iff]
  cases m with
  | stable c =>
    obtain ⟨hmarks, hnone⟩ := hi.voters
    simp only [hnone, Option.some_inj] at hnew
    intro h hh
    obtain rfl : h = c := by simpa [MembershipConfig.halves] using hh
    exact hhalf hh hmarks hold hnew.ge
  | joint c =>
    obtain ⟨hmarks, voters, hsome, hmarks'⟩ := hi.voters
    simp only [hsome, Option.map_eq_some_iff] at hnew
    obtain ⟨new, hnew, rfl⟩ := hnew
    intro h hh
    rcases (by simpa [MembershipConfig.halves] using hh : h = c.old ∨ h = c.new) with rfl | rfl
    · exact hhalf hh hmarks hold (min_le_left _ _)
    · exact hhalf hh hmarks' hnew (min_le_right _ _)

end Rafter
