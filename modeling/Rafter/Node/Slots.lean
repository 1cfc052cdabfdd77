import Rafter.Types.Entry

/-!
# Replica slots and slot-based quorums

`crates/rafter/src/node/state/membership/slots.rs`, `index.rs` and `acknowledgements.rs`: sets
over the sorted replicas of one membership, kept as bits, and the quorum tests on them.

A `MembershipIndex` carries that its replicas are distinct and that its voter sets mark replica
slots only; `default` and `MembershipIndex.new` are its constructors, as in the source.

Results:

* `MembershipIndex.hasQuorum_eq`: the slot test of an election is the membership's own quorum;
* `MembershipIndex.hasQuorumSlotsWithSelf_eq`: under an index for a membership the slot test is
  the membership's `hasQuorum` on the marked replicas together with the local node;
* `AcknowledgementSet.hasQuorumWithSelf_eq`: so acknowledgements collected under one membership
  and tested under another count exactly the replicas both know.
-/

namespace Rafter

variable {n selfId : NodeId} {replicas : List NodeId} {P : ℕ → Bool} {set : SlotSet}
variable {idx : MembershipIndex} {m : MembershipConfig}

/-- `SlotWords`: one inline word, or a vector of words. -/
inductive SlotSet where
  | inline (bits : ℕ)
  | heap (words : List ℕ)
deriving DecidableEq

/-- `word_count`. Its saturating addition never saturates: the argument is a vector's length. -/
def wordCount (bitCount : ℕ) : ℕ := (bitCount + 63) / 64

namespace SlotSet

/-- `SlotSet::empty`. -/
def empty (slotCount : ℕ) : SlotSet :=
  if slotCount ≤ 64 then inline 0 else heap (List.replicate (wordCount slotCount) 0)

/-- `words[i] |= mask` -/
def setBit (words : List ℕ) (slot : ℕ) : List ℕ :=
  words.modify (slot / 64) (fun w => w ||| 2 ^ (slot % 64))

/-- `SlotSet::insert`. -/
def insert (s : SlotSet) (slot : ℕ) : SlotSet :=
  match s with
  | inline bits =>
    if slot < 64 then inline (bits ||| 2 ^ slot)
    else heap (setBit (bits :: List.replicate (wordCount (slot + 1) - 1) 0) slot)
  | heap words =>
    heap (setBit (words ++ List.replicate (slot / 64 + 1 - words.length) 0) slot)

/-- `SlotSet::contains`. -/
def contains (s : SlotSet) (slot : ℕ) : Bool :=
  match s with
  | inline bits => decide (slot < 64) && bits.testBit slot
  | heap words => (words[slot / 64]?).any (fun w => w.testBit (slot % 64))

/-- `u64::count_ones`. -/
def countOnes (word : ℕ) : ℕ := ((List.range 64).filter fun i => word.testBit i).length

/-- `SlotSet::count`. -/
def count : SlotSet → ℕ
  | inline bits => countOnes bits
  | heap words => (words.map countOnes).sum

/-- `SlotSet::iter`. -/
def iter (s : SlotSet) (slotCount : ℕ) : List ℕ := (List.range slotCount).filter s.contains

/-- Every marked slot is below `n`. -/
def Within (s : SlotSet) (n : ℕ) : Prop := ∀ i, s.contains i → i < n

@[simp] theorem contains_empty (n i : ℕ) : (empty n).contains i = false := by
  unfold empty
  split_ifs
  · simp [contains]
  · cases hget : (List.replicate (wordCount n) 0)[i / 64]? with
    | none => simp [contains, hget]
    | some w =>
      have hw : w = 0 := (List.mem_replicate.1 (List.mem_of_getElem? hget)).2
      simp [contains, hget, hw]

theorem testBit_or_two_pow (w k i : ℕ) :
    (w ||| 2 ^ k).testBit i = (decide (i = k) || w.testBit i) := by
  rw [Nat.testBit_or, Nat.testBit_two_pow, Bool.or_comm]
  simp only [eq_comm]

theorem contains_heap_setBit {words : List ℕ} {slot : ℕ} (h : slot / 64 < words.length) (i : ℕ) :
    (heap (setBit words slot)).contains i = (decide (i = slot) || (heap words).contains i) := by
  simp only [contains, setBit, List.getElem?_modify]
  by_cases hw : slot / 64 = i / 64
  · have hsome : words[i / 64]? = some (words.get ⟨i / 64, hw ▸ h⟩) :=
      List.getElem?_eq_getElem (hw ▸ h)
    have hdec : decide (i % 64 = slot % 64) = decide (i = slot) := by
      rw [decide_eq_decide]; omega
    simp only [hw, if_true, hsome, Option.map_eq_map, Option.map_some, Option.any_some,
      testBit_or_two_pow, hdec]
  · have hne : i ≠ slot := by rintro rfl; exact hw rfl
    simp [hw, hne]

/-- Zero words appended at the end mark nothing. -/
theorem contains_heap_append_zeros (words : List ℕ) (n i : ℕ) :
    (heap (words ++ List.replicate n 0)).contains i = (heap words).contains i := by
  simp only [contains, List.getElem?_append]
  split_ifs with hlt
  · rfl
  · rw [List.getElem?_eq_none (not_lt.1 hlt)]
    cases hget : (List.replicate n 0)[i / 64 - words.length]? with
    | none => rfl
    | some w =>
      have hw : w = 0 := (List.mem_replicate.1 (List.mem_of_getElem? hget)).2
      simp [hw]

theorem contains_heap_singleton (bits i : ℕ) :
    (heap [bits]).contains i = (inline bits).contains i := by
  by_cases hi : i < 64
  · simp [contains, Nat.div_eq_of_lt hi, Nat.mod_eq_of_lt hi, hi]
  · simp [contains, hi]

@[simp] theorem contains_insert (s : SlotSet) (slot i : ℕ) :
    (s.insert slot).contains i = (decide (i = slot) || s.contains i) := by
  cases s with
  | inline bits =>
    simp only [insert]
    split_ifs with hslot
    · simp only [contains, testBit_or_two_pow]
      by_cases hi : i = slot
      · simp [hi, hslot]
      · simp [hi]
    · rw [contains_heap_setBit]
      · congr 1
        rw [← contains_heap_singleton]
        exact contains_heap_append_zeros [bits] _ i
      · simp only [List.length_cons, List.length_replicate, wordCount]
        omega
  | heap words =>
    simp only [insert]
    rw [contains_heap_setBit, contains_heap_append_zeros]
    simp only [List.length_append, List.length_replicate]
    omega

theorem within_empty (n m : ℕ) : (empty n).Within m := by
  intro i h
  simp at h

/-- Filtering a range does not depend on the part of it where the predicate fails. -/
theorem filter_range_eq {p : ℕ → Bool} {a b : ℕ} (ha : ∀ i, p i → i < a) (hab : a ≤ b) :
    (List.range b).filter p = (List.range a).filter p := by
  obtain ⟨c, rfl⟩ := Nat.exists_eq_add_of_le hab
  rw [List.range_add, List.filter_append]
  have hnil : ((List.range c).map (a + ·)).filter p = [] := by
    rw [List.filter_eq_nil_iff]
    intro i hi hp
    obtain ⟨j, -, rfl⟩ := List.mem_map.1 hi
    exact absurd (ha _ hp) (by omega)
  rw [hnil, List.append_nil]

theorem sum_countOnes (words : List ℕ) :
    (words.map countOnes).sum = ((List.range (64 * words.length)).filter
      (heap words).contains).length := by
  induction words with
  | nil => simp
  | cons w rest ih =>
    have hlen : 64 * (w :: rest).length = 64 + 64 * rest.length := by
      simp only [List.length_cons]; omega
    have hlow : (List.range 64).filter (heap (w :: rest)).contains =
        (List.range 64).filter fun i => w.testBit i := by
      refine List.filter_congr fun i hi => ?_
      have hi := List.mem_range.1 hi
      simp [contains, Nat.div_eq_of_lt hi, Nat.mod_eq_of_lt hi]
    have hhigh : (heap (w :: rest)).contains ∘ (64 + ·) = (heap rest).contains := by
      funext i
      have hdiv : (64 + i) / 64 = i / 64 + 1 := by omega
      have hmod : (64 + i) % 64 = i % 64 := by omega
      simp [contains, hdiv, hmod]
    rw [hlen, List.range_add, List.filter_append, List.length_append, List.map_cons, List.sum_cons,
      ih, hlow, List.filter_map, hhigh, List.length_map, countOnes]

/-- The number of marks is the number of slots `iter` visits. -/
theorem count_eq_length_iter {s : SlotSet} {n : ℕ} (h : s.Within n) :
    s.count = (s.iter n).length := by
  have key : ∀ m, s.Within m → s.iter n = (List.range m).filter s.contains := by
    intro m hm
    rcases le_total n m with hnm | hmn
    · exact (filter_range_eq h hnm).symm
    · exact filter_range_eq hm hmn
  cases s with
  | inline bits =>
    have hbits : (List.range 64).filter (inline bits).contains =
        (List.range 64).filter fun i => bits.testBit i := by
      refine List.filter_congr fun i hi => ?_
      have hi := List.mem_range.1 hi
      simp [contains, hi]
    rw [key 64 fun i hi => by simpa using (Bool.and_eq_true_iff.1 hi).1, hbits, count, countOnes]
  | heap words =>
    rw [key (64 * words.length), count, sum_countOnes]
    intro i hi
    simp only [contains, Option.any_eq_true] at hi
    obtain ⟨w, hw, -⟩ := hi
    have := (List.getElem?_eq_some_iff.1 hw).1
    omega

end SlotSet

/-! ## Membership index -/

/-- `slot_of`. The source searches the sorted replicas by bisection; they are distinct, so the
position is the only one. -/
def slotOf (replicas : List NodeId) (n : NodeId) : Option ℕ := replicas.idxOf? n

theorem getElem?_of_slotOf {i : ℕ} (h : slotOf replicas n = some i) : replicas[i]? = some n := by
  obtain ⟨hlt, heq, -⟩ := List.findIdx?_eq_some_iff_getElem.1 h
  exact List.getElem?_eq_some_iff.2 ⟨hlt, beq_iff_eq.1 heq⟩

theorem slotOf_eq_none_iff : slotOf replicas n = none ↔ n ∉ replicas :=
  List.idxOf?_eq_none_iff

theorem slotOf_eq_some_iff (hn : replicas.Nodup) {i : ℕ} :
    slotOf replicas n = some i ↔ replicas[i]? = some n := by
  refine ⟨getElem?_of_slotOf, fun h => ?_⟩
  cases hs : slotOf replicas n with
  | none => exact absurd (List.mem_of_getElem? h) (slotOf_eq_none_iff.1 hs)
  | some j =>
    have hj := getElem?_of_slotOf hs
    obtain ⟨hi, ei⟩ := List.getElem?_eq_some_iff.1 h
    obtain ⟨hj, ej⟩ := List.getElem?_eq_some_iff.1 hj
    rw [(List.Nodup.getElem_inj_iff hn).1 (ei.trans ej.symm)]

/-- Mark a node's slot, if it has one. -/
def insertNode (replicas : List NodeId) (set : SlotSet) (n : NodeId) : SlotSet :=
  match slotOf replicas n with
  | some slot => set.insert slot
  | none => set

theorem contains_insertNode (hn : replicas.Nodup) (set : SlotSet) (n : NodeId) (i : ℕ) :
    (insertNode replicas set n).contains i ↔ replicas[i]? = some n ∨ set.contains i := by
  unfold insertNode
  rw [← slotOf_eq_some_iff hn]
  cases slotOf replicas n with
  | none => simp
  | some slot =>
    rw [SlotSet.contains_insert, Bool.or_eq_true, decide_eq_true_eq, Option.some_inj, eq_comm]

/-- `slot_set_for`, and the loop of `MembershipIndex::has_quorum`. -/
def slotSetFor (replicas nodes : List NodeId) : SlotSet :=
  nodes.foldl (insertNode replicas) (SlotSet.empty replicas.length)

theorem contains_slotSetFor (hn : replicas.Nodup) (nodes : List NodeId) (i : ℕ) :
    (slotSetFor replicas nodes).contains i ↔ ∃ n ∈ nodes, replicas[i]? = some n := by
  have key : ∀ (nodes : List NodeId) (set : SlotSet),
      (nodes.foldl (insertNode replicas) set).contains i ↔
        set.contains i ∨ ∃ n ∈ nodes, replicas[i]? = some n := by
    intro nodes
    induction nodes with
    | nil => simp
    | cons a rest ih =>
      intro set
      rw [List.foldl_cons, ih, contains_insertNode hn, List.exists_mem_cons_iff]
      tauto
  rw [slotSetFor, key, SlotSet.contains_empty]
  simp

theorem slotSetFor_within (hn : replicas.Nodup) (nodes : List NodeId) :
    (slotSetFor replicas nodes).Within replicas.length := by
  intro i hi
  obtain ⟨n, -, h⟩ := (contains_slotSetFor hn nodes i).1 hi
  exact (List.getElem?_eq_some_iff.1 h).1

/-- `learners_for_joint`. -/
def learnersForJoint (replicas : List NodeId) (old new : MembershipSet) : SlotSet :=
  slotSetFor replicas (old.learners ++ new.learners)

/-- `sorted_union_matches`: one target position is consumed with each id of the merge. -/
def sortedUnionMatches : List NodeId → List NodeId → List NodeId → Bool
  | [], left, right => left.isEmpty && right.isEmpty
  | _ :: _, [], [] => false
  | t :: ts, l :: ls, [] => decide (t = l) && sortedUnionMatches ts ls []
  | t :: ts, [], r :: rs => decide (t = r) && sortedUnionMatches ts [] rs
  | t :: ts, l :: ls, r :: rs =>
    if l ≤ r then decide (t = l) && sortedUnionMatches ts ls (r :: rs)
    else decide (t = r) && sortedUnionMatches ts (l :: ls) rs

/-- `slot_set_matches_members`. -/
def slotSetMatchesMembers (set : SlotSet) (replicas members : List NodeId) : Bool :=
  replicas.zipIdx.all fun (n, slot) => set.contains slot == decide (n ∈ members)

/-- `quorum_reached`. -/
def quorumReached (voters acks : SlotSet) (slotCount : ℕ) : Bool :=
  decide (majority voters.count ≤ ((voters.iter slotCount).filter acks.contains).length)

/-- `quorum_reached_with_self`. -/
def quorumReachedWithSelf (voters acks : SlotSet) (selfSlot : Option ℕ) (slotCount : ℕ) : Bool :=
  decide (majority voters.count ≤
    ((voters.iter slotCount).filter fun slot =>
      acks.contains slot || decide (some slot = selfSlot)).length)

theorem MembershipSet.replicaIds_nodup (m : MembershipSet) : m.replicaIds.Nodup :=
  (idSet_sorted _).imp fun h => ne_of_lt h

theorem MembershipConfig.replicaIds_nodup (c : MembershipConfig) : c.replicaIds.Nodup := by
  cases c with
  | stable s => exact s.replicaIds_nodup
  | joint j => exact (idSet_sorted _).imp fun h => ne_of_lt h

/-- A membership over its sorted replica slots. -/
structure MembershipIndex where
  replicas : List NodeId
  oldVoters : SlotSet
  newVoters : Option SlotSet
  learners : SlotSet
  selfSlot : Option ℕ
  replicas_nodup : replicas.Nodup
  oldVoters_within : oldVoters.Within replicas.length
deriving DecidableEq

namespace MembershipIndex

instance : Inhabited MembershipIndex where
  default :=
    { replicas := []
      oldVoters := SlotSet.empty 0
      newVoters := none
      learners := SlotSet.empty 0
      selfSlot := none
      replicas_nodup := List.nodup_nil
      oldVoters_within := SlotSet.within_empty 0 _ }

/-- `MembershipIndex::new`. -/
def new (m : MembershipConfig) (selfId : NodeId) : MembershipIndex :=
  let replicas := m.replicaIds
  match m with
  | .stable s =>
    { replicas := replicas
      oldVoters := slotSetFor replicas s.voters
      newVoters := none
      learners := slotSetFor replicas s.learners
      selfSlot := slotOf replicas selfId
      replicas_nodup := MembershipConfig.replicaIds_nodup _
      oldVoters_within := slotSetFor_within (MembershipConfig.replicaIds_nodup _) _ }
  | .joint j =>
    { replicas := replicas
      oldVoters := slotSetFor replicas j.old.voters
      newVoters := some (slotSetFor replicas j.new.voters)
      learners := learnersForJoint replicas j.old j.new
      selfSlot := slotOf replicas selfId
      replicas_nodup := MembershipConfig.replicaIds_nodup _
      oldVoters_within := slotSetFor_within (MembershipConfig.replicaIds_nodup _) _ }

/-- `MembershipIndex::slot`. -/
def slot (idx : MembershipIndex) (n : NodeId) : Option ℕ := slotOf idx.replicas n

/-- `MembershipIndex::has_quorum_slots`. -/
def hasQuorumSlots (idx : MembershipIndex) (acks : SlotSet) : Bool :=
  quorumReached idx.oldVoters acks idx.replicas.length
    && idx.newVoters.all fun voters => quorumReached voters acks idx.replicas.length

/-- `MembershipIndex::has_quorum`. -/
def hasQuorum (idx : MembershipIndex) (acks : List NodeId) : Bool :=
  idx.hasQuorumSlots (slotSetFor idx.replicas acks)

/-- `MembershipIndex::has_quorum_slots_with_self`. -/
def hasQuorumSlotsWithSelf (idx : MembershipIndex) (acks : SlotSet) : Bool :=
  quorumReachedWithSelf idx.oldVoters acks idx.selfSlot idx.replicas.length
    && idx.newVoters.all fun voters =>
      quorumReachedWithSelf voters acks idx.selfSlot idx.replicas.length

/-- `MembershipIndex::matches`: joint memberships are always rebuilt. -/
def matchesMembership (idx : MembershipIndex) (m : MembershipConfig) (selfId : NodeId) : Bool :=
  match m with
  | .stable s =>
    idx.newVoters.isNone
      && decide (idx.selfSlot = slotOf idx.replicas selfId)
      && sortedUnionMatches idx.replicas s.voters s.learners
      && slotSetMatchesMembers idx.oldVoters idx.replicas s.voters
      && slotSetMatchesMembers idx.learners idx.replicas s.learners
  | .joint _ => false

end MembershipIndex

/-! ## Slot quorums are membership quorums -/

variable {Q : NodeId → Bool} {v : List NodeId}

/-- Counting the positions of a list is counting its elements. -/
theorem length_filter_range (l : List NodeId) (h : ∀ i a, l[i]? = some a → P i = Q a) :
    ((List.range l.length).filter P).length = (l.filter Q).length := by
  induction l generalizing P with
  | nil => simp
  | cons a rest ih =>
    have hrest := ih (P := P ∘ Nat.succ) fun i b hb => h (i + 1) b (by simpa using hb)
    rw [List.length_cons, List.range_succ_eq_map, List.filter_cons, List.filter_cons,
      List.filter_map, h 0 a rfl]
    split_ifs
    · simpa using hrest
    · simpa using hrest

/-- A sorted sub-membership is what filtering the replicas leaves of it. -/
theorem length_filter_filter_mem {l : List NodeId} (hl : l.Nodup) (hv : v.Nodup)
    (hsub : ∀ n ∈ v, n ∈ l) (q : NodeId → Bool) :
    ((l.filter (· ∈ v)).filter q).length = (v.filter q).length := by
  have hperm : (l.filter (· ∈ v)).Perm v := by
    rw [List.perm_ext_iff_of_nodup (hl.filter _) hv]
    intro n
    simpa using hsub n
  exact (hperm.filter q).length_eq

/-- The slot set marks exactly the replicas listed in `v`. -/
def Marks (replicas : List NodeId) (set : SlotSet) (v : List NodeId) : Prop :=
  ∀ i, set.contains i ↔ ∃ n ∈ v, replicas[i]? = some n

theorem Marks.length_iter_filter (hm : Marks replicas set v) (hr : replicas.Nodup) (hv : v.Nodup)
    (hsub : ∀ n ∈ v, n ∈ replicas) (h : ∀ i a, replicas[i]? = some a → P i = Q a) :
    ((set.iter replicas.length).filter P).length = (v.filter Q).length := by
  rw [SlotSet.iter, List.filter_filter, ← length_filter_filter_mem hr hv hsub,
    List.filter_filter]
  refine length_filter_range replicas fun i a hia => ?_
  have hmem : set.contains i = decide (a ∈ v) := by
    rw [Bool.eq_iff_iff, hm i, decide_eq_true_eq]
    simp [hia]
  rw [h i a hia, hmem]

theorem Marks.count (hm : Marks replicas set v) (hr : replicas.Nodup) (hv : v.Nodup)
    (hsub : ∀ n ∈ v, n ∈ replicas) : set.count = v.length := by
  have hwithin : set.Within replicas.length := by
    intro i hi
    obtain ⟨n, -, h⟩ := (hm i).1 hi
    exact (List.getElem?_eq_some_iff.1 h).1
  rw [SlotSet.count_eq_length_iter hwithin]
  simpa using hm.length_iter_filter hr hv hsub (P := fun _ => true) (Q := fun _ => true)
    fun _ _ _ => rfl

theorem MembershipSet.voters_nodup (m : MembershipSet) : m.voters.Nodup :=
  m.voters_sorted.imp fun h => ne_of_lt h

theorem MembershipConfig.mem_replicaIds_of_halves {c : MembershipConfig} {h : MembershipSet}
    (hh : h ∈ c.halves) (hn : n ∈ h.voters) : n ∈ c.replicaIds := by
  rw [mem_replicaIds, containsReplica, Bool.or_eq_true]
  left
  cases c with
  | stable s =>
    obtain rfl : h = s := by simpa [halves] using hh
    simpa [containsVoter] using hn
  | joint j =>
    rcases (by simpa [halves] using hh : h = j.old ∨ h = j.new) with rfl | rfl
    · simp [containsVoter, hn]
    · simp [containsVoter, hn]

namespace MembershipIndex

/-- The index describes the membership as seen by the local node. -/
structure IsFor (idx : MembershipIndex) (m : MembershipConfig) (selfId : NodeId) : Prop where
  replicas : idx.replicas = m.replicaIds
  selfSlot : idx.selfSlot = slotOf idx.replicas selfId
  voters : match m with
    | .stable s => Marks idx.replicas idx.oldVoters s.voters ∧ idx.newVoters = none
    | .joint j => Marks idx.replicas idx.oldVoters j.old.voters ∧
        ∃ voters, idx.newVoters = some voters ∧ Marks idx.replicas voters j.new.voters

theorem new_isFor (m : MembershipConfig) (selfId : NodeId) : (new m selfId).IsFor m selfId := by
  have hn := m.replicaIds_nodup
  cases m with
  | stable s => exact ⟨rfl, rfl, contains_slotSetFor hn _, rfl⟩
  | joint j => exact ⟨rfl, rfl, contains_slotSetFor hn _, _, rfl, contains_slotSetFor hn _⟩

/-- The slot test on one half, whatever predicate on replicas the slots stand for. -/
theorem IsFor.half (hi : idx.IsFor m selfId) {h : MembershipSet} (hh : h ∈ m.halves)
    (hm : Marks idx.replicas set h.voters) {acks : List NodeId}
    (hP : ∀ i a, idx.replicas[i]? = some a → P i = decide (a ∈ acks)) :
    decide (majority set.count ≤ ((set.iter idx.replicas.length).filter P).length)
      = h.hasQuorum acks := by
  have hsub : ∀ n ∈ h.voters, n ∈ idx.replicas := by
    intro n hn
    rw [hi.replicas]
    exact MembershipConfig.mem_replicaIds_of_halves hh hn
  rw [hm.length_iter_filter idx.replicas_nodup h.voters_nodup hsub hP,
    hm.count idx.replicas_nodup h.voters_nodup hsub]
  rfl

/-- The replicas a slot set marks. -/
def nodes (idx : MembershipIndex) (acks : SlotSet) : List NodeId :=
  (acks.iter idx.replicas.length).filterMap (idx.replicas[·]?)

variable {acks : SlotSet}

theorem mem_nodes :
    n ∈ idx.nodes acks ↔ ∃ i, acks.contains i ∧ idx.replicas[i]? = some n := by
  simp only [nodes, SlotSet.iter, List.mem_filterMap, List.mem_filter, List.mem_range]
  constructor
  · rintro ⟨i, ⟨-, hi⟩, hn⟩
    exact ⟨i, hi, hn⟩
  · rintro ⟨i, hi, hn⟩
    exact ⟨i, ⟨(List.getElem?_eq_some_iff.1 hn).1, hi⟩, hn⟩

theorem mem_nodes_iff_contains {i : ℕ} (hn : idx.replicas[i]? = some n) :
    n ∈ idx.nodes acks ↔ acks.contains i := by
  rw [mem_nodes]
  refine ⟨?_, fun h => ⟨i, h, hn⟩⟩
  rintro ⟨j, hj, hjn⟩
  rwa [← Option.some_inj.1 (((slotOf_eq_some_iff idx.replicas_nodup).2 hjn).symm.trans
    ((slotOf_eq_some_iff idx.replicas_nodup).2 hn))]

/-- Both halves of the slot tests at once. -/
theorem IsFor.quorum (hi : idx.IsFor m selfId) {acks : List NodeId}
    (hP : ∀ i a, idx.replicas[i]? = some a → P i = decide (a ∈ acks)) :
    (decide (majority idx.oldVoters.count ≤
        ((idx.oldVoters.iter idx.replicas.length).filter P).length)
      && idx.newVoters.all fun voters => decide (majority voters.count ≤
        ((voters.iter idx.replicas.length).filter P).length)) = m.hasQuorum acks := by
  cases m with
  | stable s =>
    obtain ⟨hold, hnew⟩ := hi.voters
    rw [hi.half (h := s) (by simp [MembershipConfig.halves]) hold hP, hnew]
    simp [MembershipConfig.hasQuorum]
  | joint j =>
    obtain ⟨hold, voters, hnew, hmarks⟩ := hi.voters
    rw [hi.half (h := j.old) (by simp [MembershipConfig.halves]) hold hP, hnew, Option.all_some,
      hi.half (h := j.new) (by simp [MembershipConfig.halves]) hmarks hP]
    rfl

theorem hasQuorum_eq (m : MembershipConfig) (selfId : NodeId) (acks : List NodeId) :
    (new m selfId).hasQuorum acks = m.hasQuorum acks := by
  refine (new_isFor m selfId).quorum fun i a ha => ?_
  rw [Bool.eq_iff_iff, contains_slotSetFor (new m selfId).replicas_nodup, decide_eq_true_eq]
  simp [ha]

theorem hasQuorumSlotsWithSelf_eq (hi : idx.IsFor m selfId) (acks : SlotSet) :
    idx.hasQuorumSlotsWithSelf acks = m.hasQuorum (selfId :: idx.nodes acks) := by
  refine hi.quorum fun i a ha => ?_
  have hself : some i = idx.selfSlot ↔ a = selfId := by
    rw [hi.selfSlot, eq_comm, slotOf_eq_some_iff idx.replicas_nodup, ha, Option.some_inj]
  rw [Bool.eq_iff_iff, Bool.or_eq_true, decide_eq_true_eq, decide_eq_true_eq, hself,
    List.mem_cons, mem_nodes_iff_contains ha]
  tauto

end MembershipIndex

/-! ## The reuse test of an index -/

theorem mem_of_sortedUnionMatches {t l r : List NodeId} (h : sortedUnionMatches t l r)
    (n : NodeId) : n ∈ t ↔ n ∈ l ∨ n ∈ r := by
  induction t generalizing l r with
  | nil =>
    simp only [sortedUnionMatches, Bool.and_eq_true, List.isEmpty_iff] at h
    simp [h.1, h.2]
  | cons a ts ih =>
    cases l with
    | nil =>
      cases r with
      | nil => simp [sortedUnionMatches] at h
      | cons b rs =>
        simp only [sortedUnionMatches, Bool.and_eq_true, decide_eq_true_eq] at h
        simp [ih h.2, h.1]
    | cons b ls =>
      cases r with
      | nil =>
        simp only [sortedUnionMatches, Bool.and_eq_true, decide_eq_true_eq] at h
        simp [ih h.2, h.1]
      | cons c rs =>
        simp only [sortedUnionMatches] at h
        split_ifs at h with hle
        all_goals
          simp only [Bool.and_eq_true, decide_eq_true_eq] at h
          simp only [List.mem_cons, ih h.2, h.1]
          tauto

theorem sorted_of_sortedUnionMatches {t l r : List NodeId} (h : sortedUnionMatches t l r)
    (hl : l.Pairwise (· < ·)) (hr : r.Pairwise (· < ·)) (hd : ∀ n ∈ r, n ∉ l) :
    t.Pairwise (· < ·) := by
  induction t generalizing l r with
  | nil => exact List.Pairwise.nil
  | cons a ts ih =>
    -- every id still to be merged lies above the head just consumed
    have key : ∀ {l' r' : List NodeId}, sortedUnionMatches ts l' r' → (∀ n ∈ l', a < n) →
        (∀ n ∈ r', a < n) → l'.Pairwise (· < ·) → r'.Pairwise (· < ·) → (∀ n ∈ r', n ∉ l') →
        (a :: ts).Pairwise (· < ·) := by
      intro l' r' hm hal har hl' hr' hd'
      refine List.pairwise_cons.2 ⟨fun n hn => ?_, ih hm hl' hr' hd'⟩
      exact ((mem_of_sortedUnionMatches hm n).1 hn).elim (hal n) (har n)
    cases l with
    | nil =>
      cases r with
      | nil => simp [sortedUnionMatches] at h
      | cons c rs =>
        simp only [sortedUnionMatches, Bool.and_eq_true, decide_eq_true_eq] at h
        obtain ⟨rfl, h⟩ := h
        obtain ⟨hc, hrs⟩ := List.pairwise_cons.1 hr
        exact key h (by simp) hc hl hrs (by simp)
    | cons b ls =>
      obtain ⟨hb, hls⟩ := List.pairwise_cons.1 hl
      cases r with
      | nil =>
        simp only [sortedUnionMatches, Bool.and_eq_true, decide_eq_true_eq] at h
        obtain ⟨rfl, h⟩ := h
        exact key h hb (by simp) hls hr (by simp)
      | cons c rs =>
        obtain ⟨hc, hrs⟩ := List.pairwise_cons.1 hr
        have hcb : c ≠ b := fun e => hd c (by simp) (by simp [e])
        simp only [sortedUnionMatches] at h
        split_ifs at h with hle <;> simp only [Bool.and_eq_true, decide_eq_true_eq] at h <;>
          obtain ⟨rfl, h⟩ := h
        · have hlt : a < c := lt_of_le_of_ne hle (Ne.symm hcb)
          refine key h hb (fun n hn => ?_) hls hr fun n hn hnl => hd n hn (by simp [hnl])
          rcases List.mem_cons.1 hn with rfl | hn
          · exact hlt
          · exact lt_trans hlt (hc n hn)
        · have hlt : a < b := not_le.1 hle
          refine key h (fun n hn => ?_) hc hl hrs fun n hn => hd n (by simp [hn])
          rcases List.mem_cons.1 hn with rfl | hn
          · exact hlt
          · exact lt_trans hlt (hb n hn)

/-- Strictly sorted lists with the same members are equal. -/
theorem eq_of_sorted_of_mem {a b : List NodeId} (ha : a.Pairwise (· < ·))
    (hb : b.Pairwise (· < ·)) (h : ∀ n, n ∈ a ↔ n ∈ b) : a = b := by
  have hperm : a.Perm b :=
    (List.perm_ext_iff_of_nodup (ha.imp fun h => ne_of_lt h) (hb.imp fun h => ne_of_lt h)).2 h
  exact hperm.eq_of_pairwise (fun x y _ _ hxy hyx => absurd hxy (lt_asymm hyx)) ha hb

theorem marks_of_matches {members : List NodeId} (hw : set.Within replicas.length)
    (h : slotSetMatchesMembers set replicas members) : Marks replicas set members := by
  have hall : ∀ i n, replicas[i]? = some n → (set.contains i ↔ n ∈ members) := by
    intro i n hn
    have := List.all_eq_true.1 h (n, i) (List.mk_mem_zipIdx_iff_getElem?.2 hn)
    rw [beq_iff_eq.1 this, decide_eq_true_eq]
  intro i
  constructor
  · intro hi
    have hn : replicas[i]? = some (replicas.get ⟨i, hw i hi⟩) :=
      List.getElem?_eq_getElem (hw i hi)
    exact ⟨_, (hall i _ hn).1 hi, hn⟩
  · rintro ⟨n, hn, hin⟩
    exact (hall i n hin).2 hn

theorem MembershipIndex.isFor_of_matches (h : idx.matchesMembership m selfId) :
    idx.IsFor m selfId := by
  cases m with
  | joint j => simp [matchesMembership] at h
  | stable s =>
    simp only [matchesMembership, Bool.and_eq_true, Option.isNone_iff_eq_none,
      decide_eq_true_eq] at h
    obtain ⟨⟨⟨⟨hnew, hself⟩, hunion⟩, hold⟩, -⟩ := h
    refine ⟨?_, hself, marks_of_matches idx.oldVoters_within hold, hnew⟩
    refine eq_of_sorted_of_mem
      (sorted_of_sortedUnionMatches hunion s.voters_sorted s.learners_sorted s.disjoint)
      (idSet_sorted _) fun n => ?_
    rw [mem_of_sortedUnionMatches hunion, MembershipConfig.replicaIds, MembershipSet.replicaIds,
      mem_unionNodeIds]

/-! ## Acknowledgements across memberships -/

/-- `AcknowledgementSet`. -/
structure AcknowledgementSet where
  index : MembershipIndex := default
  acks : SlotSet := SlotSet.empty 0
deriving DecidableEq

namespace AcknowledgementSet

/-- `AcknowledgementSet::new`. -/
def new (m : MembershipConfig) (selfId : NodeId) : AcknowledgementSet :=
  let index := MembershipIndex.new m selfId
  { index := index, acks := SlotSet.empty index.replicas.length }

/-- `AcknowledgementSet::refresh`: carry the marks over to the slots of the new membership. -/
def refresh (a : AcknowledgementSet) (m : MembershipConfig) (selfId : NodeId) :
    AcknowledgementSet :=
  if a.index.matchesMembership m selfId then a
  else if a.index = MembershipIndex.new m selfId then a
  else
    { index := MembershipIndex.new m selfId
      acks := slotSetFor (MembershipIndex.new m selfId).replicas (a.index.nodes a.acks) }

/-- `AcknowledgementSet::insert`. -/
def insert (a : AcknowledgementSet) (n : NodeId) (m : MembershipConfig) (selfId : NodeId) :
    AcknowledgementSet :=
  let a := a.refresh m selfId
  { a with acks := insertNode a.index.replicas a.acks n }

/-- `AcknowledgementSet::has_quorum_with_self`; the refreshed set stays in place. -/
def hasQuorumWithSelf (a : AcknowledgementSet) (m : MembershipConfig) (selfId : NodeId) :
    Bool × AcknowledgementSet :=
  let a := a.refresh m selfId
  (a.index.hasQuorumSlotsWithSelf a.acks, a)

/-- `AcknowledgementSet::clear`. -/
def clear (a : AcknowledgementSet) : AcknowledgementSet :=
  { a with acks := SlotSet.empty a.index.replicas.length }

/-- The replicas that have acknowledged. -/
def nodes (a : AcknowledgementSet) : List NodeId := a.index.nodes a.acks

theorem mem_nodes_of_slots_empty {k : ℕ} :
    n ∉ (AcknowledgementSet.mk idx (SlotSet.empty k)).nodes := by
  simp [nodes, MembershipIndex.mem_nodes]

@[simp] theorem nodes_new (m : MembershipConfig) (selfId : NodeId) : (new m selfId).nodes = [] :=
  List.eq_nil_iff_forall_not_mem.2 fun _ => mem_nodes_of_slots_empty

@[simp] theorem nodes_clear (a : AcknowledgementSet) : a.clear.nodes = [] :=
  List.eq_nil_iff_forall_not_mem.2 fun _ => mem_nodes_of_slots_empty

@[simp] theorem nodes_default : (AcknowledgementSet.mk default (SlotSet.empty 0)).nodes = [] :=
  List.eq_nil_iff_forall_not_mem.2 fun _ => mem_nodes_of_slots_empty

theorem refresh_isFor (a : AcknowledgementSet) (m : MembershipConfig) (selfId : NodeId) :
    (a.refresh m selfId).index.IsFor m selfId := by
  unfold refresh
  split_ifs with hmatch heq
  · exact MembershipIndex.isFor_of_matches hmatch
  · rw [heq]
    exact MembershipIndex.new_isFor m selfId
  · exact MembershipIndex.new_isFor m selfId

variable {a : AcknowledgementSet}

theorem mem_replicas_of_mem_nodes (h : n ∈ a.nodes) :
    n ∈ a.index.replicas := by
  obtain ⟨i, -, hi⟩ := MembershipIndex.mem_nodes.1 h
  exact List.mem_of_getElem? hi

theorem mem_nodes_refresh :
    n ∈ (a.refresh m selfId).nodes ↔ n ∈ a.nodes ∧ n ∈ m.replicaIds := by
  have hrep := (refresh_isFor a m selfId).replicas
  have hkeep : a.refresh m selfId = a → (n ∈ (a.refresh m selfId).nodes ↔
      n ∈ a.nodes ∧ n ∈ m.replicaIds) := by
    intro e
    rw [e] at hrep ⊢
    exact ⟨fun h => ⟨h, hrep ▸ mem_replicas_of_mem_nodes h⟩, And.left⟩
  by_cases hsame : a.refresh m selfId = a
  · exact hkeep hsame
  · have hnew : a.refresh m selfId = ⟨MembershipIndex.new m selfId,
        slotSetFor (MembershipIndex.new m selfId).replicas (a.index.nodes a.acks)⟩ := by
      unfold refresh at hsame ⊢
      split_ifs at hsame ⊢ with hmatch heq
      · exact absurd rfl hsame
      · exact absurd rfl hsame
      · rfl
    rw [hnew] at hrep ⊢
    rw [nodes, MembershipIndex.mem_nodes]
    simp only [contains_slotSetFor (MembershipIndex.new m selfId).replicas_nodup]
    constructor
    · rintro ⟨i, ⟨n', hn', hi'⟩, hi⟩
      obtain rfl := Option.some_inj.1 (hi'.symm.trans hi)
      exact ⟨hn', hrep ▸ List.mem_of_getElem? hi⟩
    · rintro ⟨hn, hm⟩
      rw [← hrep] at hm
      obtain ⟨i, hi⟩ := List.getElem?_of_mem hm
      exact ⟨i, ⟨n, hn, hi⟩, hi⟩

theorem mem_nodes_insert {k : NodeId} :
    n ∈ (a.insert k m selfId).nodes ↔ n ∈ m.replicaIds ∧ (n = k ∨ n ∈ a.nodes) := by
  have hrep := (refresh_isFor a m selfId).replicas
  have hnodes := @mem_nodes_refresh n selfId m a
  rw [nodes, MembershipIndex.mem_nodes] at hnodes ⊢
  simp only [insert, contains_insertNode (a.refresh m selfId).index.replicas_nodup]
  constructor
  · rintro ⟨i, hi | hi, hn⟩
    · obtain rfl := Option.some_inj.1 (hi.symm.trans hn)
      exact ⟨hrep ▸ List.mem_of_getElem? hn, .inl rfl⟩
    · obtain ⟨h1, h2⟩ := hnodes.1 ⟨i, hi, hn⟩
      exact ⟨h2, .inr h1⟩
  · rintro ⟨hm, rfl | hn⟩
    · rw [← hrep] at hm
      obtain ⟨i, hi⟩ := List.getElem?_of_mem hm
      exact ⟨i, .inl hi, hi⟩
    · obtain ⟨i, hi, hin⟩ := hnodes.2 ⟨hn, hm⟩
      exact ⟨i, .inr hi, hin⟩

/-- Quorum tests look at the members only. -/
theorem hasQuorum_congr {a b : List NodeId} (h : ∀ n ∈ m.replicaIds, (n ∈ a ↔ n ∈ b)) :
    m.hasQuorum a = m.hasQuorum b := by
  have hhalf : ∀ s ∈ m.halves, s.hasQuorum a = s.hasQuorum b := by
    intro s hs
    have hfilter : s.voters.filter (· ∈ a) = s.voters.filter (· ∈ b) := by
      refine List.filter_congr fun n hn => ?_
      rw [decide_eq_decide]
      exact h n (MembershipConfig.mem_replicaIds_of_halves hs hn)
    rw [MembershipSet.hasQuorum, MembershipSet.hasQuorum, hfilter]
  rw [Bool.eq_iff_iff, MembershipConfig.hasQuorum_iff, MembershipConfig.hasQuorum_iff]
  exact forall₂_congr fun s hs => by rw [hhalf s hs]

theorem hasQuorumWithSelf_eq (a : AcknowledgementSet) (m : MembershipConfig) (selfId : NodeId) :
    (a.hasQuorumWithSelf m selfId).1 = m.hasQuorum (selfId :: a.nodes) := by
  rw [hasQuorumWithSelf, MembershipIndex.hasQuorumSlotsWithSelf_eq (refresh_isFor a m selfId)]
  refine hasQuorum_congr fun n hn => ?_
  have := @mem_nodes_refresh n selfId m a
  simp only [List.mem_cons, nodes] at this ⊢
  tauto

end AcknowledgementSet

end Rafter
