import Mathlib.Algebra.Ring.Nat
import Mathlib.Data.List.Sort

/-!
# Identities, terms, indexes and membership sets

`crates/rafter/src/types/id.rs`, `types/membership.rs` and `types/membership/validate.rs`.

Ids are natural numbers under the source's names; terms, log indexes, configuration ids and
sequence numbers, on which the kernel does arithmetic, are plain `ℕ`. Where the source saturates
or refuses at the top of its 64-bit range the bound `u64Max` is explicit (`checkedNext`,
`saturatingAdd`); where a release build wraps around and it matters, so is that (`wrapping`).

A `MembershipSet` is only built by `MembershipSet.new`, and carries what its checks establish.

Results:

* `validateUnique_ok_iff`: the sorting check accepts exactly the duplicate-free lists;
* `MembershipSet.new_ok_iff`: a set is built exactly from duplicate-free, disjoint halves with
  at least one voter;
* `MembershipSet.hasQuorum_inter`: two quorums of one set share a voter.
-/

namespace Rafter

variable {l : List NodeId} {m : NodeId}

/-- `NodeId`. -/
abbrev NodeId := ℕ
/-- `LocalProposalId`. -/
abbrev LocalProposalId := ℕ
/-- `ReadId`. -/
abbrev ReadId := ℕ
/-- `SnapshotTransferId`. -/
abbrev SnapshotTransferId := ℕ

/-- An application payload (`SharedPayload`): the bytes of its view. -/
abbrev Payload := List UInt8

/-- `u64::MAX`. -/
def u64Max : ℕ := 2 ^ 64 - 1

/-- `u64::saturating_add` and `usize::saturating_add`. -/
def saturatingAdd (a b : ℕ) : ℕ := min (a + b) u64Max

/-- A sum of `u64` values in a release build. -/
def wrapping (sum : ℕ) : ℕ := sum % (u64Max + 1)

theorem wrapping_of_le {sum : ℕ} (h : sum ≤ u64Max) : wrapping sum = sum :=
  Nat.mod_eq_of_lt (Nat.lt_succ_of_le h)

/-- `Term::checked_next`: no term follows `Term::MAX`. -/
def checkedNext (term : ℕ) : Option ℕ :=
  if term < u64Max then some (term + 1) else none

theorem checkedNext_spec {t u : ℕ} (h : checkedNext t = some u) : u = t + 1 ∧ u ≤ u64Max := by
  unfold checkedNext at h
  split_ifs at h with hlt
  obtain rfl := Option.some.inj h
  exact ⟨rfl, hlt⟩

theorem checkedNext_eq_some {t u : ℕ} (h : checkedNext t = some u) : u = t + 1 :=
  (checkedNext_spec h).1

/-! ## Sorted id lists -/

/-- A `BTreeSet<NodeId>` insertion, on the strictly increasing list of the set's members. -/
def insertId (n : NodeId) : List NodeId → List NodeId
  | [] => [n]
  | m :: rest => if n < m then n :: m :: rest else if n = m then m :: rest
      else m :: insertId n rest

/-- Collecting ids into a `BTreeSet<NodeId>`. -/
def idSet (ids : List NodeId) : List NodeId := ids.foldr insertId []

@[simp] theorem mem_insertId {n : NodeId} : m ∈ insertId n l ↔ m = n ∨ m ∈ l := by
  induction l with
  | nil => simp [insertId]
  | cons a rest ih =>
    simp only [insertId]
    split_ifs with hlt heq
    · simp
    · subst heq; simp
    · simp only [List.mem_cons, ih]; tauto

theorem insertId_sorted {n : NodeId} (h : l.Pairwise (· < ·)) :
    (insertId n l).Pairwise (· < ·) := by
  induction l with
  | nil => simp [insertId]
  | cons a rest ih =>
    rw [List.pairwise_cons] at h
    simp only [insertId]
    split_ifs with hlt heq
    · refine List.pairwise_cons.2 ⟨fun b hb => ?_, List.pairwise_cons.2 h⟩
      rcases List.mem_cons.1 hb with rfl | hb
      · exact hlt
      · exact lt_trans hlt (h.1 b hb)
    · exact List.pairwise_cons.2 h
    · refine List.pairwise_cons.2 ⟨fun b hb => ?_, ih h.2⟩
      rcases mem_insertId.1 hb with rfl | hb
      · exact lt_of_le_of_ne (not_lt.1 hlt) (Ne.symm heq)
      · exact h.1 b hb

@[simp] theorem mem_idSet : m ∈ idSet l ↔ m ∈ l := by
  induction l with
  | nil => simp [idSet]
  | cons a rest ih =>
    have hfold : idSet (a :: rest) = insertId a (idSet rest) := rfl
    rw [hfold, mem_insertId, ih, List.mem_cons]

theorem idSet_sorted (l : List NodeId) : (idSet l).Pairwise (· < ·) := by
  induction l with
  | nil => exact List.Pairwise.nil
  | cons a rest ih => exact insertId_sorted ih

/-- `union_node_ids`. -/
def unionNodeIds (left right : List NodeId) : List NodeId := idSet (left ++ right)

@[simp] theorem mem_unionNodeIds {r : List NodeId} : m ∈ unionNodeIds l r ↔ m ∈ l ∨ m ∈ r := by
  simp [unionNodeIds]

/-- `majority`. -/
def majority (voterCount : ℕ) : ℕ := voterCount / 2 + 1

/-! ## Membership validation -/

/-- `MembershipValidationError`. -/
inductive MembershipValidationError where
  | emptyVoters
  | duplicateVoter (nodeId : NodeId)
  | duplicateLearner (nodeId : NodeId)
  | learnerVoterOverlap (nodeId : NodeId)
deriving DecidableEq

/-- `DuplicateKind`. -/
inductive DuplicateKind where
  | voter
  | learner

/-- The error `validate_unique` reports for a repeated id. -/
def DuplicateKind.error : DuplicateKind → NodeId → MembershipValidationError
  | .voter, n => .duplicateVoter n
  | .learner, n => .duplicateLearner n

/-- The scan of `validate_unique`: the first id equal to the one before it. -/
def firstDuplicate : List NodeId → Option NodeId
  | a :: b :: rest => if a = b then some b else firstDuplicate (b :: rest)
  | _ => none

theorem firstDuplicate_eq_none_iff (h : l.Pairwise (· ≤ ·)) :
    firstDuplicate l = none ↔ l.Pairwise (· < ·) := by
  induction l with
  | nil => simp [firstDuplicate]
  | cons a rest ih =>
    cases rest with
    | nil => simp [firstDuplicate]
    | cons b rest =>
      rw [List.pairwise_cons] at h
      have hab : a ≤ b := h.1 b (List.mem_cons_self ..)
      simp only [firstDuplicate]
      split_ifs with heq
      · simp [heq]
      · rw [ih h.2]
        constructor
        · intro hs
          refine List.pairwise_cons.2 ⟨fun c hc => ?_, hs⟩
          rcases List.mem_cons.1 hc with rfl | hc
          · exact lt_of_le_of_ne hab heq
          · exact lt_of_le_of_lt hab ((List.pairwise_cons.1 hs).1 c hc)
        · exact fun hs => (List.pairwise_cons.1 hs).2

/-- `validate_unique`: sort, then refuse the first repeated id. -/
def validateUnique (nodes : List NodeId) (kind : DuplicateKind) :
    Except MembershipValidationError (List NodeId) :=
  match firstDuplicate (nodes.insertionSort (· ≤ ·)) with
  | some n => .error (kind.error n)
  | none => .ok (nodes.insertionSort (· ≤ ·))

theorem validateUnique_ok_iff {nodes sorted : List NodeId} {kind : DuplicateKind} :
    validateUnique nodes kind = .ok sorted ↔
      sorted = nodes.insertionSort (· ≤ ·) ∧ sorted.Pairwise (· < ·) := by
  have hle := List.pairwise_insertionSort (· ≤ ·) nodes
  unfold validateUnique
  cases hdup : firstDuplicate (nodes.insertionSort (· ≤ ·)) with
  | none =>
    simp only [Except.ok.injEq]
    constructor
    · rintro rfl
      exact ⟨rfl, (firstDuplicate_eq_none_iff hle).1 hdup⟩
    · exact fun h => h.1.symm
  | some n =>
    refine iff_of_false (by simp) ?_
    rintro ⟨rfl, hlt⟩
    rw [(firstDuplicate_eq_none_iff hle).2 hlt] at hdup
    exact absurd hdup (by simp)

/-- One membership half-configuration: sorted voters and learners, at least one voter, and no
node in both halves. -/
structure MembershipSet where
  voters : List NodeId
  learners : List NodeId
  voters_sorted : voters.Pairwise (· < ·)
  learners_sorted : learners.Pairwise (· < ·)
  voters_ne_nil : voters ≠ []
  disjoint : ∀ n ∈ learners, n ∉ voters
deriving DecidableEq

namespace MembershipSet

@[ext] theorem ext' {a b : MembershipSet} (hv : a.voters = b.voters)
    (hl : a.learners = b.learners) : a = b := by
  cases a; cases b; simp_all

/-- `MembershipSet::new`. -/
def new (voters learners : List NodeId) : Except MembershipValidationError MembershipSet :=
  match hv : validateUnique voters .voter with
  | .error e => .error e
  | .ok vs =>
    if hne : vs = [] then .error .emptyVoters else
    match hl : validateUnique learners .learner with
    | .error e => .error e
    | .ok ls =>
      match hfind : ls.find? (fun n => n ∈ vs) with
      | some n => .error (.learnerVoterOverlap n)
      | none => .ok
        { voters := vs
          learners := ls
          voters_sorted := (validateUnique_ok_iff.1 hv).2
          learners_sorted := (validateUnique_ok_iff.1 hl).2
          voters_ne_nil := hne
          disjoint := fun n hn => by simpa using List.find?_eq_none.1 hfind n hn }

/-- `MembershipSet::quorum_size`. -/
def quorumSize (m : MembershipSet) : ℕ := majority m.voters.length

/-- `MembershipSet::has_quorum`, on the members of the acknowledgement set. -/
def hasQuorum (m : MembershipSet) (acks : List NodeId) : Bool :=
  decide (m.quorumSize ≤ (m.voters.filter (· ∈ acks)).length)

/-- `MembershipSet::replica_ids`. -/
def replicaIds (m : MembershipSet) : List NodeId := unionNodeIds m.voters m.learners

theorem new_ok_iff {voters learners : List NodeId} {m : MembershipSet} :
    new voters learners = .ok m ↔
      m.voters = voters.insertionSort (· ≤ ·) ∧ m.learners = learners.insertionSort (· ≤ ·) := by
  have hvs := @validateUnique_ok_iff voters m.voters .voter
  have hls := @validateUnique_ok_iff learners m.learners .learner
  unfold new
  split
  · rename_i e hv
    simp_all [m.voters_sorted]
  · rename_i vs hv
    split_ifs with hne
    · have hnil := m.voters_ne_nil
      simp_all [m.voters_sorted]
    · split
      · rename_i e hl
        simp_all [m.voters_sorted, m.learners_sorted]
      · rename_i ls hl
        split
        · rename_i n hfind
          have hmem := List.mem_of_find?_eq_some hfind
          have hin := List.find?_some hfind
          have hdisj := m.disjoint
          refine iff_of_false (by simp) ?_
          rintro ⟨h1, h2⟩
          have e1 := (validateUnique_ok_iff.1 hv).1
          have e2 := (validateUnique_ok_iff.1 hl).1
          rw [← h2] at e2
          rw [← h1] at e1
          subst e1 e2
          exact hdisj n hmem (by simpa using hin)
        · have e1 := (validateUnique_ok_iff.1 hv).1
          have e2 := (validateUnique_ok_iff.1 hl).1
          subst e1 e2
          constructor
          · intro h
            rw [← Except.ok.inj h]
            exact ⟨rfl, rfl⟩
          · rintro ⟨h1, h2⟩
            exact congrArg _ (MembershipSet.ext' h1.symm h2.symm)

/-- Two majorities of one list share a position. -/
theorem exists_of_majorities {p q : NodeId → Bool} {l : List NodeId}
    (hp : majority l.length ≤ (l.filter p).length)
    (hq : majority l.length ≤ (l.filter q).length) : ∃ n ∈ l, p n ∧ q n := by
  by_contra hno
  push Not at hno
  have hsum : ∀ l' : List NodeId, (∀ n ∈ l', p n → ¬ q n) →
      (l'.filter p).length + (l'.filter q).length ≤ l'.length := by
    intro l' hd
    induction l' with
    | nil => simp
    | cons a rest ih =>
      have hrest := ih fun n hn => hd n (List.mem_cons_of_mem _ hn)
      have ha := hd a (List.mem_cons_self ..)
      cases hpa : p a <;> cases hqa : q a <;>
        simp only [List.filter_cons, hpa, hqa, List.length_cons, if_true, if_false,
          Bool.false_eq_true] at hrest ⊢
      · omega
      · omega
      · omega
      · exact absurd hqa (ha hpa)
  have h := hsum l fun n hn hpn => hno n hn hpn
  unfold majority at hp hq
  omega

theorem hasQuorum_inter {m m' : MembershipSet} (hv : m.voters = m'.voters) {a b : List NodeId}
    (ha : m.hasQuorum a) (hb : m'.hasQuorum b) : ∃ n ∈ m.voters, n ∈ a ∧ n ∈ b := by
  have ha := of_decide_eq_true ha
  have hb := of_decide_eq_true hb
  rw [quorumSize, ← hv] at hb
  simpa using exists_of_majorities ha hb

theorem hasQuorum_mono {m : MembershipSet} {a b : List NodeId} (hab : ∀ n ∈ a, n ∈ b)
    (ha : m.hasQuorum a) : m.hasQuorum b := by
  simp only [hasQuorum, decide_eq_true_eq] at ha ⊢
  refine le_trans ha ((List.monotone_filter_right m.voters fun n hn => ?_).length_le)
  simpa using hab n (by simpa using hn)

end MembershipSet

/-! ## Memberships of the runs that are evaluated -/

/-- The voters 1, 2 and 3. -/
def threeVoters : MembershipSet := ⟨[1, 2, 3], [], by decide, by decide, by decide, by decide⟩

/-- The voter 1. -/
def oneVoter : MembershipSet := ⟨[1], [], by decide, by decide, by decide, by decide⟩

end Rafter
