import Mathlib

/-!
# Ordered tables

An ordered map as its rows in key order, the way an ordered-tree map iterates. `get?` reads the row
of a key; `insert` replaces it or puts it in order; `erase` takes it out.

Results:

* `get?_insert`, `get?_erase`: a write changes the row of its own key and no other;
* `mem_of_mem_insert`: the rows of a written table.
-/

variable {K V : Type}

/-- The rows of an ordered map. -/
abbrev Table (K V : Type) := List (K × V)

namespace Table

section Read

variable [DecidableEq K]

/-- The value of a key. -/
def get? (t : Table K V) (k : K) : Option V := (t.find? fun row => row.1 = k).map Prod.snd

/-- The key has a value. -/
def contains (t : Table K V) (k : K) : Bool := (t.get? k).isSome

/-- Remove a key. -/
def erase (t : Table K V) (k : K) : Table K V := t.filter fun row => row.1 ≠ k

/-- The keys in order. -/
def keys (t : Table K V) : List K := t.map Prod.fst

@[simp] theorem get?_nil (k : K) : get? ([] : Table K V) k = none := rfl

theorem get?_cons (row : K × V) (t : Table K V) (k : K) :
    get? (row :: t) k = if row.1 = k then some row.2 else get? t k := by
  unfold get?
  by_cases h : row.1 = k <;> simp [h]

theorem contains_cons (row : K × V) (t : Table K V) (k : K) :
    contains (row :: t) k = (decide (row.1 = k) || contains t k) := by
  unfold contains
  rw [get?_cons]
  by_cases h : row.1 = k <;> simp [h]

theorem contains_iff {t : Table K V} {k : K} : t.contains k = true ↔ ∃ row ∈ t, row.1 = k := by
  induction t with
  | nil => simp [contains]
  | cons row rest ih => simp [contains_cons, ih]

end Read

section Write

variable [LinearOrder K]

/-- Put a row in key order, in place of the one with the same key. -/
def insert (t : Table K V) (k : K) (v : V) : Table K V :=
  match t with
  | [] => [(k, v)]
  | row :: rest =>
    if k < row.1 then (k, v) :: row :: rest
    else if k = row.1 then (k, v) :: rest
    else row :: insert rest k v

theorem get?_insert (t : Table K V) (k j : K) (v : V) :
    get? (insert t k v) j = if j = k then some v else get? t j := by
  induction t with
  | nil =>
    rw [insert, get?_cons]
    simp only [get?_nil, eq_comm]
  | cons row rest ih =>
    rw [insert]
    split
    · rw [get?_cons]
      simp only [eq_comm]
    · split
      · rename_i heq
        rw [get?_cons, get?_cons, ← heq]
        by_cases hj : k = j <;> simp [hj, eq_comm]
      · rename_i hne
        rw [get?_cons, get?_cons, ih]
        by_cases hj : row.1 = j
        · have hjk : j ≠ k := fun h => hne (by rw [hj, h])
          simp [hj, hjk]
        · simp [hj]

theorem mem_of_mem_insert {t : Table K V} {k : K} {v : V} {row : K × V} (h : row ∈ t.insert k v) :
    row = (k, v) ∨ row ∈ t := by
  induction t with
  | nil => exact .inl (List.mem_singleton.1 h)
  | cons first rest ih =>
    rw [insert] at h
    split at h
    · exact List.mem_cons.1 h
    · split at h
      · exact (List.mem_cons.1 h).imp_right (List.mem_cons_of_mem _)
      · rcases List.mem_cons.1 h with rfl | h
        · exact .inr List.mem_cons_self
        · exact (ih h).imp_right (List.mem_cons_of_mem _)

/-- The rows stand in strictly increasing key order. -/
def Ordered (t : Table K V) : Prop := t.Pairwise fun a b => a.1 < b.1

theorem Ordered.nil : Ordered ([] : Table K V) := List.Pairwise.nil

theorem Ordered.insert {t : Table K V} (h : t.Ordered) (k : K) (v : V) :
    Ordered (t.insert k v) := by
  induction t with
  | nil => exact List.pairwise_singleton ..
  | cons row rest ih =>
    obtain ⟨hrow, hrest⟩ := List.pairwise_cons.1 h
    rw [Table.insert]
    split
    · rename_i hlt
      refine List.pairwise_cons.2 ⟨?_, h⟩
      intro other hother
      rcases List.mem_cons.1 hother with rfl | hother
      · exact hlt
      · exact hlt.trans (hrow other hother)
    · rename_i hnlt
      split
      · rename_i heq
        exact List.pairwise_cons.2 ⟨fun other hother => heq ▸ hrow other hother, hrest⟩
      · rename_i hne
        refine List.pairwise_cons.2 ⟨?_, ih hrest⟩
        intro other hother
        rcases mem_of_mem_insert hother with rfl | hother
        · exact lt_of_le_of_ne (not_lt.1 hnlt) (Ne.symm hne)
        · exact hrow other hother

theorem Ordered.length_insert {t : Table K V} (h : t.Ordered) (k : K) (v : V) :
    (t.insert k v).length = if t.contains k then t.length else t.length + 1 := by
  induction t with
  | nil => rfl
  | cons row rest ih =>
    obtain ⟨hrow, hrest⟩ := List.pairwise_cons.1 h
    rw [Table.insert, contains_cons]
    split
    · rename_i hlt
      have habsent : contains rest k = false := by
        rw [Bool.eq_false_iff, ne_eq, contains_iff]
        rintro ⟨other, hother, rfl⟩
        exact lt_asymm hlt (hrow other hother)
      simp [hlt.ne', habsent]
    · split
      · rename_i heq
        simp [heq]
      · rename_i hne
        rw [List.length_cons, ih hrest]
        simp only [Ne.symm hne, decide_false, Bool.false_or, List.length_cons]
        split <;> rfl

theorem get?_erase (t : Table K V) (k j : K) :
    get? (erase t k) j = if j = k then none else get? t j := by
  induction t with
  | nil => simp [erase]
  | cons row rest ih =>
    unfold erase at ih ⊢
    rw [List.filter_cons]
    by_cases hrow : row.1 = k
    · simp only [hrow, ne_eq, not_true_eq_false, decide_false, Bool.false_eq_true, if_false, ih,
        get?_cons]
      by_cases hj : j = k
      · simp [hj]
      · simp [hj, Ne.symm hj]
    · simp only [ne_eq, hrow, not_false_eq_true, decide_true, if_true, get?_cons, ih]
      by_cases hj : row.1 = j
      · have hjk : j ≠ k := fun h => hrow (by rw [hj, h])
        simp [hj, hjk]
      · simp [hj]

end Write

end Table
