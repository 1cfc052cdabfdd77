import Mathlib.Data.Finset.Dedup
import Mathlib.Data.Fintype.Basic
import Mathlib.Data.List.FinRange

/-!
# Orderings of finitely many operations

A machine that may have several next states for an operation, and operations that a relation
`before` partly orders. `Completable before step S s` says that the operations of the finite set `S`
can be put in an order that respects `before` and that the machine can follow from the state `s`.

Results:

* `completable_iff`: the operations of a set can be completed when one of them comes before none of
  the others and the rest can be completed from one of its next states;
* `completable_univ_iff`: over the positions of a list, completing all of them is reordering the
  list.
-/

namespace Linearization

variable {σ α ι : Type*}

/-- The machine can follow the operations one after the other, with one next state chosen for
each. -/
def Runs (step : σ → α → Set σ) : σ → List α → Prop
  | _, [] => True
  | s, a :: l => ∃ t ∈ step s a, Runs step t l

/-- Whatever `before` puts first stands first. -/
def Respects (before : α → α → Prop) (l : List α) : Prop :=
  ∀ (p q : ℕ) (a b : α), l[p]? = some a → l[q]? = some b → before a b → p < q

/-- An order of the operations of `S` respects `before` and can be followed from `s`. -/
def Completable (before : ι → ι → Prop) (step : σ → ι → Set σ) (S : Finset ι) (s : σ) : Prop :=
  ∃ l : List ι, l.Nodup ∧ (∀ i, i ∈ l ↔ i ∈ S) ∧ Respects before l ∧ Runs step s l

variable {before : α → α → Prop} {step : σ → α → Set σ} {s : σ} {a : α} {l : List α}

theorem respects_nil : Respects before [] := by
  intro p q a b hp
  simp at hp

theorem respects_cons :
    Respects before (a :: l) ↔ (∀ b ∈ a :: l, ¬before b a) ∧ Respects before l := by
  constructor
  · intro h
    refine ⟨?_, ?_⟩
    · intro b hb hba
      obtain ⟨p, hp⟩ := List.getElem?_of_mem hb
      have := h p 0 b a hp rfl hba
      omega
    · intro p q b c hp hq hbc
      have := h (p + 1) (q + 1) b c hp hq hbc
      omega
  · rintro ⟨hfirst, hrest⟩ p q b c hp hq hbc
    cases q with
    | zero =>
      obtain rfl : a = c := by simpa using hq
      exact absurd hbc (hfirst b (List.mem_of_getElem? hp))
    | succ q =>
      cases p with
      | zero => exact Nat.succ_pos q
      | succ p => exact Nat.succ_lt_succ (hrest p q b c hp hq hbc)

theorem respects_map {f : ι → α} {l : List ι} :
    Respects before (l.map f) ↔ Respects (fun i j => before (f i) (f j)) l := by
  constructor
  · intro h p q i j hp hq hij
    exact h p q (f i) (f j) (by simp [hp]) (by simp [hq]) hij
  · intro h p q a b hp hq hab
    rw [List.getElem?_map] at hp hq
    obtain ⟨i, hi, rfl⟩ := Option.map_eq_some_iff.1 hp
    obtain ⟨j, hj, rfl⟩ := Option.map_eq_some_iff.1 hq
    exact h p q i j hi hj hab

theorem runs_map {f : ι → α} {l : List ι} :
    Runs step s (l.map f) ↔ Runs (fun s i => step s (f i)) s l := by
  induction l generalizing s with
  | nil => exact Iff.rfl
  | cons i l ih => simp only [List.map_cons, Runs, ih]

section Completable

variable {before : ι → ι → Prop} {step : σ → ι → Set σ} {S : Finset ι} {s t : σ}

theorem completable_empty : Completable before step ∅ s :=
  ⟨[], List.nodup_nil, by simp, respects_nil, trivial⟩

/-- States that can follow the same operations complete the same sets. -/
theorem completable_congr (h : ∀ l, Runs step s l ↔ Runs step t l) :
    Completable before step S s ↔ Completable before step S t := by
  simp only [Completable, h]

variable [DecidableEq ι]

theorem completable_iff (hS : S.Nonempty) :
    Completable before step S s ↔
      ∃ i ∈ S, (∀ j ∈ S, ¬before j i) ∧ ∃ t ∈ step s i, Completable before step (S.erase i) t := by
  constructor
  · rintro ⟨l, hnodup, hmem, hrespects, hruns⟩
    cases l with
    | nil =>
      obtain ⟨i, hi⟩ := hS
      exact absurd ((hmem i).2 hi) (List.not_mem_nil)
    | cons i l =>
      obtain ⟨hi, hnodup⟩ := List.nodup_cons.1 hnodup
      obtain ⟨hfirst, hrest⟩ := respects_cons.1 hrespects
      obtain ⟨t, ht, hruns⟩ := hruns
      refine ⟨i, (hmem i).1 List.mem_cons_self, fun j hj => hfirst j ((hmem j).2 hj), t, ht, l,
        hnodup, ?_, hrest, hruns⟩
      intro j
      rw [Finset.mem_erase, ← hmem j, List.mem_cons]
      constructor
      · intro hj
        exact ⟨fun h => hi (h ▸ hj), Or.inr hj⟩
      · rintro ⟨hne, hj⟩
        exact hj.resolve_left hne
  · rintro ⟨i, hi, hfirst, t, ht, l, hnodup, hmem, hrest, hruns⟩
    have hmem' : ∀ j, j ∈ i :: l ↔ j ∈ S := by
      intro j
      rw [List.mem_cons, hmem j, Finset.mem_erase]
      by_cases h : j = i
      · simp [h, hi]
      · simp [h]
    refine ⟨i :: l, List.nodup_cons.2 ⟨?_, hnodup⟩, hmem', ?_, t, ht, hruns⟩
    · rw [hmem i]
      exact Finset.notMem_erase i S
    · exact respects_cons.2 ⟨fun j hj => hfirst j ((hmem' j).1 hj), hrest⟩

end Completable

/-- A reordering of the values of a function comes from a reordering of its arguments. -/
theorem exists_perm_map {f : ι → α} {xs : List ι} {ys : List α} (h : ys.Perm (xs.map f)) :
    ∃ zs : List ι, zs.Perm xs ∧ zs.map f = ys := by
  generalize hm : xs.map f = ms at h
  induction h generalizing xs with
  | nil => exact ⟨xs, List.Perm.refl xs, hm⟩
  | cons a h ih =>
    obtain ⟨x, xs, rfl, rfl, rfl⟩ := List.map_eq_cons_iff.1 hm
    obtain ⟨zs, hzs, rfl⟩ := ih rfl
    exact ⟨x :: zs, hzs.cons x, rfl⟩
  | swap a b l =>
    obtain ⟨x, xs, rfl, rfl, htail⟩ := List.map_eq_cons_iff.1 hm
    obtain ⟨y, xs, rfl, rfl, rfl⟩ := List.map_eq_cons_iff.1 htail
    exact ⟨y :: x :: xs, List.Perm.swap x y xs, rfl⟩
  | trans h₁ h₂ ih₁ ih₂ =>
    obtain ⟨zs, hzs, rfl⟩ := ih₂ hm
    obtain ⟨ws, hws, hmap⟩ := ih₁ rfl
    exact ⟨ws, hws.trans hzs, hmap⟩

theorem completable_univ_iff (before : α → α → Prop) (step : σ → α → Set σ) (ops : List α) :
    Completable (fun i j => before (ops.get i) (ops.get j)) (fun s i => step s (ops.get i))
        Finset.univ s ↔
      ∃ order : List α, order.Perm ops ∧ Respects before order ∧ Runs step s order := by
  constructor
  · rintro ⟨l, hnodup, hmem, hrespects, hruns⟩
    have hperm : l.Perm (List.finRange ops.length) :=
      (List.perm_ext_iff_of_nodup hnodup (List.nodup_finRange _)).2 fun i => by simp [hmem]
    refine ⟨l.map ops.get, ?_, respects_map.2 hrespects, runs_map.2 hruns⟩
    have := hperm.map ops.get
    rwa [List.map_get_finRange] at this
  · rintro ⟨order, hperm, hrespects, hruns⟩
    rw [← List.map_get_finRange ops] at hperm
    obtain ⟨l, hl, rfl⟩ := exists_perm_map hperm
    exact ⟨l, hl.symm.nodup (List.nodup_finRange _), fun i => by simp [hl.mem_iff],
      respects_map.1 hrespects, runs_map.1 hruns⟩

end Linearization
