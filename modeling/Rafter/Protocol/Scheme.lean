import Mathlib.Data.Set.Basic
import Mathlib.Data.List.Chain
import Mathlib.Data.List.Infix

/-!
# Replicated logs with configurations

What a consensus protocol over replicated logs needs to know of its entries: each has a term, and
some carry a configuration that decides which sets of nodes are quorums. Successive
configurations of a log are related by `next`.

Results:

* `Scheme.meets_of_common`: two logs whose configurations agree up to at most one more on either
  side have intersecting quorums;
* `Scheme.meets_of_adjacent`: so have two logs each of which contains the other's configurations
  except possibly the last.
-/

namespace Protocol

/-- Entries with terms and configurations, and the quorums of a configuration. -/
structure Scheme (N E C : Type*) where
  term : E → ℕ
  config : E → Option C
  initial : C
  next : C → C → Prop
  quorum : C → Set N → Prop
  quorum_mono : ∀ {c A B}, quorum c A → A ⊆ B → quorum c B
  quorum_inter : ∀ {c A B}, quorum c A → quorum c B → (A ∩ B).Nonempty
  quorum_inter_next : ∀ {c d A B}, next c d → quorum c A → quorum d B → (A ∩ B).Nonempty
  quorum_inter_siblings : ∀ {c d e A B}, next c d → next c e → quorum d A → quorum e B →
    (A ∩ B).Nonempty

namespace Scheme

variable {N E C : Type*} (S : Scheme N E C)
variable {c d : C} {l m : List E} {p : List C}

/-- Every quorum of one configuration meets every quorum of the other. -/
def Meets (c d : C) : Prop := ∀ A B, S.quorum c A → S.quorum d B → (A ∩ B).Nonempty

variable {S}

theorem Meets.symm (h : S.Meets c d) : S.Meets d c := by
  intro A B hA hB
  rw [Set.inter_comm]
  exact h B A hB hA

theorem meets_self (c : C) : S.Meets c c := fun _ _ => S.quorum_inter

theorem meets_next (h : S.next c d) : S.Meets c d := fun _ _ => S.quorum_inter_next h

theorem meets_siblings {e : C} (hd : S.next c d) (he : S.next c e) : S.Meets d e :=
  fun _ _ => S.quorum_inter_siblings hd he

variable (S)

/-- The configurations of a log, in order. -/
def configs (l : List E) : List C := l.filterMap S.config

/-- The configuration in force after a log. -/
def configOf (l : List E) : C := (S.configs l).getLastD S.initial

/-- Successive configurations of the log are related. -/
def Chained (l : List E) : Prop := List.IsChain S.next (S.initial :: S.configs l)

variable {S}

@[simp] theorem configs_nil : S.configs [] = [] := rfl

@[simp] theorem configs_append (l m : List E) : S.configs (l ++ m) = S.configs l ++ S.configs m :=
  List.filterMap_append ..

theorem configs_singleton (e : E) : S.configs [e] = (S.config e).toList := by
  cases h : S.config e <;> simp [configs, h]

theorem configs_take_append_drop (l : List E) (i : ℕ) :
    S.configs (l.take i) ++ S.configs (l.drop i) = S.configs l := by
  rw [← configs_append, List.take_append_drop]

theorem configs_isPrefix (h : l <+: m) : S.configs l <+: S.configs m := by
  obtain ⟨r, rfl⟩ := h
  rw [configs_append]
  exact List.prefix_append ..

theorem Chained.of_isPrefix (hm : S.Chained m) (h : l <+: m) : S.Chained l :=
  List.IsChain.prefix hm ((List.prefix_cons_inj _).2 (configs_isPrefix h))

/-- The configurations above an index go on from the one in force there. -/
theorem Chained.drop (hl : S.Chained l) (k : ℕ) :
    List.IsChain S.next (S.configOf (l.take k) :: S.configs (l.drop k)) := by
  unfold Chained at hl
  rw [← configs_take_append_drop l k] at hl
  have hne : S.initial :: S.configs (l.take k) ≠ [] := List.cons_ne_nil _ _
  rw [← List.cons_append, ← List.dropLast_append_getLast hne, List.append_assoc] at hl
  have hlast : ∀ (c : C) (cs : List C) (h : c :: cs ≠ []), (c :: cs).getLast h = cs.getLastD c :=
    fun c cs _ => by cases cs <;> rfl
  rw [hlast] at hl
  exact hl.right_of_append

theorem chained_append_singleton {e : E} (hl : S.Chained l)
    (he : ∀ c ∈ S.config e, S.next (S.configOf l) c) : S.Chained (l ++ [e]) := by
  unfold Chained
  rw [configs_append, configs_singleton]
  cases hc : S.config e with
  | none =>
    rw [Option.toList_none, List.append_nil]
    exact hl
  | some c =>
    rw [Option.toList_some, ← List.cons_append]
    refine List.isChain_append.2 ⟨hl, List.isChain_singleton _, ?_⟩
    intro x hx y hy
    obtain rfl : y = c := by simpa using hy.symm
    have hlast : x = S.configOf l := by
      rw [List.getLast?_cons, Option.mem_def, Option.some_inj] at hx
      rw [← hx, configOf, List.getLastD_eq_getLast?]
    rw [hlast]
    exact he y hc

/-- A log with a configuration splits at its last one. -/
theorem exists_last_config (h : S.configs l ≠ []) :
    ∃ m e r, l = m ++ e :: r ∧ (S.config e).isSome ∧ S.configs r = [] := by
  induction l using List.reverseRecOn with
  | nil => exact absurd rfl h
  | append_singleton l a ih =>
    cases ha : S.config a with
    | some c => exact ⟨l, a, [], rfl, by simp [ha], rfl⟩
    | none =>
      have hl : S.configs [a] = [] := by rw [configs_singleton, ha, Option.toList_none]
      rw [configs_append, hl, List.append_nil] at h
      obtain ⟨m, e, r, rfl, he, hr⟩ := ih h
      exact ⟨m, e, r ++ [a], by simp, he, by rw [configs_append, hr, hl, List.append_nil]⟩

/-- After a position that leaves no configuration before `e` and none follows it, at most one. -/
theorem length_configs_drop_le {r : List E} {e : E} {i : ℕ} (hm : S.configs (m.drop i) = [])
    (hr : S.configs r = []) : (S.configs ((m ++ e :: r).drop i)).length ≤ 1 := by
  rw [List.drop_append, configs_append, hm, List.nil_append]
  have hcons : (S.configs (e :: r)).length ≤ 1 := by
    rw [← List.singleton_append, configs_append, hr, List.append_nil, configs_singleton]
    exact Option.length_toList_le
  have hsub := configs_take_append_drop (S := S) (e :: r) (i - m.length)
  rw [← hsub, List.length_append] at hcons
  omega

/-! ## Intersecting quorums -/

/-- The configuration after one more than a chained list. -/
theorem next_of_chain (h : List.IsChain S.next (S.initial :: (p ++ [c]))) :
    S.next (p.getLastD S.initial) c := by
  rw [← List.cons_append, List.isChain_append] at h
  refine h.2.2 (p.getLastD S.initial) ?_ c (by simp)
  rw [List.getLast?_cons, Option.mem_def, List.getLastD_eq_getLast?]

/-- A list of which `p` is all but at most one: it ends in the configuration of `p`, or in one
after it. -/
theorem last_cases {x : List C} (hx : List.IsChain S.next (S.initial :: x)) (hp : p <+: x)
    (hlen : x.length ≤ p.length + 1) :
    x.getLastD S.initial = p.getLastD S.initial ∨
      S.next (p.getLastD S.initial) (x.getLastD S.initial) := by
  obtain ⟨r, rfl⟩ := hp
  rcases r with _ | ⟨c, _ | ⟨d, r⟩⟩
  · left
    rw [List.append_nil]
  · right
    have hlast : (p ++ [c]).getLastD S.initial = c := by simp [List.getLastD_eq_getLast?]
    rw [hlast]
    exact next_of_chain hx
  · simp only [List.length_append, List.length_cons] at hlen
    omega

theorem meets_of_common {x y : List C} (hx : List.IsChain S.next (S.initial :: x))
    (hy : List.IsChain S.next (S.initial :: y)) (hpx : p <+: x) (hpy : p <+: y)
    (hxl : x.length ≤ p.length + 1) (hyl : y.length ≤ p.length + 1) :
    S.Meets (x.getLastD S.initial) (y.getLastD S.initial) := by
  rcases last_cases hx hpx hxl with ex | nx <;> rcases last_cases hy hpy hyl with ey | ny
  · rw [ex, ey]
    exact meets_self _
  · rw [ex]
    exact meets_next ny
  · rw [ey]
    exact (meets_next nx).symm
  · exact meets_siblings nx ny

/-- Each log contains all configurations of the other except possibly its last. -/
theorem meets_of_adjacent {x y : List E} (hx : S.Chained x) (hy : S.Chained y) {i j : ℕ}
    (hi : x.take i <+: y) (hil : (S.configs (x.drop i)).length ≤ 1) (hj : y.take j <+: x)
    (hjl : (S.configs (y.drop j)).length ≤ 1) : S.Meets (S.configOf x) (S.configOf y) := by
  have hxs := congrArg List.length (configs_take_append_drop (S := S) x i)
  have hys := congrArg List.length (configs_take_append_drop (S := S) y j)
  rw [List.length_append] at hxs hys
  have hxp : S.configs (x.take i) <+: S.configs x := configs_isPrefix (List.take_prefix ..)
  have hyp : S.configs (y.take j) <+: S.configs y := configs_isPrefix (List.take_prefix ..)
  -- the longer of the two shared parts is a common prefix
  rcases le_total (S.configs (x.take i)).length (S.configs (y.take j)).length with hle | hle
  · exact meets_of_common hx hy (configs_isPrefix hj) hyp (by omega) (by omega)
  · exact meets_of_common hx hy hxp (configs_isPrefix hi) (by omega) (by omega)

end Scheme

end Protocol
