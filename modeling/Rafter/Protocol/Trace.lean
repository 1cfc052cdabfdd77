import Mathlib.Data.Nat.Notation

/-!
# Labelled paths

Runs of a transition relation whose moves are labelled with what is observed of them: requests
taken, outputs given. `Path R s l s'` is a run from `s` to `s'` with the observations `l` in
order.

Results:

* `Path.history`: what every move keeps, of the observations so far and the state, holds at the
  end of every path;
* `Path.balance`: a quantity that every move conserves against what it observes is conserved along
  every path.
-/

namespace Protocol

variable {S A : Type*} {R : S → List A → S → Prop}

/-- Steps one after the other, with what they emit. -/
inductive Path (R : S → List A → S → Prop) : S → List A → S → Prop
  | refl (s : S) : Path R s [] s
  | head {s s' s'' : S} {l l' : List A} (h : R s l s') (t : Path R s' l' s'') :
    Path R s (l ++ l') s''

namespace Path

variable {l : List A} {s s' : S} {I : S → Prop}

theorem single (h : R s l s') : Path R s l s' := by
  simpa using head h (.refl s')

theorem trans {s'' : S} {l' : List A} (h : Path R s l s') (h' : Path R s' l' s'') :
    Path R s (l ++ l') s'' := by
  induction h with
  | refl => exact h'
  | head hmove _ ih =>
    rw [List.append_assoc]
    exact .head hmove (ih h')

/-- A property of the past observations and the present state that every move keeps. -/
theorem history {P : List A → S → Prop}
    (hmove : ∀ {s l s'}, R s l s' → ∀ past, P past s → P (past ++ l) s') (h : Path R s l s')
    {p : List A} (hs : P p s) : P (p ++ l) s' := by
  induction h generalizing p with
  | refl => simpa using hs
  | head hm _ ih =>
    rw [← List.append_assoc]
    exact ih (hmove hm p hs)

theorem invariant (hmove : ∀ {s l s'}, R s l s' → I s → I s') (h : Path R s l s') (hs : I s) :
    I s' :=
  h.history (P := fun _ s => I s) (fun hm _ => hmove hm) (p := []) hs

/-- Moves seen through a function are moves of another relation. -/
theorem map {T : Type*} {R' : T → List A → T → Prop} (f : S → T)
    (hmove : ∀ {s l s'}, R s l s' → I s → I s' ∧ R' (f s) l (f s')) (h : Path R s l s') (hs : I s) :
    Path R' (f s) l (f s') := by
  induction h with
  | refl s => exact .refl (f s)
  | head hm _ ih => exact .head (hmove hm hs).2 (ih (hmove hm hs).1)

/-- Conservation: if under an invariant every move keeps `held` plus what it gives equal to what it
took before, then so does every path. -/
theorem balance (held : S → ℕ) (taken given : List A → ℕ)
    (htaken : taken [] = 0 ∧ ∀ l l', taken (l ++ l') = taken l + taken l')
    (hgiven : given [] = 0 ∧ ∀ l l', given (l ++ l') = given l + given l')
    (hmove : ∀ {s l s'}, R s l s' → I s → I s' ∧ held s + taken l = held s' + given l)
    (h : Path R s l s') (hs : I s) : held s + taken l = held s' + given l := by
  induction h with
  | refl => rw [htaken.1, hgiven.1]
  | head hm _ ih =>
    obtain ⟨hs', hhead⟩ := hmove hm hs
    have htail := ih hs'
    rw [htaken.2, hgiven.2]
    omega

end Path

end Protocol
