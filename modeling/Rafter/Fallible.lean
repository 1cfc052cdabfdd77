import Mathlib.Data.List.Basic

/-!
# Computations that fail and keep their writes

A method that takes its receiver by mutable reference and returns a result: on failure it stops, and
what it wrote until then stays written. `Ends x s q e` says how such a computation ends from a
state: with a value and a state in `q`, or with an error and a state in `e`.

Results:

* `Ends.bind`, `Ends.seq`, `ends_pure`, `ends_fail`, `ends_current_bind`, `ends_update_bind`,
  `ends_updateWith`: one rule for each way to build a computation;
* `Ends.foldlM`: the invariant rule of a loop;
* `Leaves.bind` and its companions: what a computation does not touch;
* `Counts.bind`: what a counter has counted.
-/

/-- A computation over a state that ends with a value or an error. -/
def Fallible (σ ε α : Type) := σ → Except ε α × σ

namespace Fallible

variable {σ ε α β : Type}
variable {g : σ → σ} {step : β → α → Fallible σ ε β}

/-- Go on with the value, or stop at the error. -/
def andThen (x : Fallible σ ε α) (f : α → Fallible σ ε β) : Fallible σ ε β := fun s =>
  match x s with
  | (.ok a, s') => f a s'
  | (.error e, s') => (.error e, s')

instance : Monad (Fallible σ ε) where
  pure a s := (.ok a, s)
  bind := andThen

instance : LawfulMonad (Fallible σ ε) := LawfulMonad.mk' _
  (by
    intro α x
    funext s
    change andThen x (fun a s => (.ok a, s)) s = x s
    unfold andThen
    rcases x s with ⟨a | a, s'⟩ <;> rfl)
  (fun _ _ => rfl)
  (by
    intro α β γ x f g
    funext s
    change andThen (andThen x f) g s = andThen x (fun a => andThen (f a) g) s
    unfold andThen
    rcases x s with ⟨a | a, s'⟩ <;> rfl)

/-- Stop with an error. -/
def fail (e : ε) : Fallible σ ε α := fun s => (.error e, s)

/-- Read the state. -/
def current : Fallible σ ε σ := fun s => (.ok s, s)

/-- Write the state. -/
def update (f : σ → σ) : Fallible σ ε Unit := fun s => (.ok (), f s)

/-- An update of the state that also returns a value. -/
def updateWith (f : σ → α × σ) : Fallible σ ε α := fun s => (.ok (f s).1, (f s).2)

/-! ## How a computation ends -/

/-- From `s`, the computation ends with a value and a state in `q` or with an error and a state in
`e`. -/
def Ends (x : Fallible σ ε α) (s : σ) (q : α → σ → Prop) (e : ε → σ → Prop) : Prop :=
  match x s with
  | (.ok a, s') => q a s'
  | (.error err, s') => e err s'

variable {x : Fallible σ ε α} {f : α → Fallible σ ε β} {s s' : σ} {a : α} {b : β} {err : ε}
  {q : α → σ → Prop} {e : ε → σ → Prop}

theorem ends_of_ok (h : x s = (.ok a, s')) (hq : q a s') : Ends x s q e := by
  unfold Ends
  rw [h]
  exact hq

theorem ends_of_error (h : x s = (.error err, s')) (he : e err s') : Ends x s q e := by
  unfold Ends
  rw [h]
  exact he

theorem Ends.of_ok (h : Ends x s q e) (hx : x s = (.ok a, s')) : q a s' := by
  unfold Ends at h
  rwa [hx] at h

theorem Ends.of_error (h : Ends x s q e) (hx : x s = (.error err, s')) : e err s' := by
  unfold Ends at h
  rwa [hx] at h

theorem Ends.mono {q' : α → σ → Prop} {e' : ε → σ → Prop} (h : Ends x s q e)
    (hq : ∀ a s', q a s' → q' a s') (he : ∀ err s', e err s' → e' err s') : Ends x s q' e' := by
  unfold Ends at h ⊢
  split
  · rename_i heq
    rw [heq] at h
    exact hq _ _ h
  · rename_i heq
    rw [heq] at h
    exact he _ _ h

theorem ends_pure (h : q a s) : Ends (pure a) s q e := h

theorem ends_fail (h : e err s) : Ends (fail err) s q e := h

theorem ends_update {q : Unit → σ → Prop} (h : q () (g s)) : Ends (update g) s q e := h

theorem ends_updateWith {g : σ → α × σ} (h : q (g s).1 (g s).2) : Ends (updateWith g) s q e := h

theorem bind_ok (h : x s = (.ok a, s')) : (x >>= f) s = f a s' := by
  change andThen x f s = f a s'
  unfold andThen
  rw [h]

theorem bind_error (h : x s = (.error err, s')) : (x >>= f) s = (.error err, s') := by
  change andThen x f s = (.error err, s')
  unfold andThen
  rw [h]

theorem Ends.bind {q' : β → σ → Prop} (hx : Ends x s q e)
    (hf : ∀ a s', q a s' → Ends (f a) s' q' e) : Ends (x >>= f) s q' e := by
  unfold Ends
  rcases h : x s with ⟨a | a, s'⟩
  · rw [bind_error h]
    exact hx.of_error h
  · rw [bind_ok h]
    exact hf a s' (hx.of_ok h)

/-- The first part fails in a narrower way than the whole. -/
theorem Ends.seq {q' : β → σ → Prop} {e' : ε → σ → Prop} (hx : Ends x s q e')
    (he : ∀ err s', e' err s' → e err s') (hf : ∀ a s', q a s' → Ends (f a) s' q' e) :
    Ends (x >>= f) s q' e :=
  Ends.bind (hx.mono (fun _ _ h => h) he) hf

theorem ends_current_bind {f : σ → Fallible σ ε β} {q : β → σ → Prop} (h : Ends (f s) s q e) :
    Ends (current >>= f) s q e := h

theorem ends_update_bind {f : Unit → Fallible σ ε β} {q : β → σ → Prop}
    (h : Ends (f ()) (g s) q e) :
    Ends (update g >>= f) s q e := h

theorem ends_updateWith_bind {g : σ → α × σ} {q : β → σ → Prop}
    (h : Ends (f (g s).1) (g s).2 q e) : Ends (updateWith g >>= f) s q e := h

theorem Ends.foldlM (inv : β → σ → Prop) (hstep : ∀ b a s, inv b s → Ends (step b a) s inv e)
    (l : List α) : ∀ {b : β} {s : σ}, inv b s → Ends (l.foldlM step b) s inv e := by
  induction l with
  | nil => exact fun h => ends_pure h
  | cons a l ih =>
    intro b s h
    rw [List.foldlM_cons]
    exact (hstep b a s h).bind fun _ _ h' => ih h'

/-! ## What a computation leaves alone -/

variable {τ : Type} {p : σ → τ}

/-- However the computation ends, the part `p` of the state is as before. -/
def Leaves (p : σ → τ) (x : Fallible σ ε α) : Prop := ∀ s, p (x s).2 = p s

theorem leaves_pure : Leaves p (pure a : Fallible σ ε α) := fun _ => rfl

theorem leaves_fail : Leaves p (fail err : Fallible σ ε α) := fun _ => rfl

theorem leaves_current : Leaves p (current : Fallible σ ε σ) := fun _ => rfl

theorem leaves_update (h : ∀ s, p (g s) = p s) : Leaves p (update g : Fallible σ ε Unit) := h

theorem leaves_updateWith {g : σ → α × σ} (h : ∀ s, p (g s).2 = p s) :
    Leaves p (updateWith g : Fallible σ ε α) := h

theorem Leaves.bind (hx : Leaves p x) (hf : ∀ a, Leaves p (f a)) : Leaves p (x >>= f) := by
  intro s
  have hs := hx s
  rcases h : x s with ⟨a | a, s'⟩
  · rw [bind_error h]
    rwa [h] at hs
  · rw [bind_ok h, hf a s']
    rwa [h] at hs

theorem Leaves.foldlM (h : ∀ b a, Leaves p (step b a)) (l : List α) :
    ∀ b, Leaves p (l.foldlM step b) := by
  induction l with
  | nil => exact fun b => leaves_pure
  | cons a l ih =>
    intro b
    rw [List.foldlM_cons]
    exact (h b a).bind ih

theorem Leaves.ends (h : Leaves p x) (s : σ) :
    Ends x s (fun _ s' => p s' = p s) (fun _ s' => p s' = p s) := by
  have hs := h s
  unfold Ends
  split
  · rename_i heq
    rwa [heq] at hs
  · rename_i heq
    rwa [heq] at hs

/-! ## What a computation counts -/

/-- The notes of a sequence: those of `x`, then those of what follows its value. -/
def notesBind (x : Fallible σ ε α) (notes : σ → List τ) (next : α → σ → List τ) (s : σ) :
    List τ :=
  notes s ++
    match x s with
    | (.ok a, s') => next a s'
    | (.error _, _) => []

/-- However the computation ends, the counter has grown by one for each note. -/
def Counts (counter : σ → ℕ) (x : Fallible σ ε α) (notes : σ → List τ) : Prop :=
  ∀ s, counter (x s).2 = counter s + (notes s).length

theorem Counts.bind {counter : σ → ℕ} {notes : σ → List τ} {next : α → σ → List τ}
    (hx : Counts counter x notes) (hf : ∀ a, Counts counter (f a) (next a)) :
    Counts counter (x >>= f) (notesBind x notes next) := by
  intro s
  have hs := hx s
  unfold notesBind
  rcases h : x s with ⟨a | a, s'⟩ <;> rw [h] at hs
  · simpa [bind_error h] using hs
  · rw [bind_ok h, hf a s', hs, List.length_append]
    exact Nat.add_assoc _ _ _

theorem Counts.bind_leaves {counter : σ → ℕ} {notes : σ → List τ} (hx : Counts counter x notes)
    (hf : ∀ a, Leaves counter (f a)) : Counts counter (x >>= f) notes := by
  intro s
  rcases h : x s with ⟨a | a, s'⟩
  · rw [bind_error h, ← hx s, h]
  · rw [bind_ok h, hf a s', ← hx s, h]

end Fallible
