import Rafter.Protocol.Trace
import Mathlib.Data.List.Basic
import Mathlib.Order.Nat

/-!
# Delivery of a log

A reader of a log delivers its settled entries one after the other. It may drop what it has
delivered, and it may jump over entries it never had. Observers see the deliveries only, through a
`Medium` that says which index an observation is about.

Results:

* `Medium.Told.step`: what a step keeps;
* `Medium.increasing_of_path`: reported indexes increase strictly;
* `Medium.report_of_path`: a settled entry that is passed and not jumped over is reported exactly as
  the medium says, once;
* `Medium.isSome_of_path`: a reader that drops nothing still has what it delivered.
-/

namespace Protocol

/-- The entries a reader retains, the index it delivered through and the index through which its
entries are settled. -/
structure Reader (E : Type*) where
  entry : ℕ → Option E
  delivered : ℕ
  settled : ℕ

/-- How deliveries are observed. -/
structure Medium (E A : Type*) where
  /-- The index an observation is about. -/
  position : A → Option ℕ
  /-- The observation of a jump. -/
  jumps : A → Bool
  /-- The observation of dropped entries. -/
  drops : A → Bool
  /-- What is observed when an entry is delivered. -/
  report : ℕ → E → List A → Prop
  length_report : ∀ {k e l}, report k e l → l.length ≤ 1
  position_report : ∀ {k e l a}, report k e l → a ∈ l → position a = some k

namespace Medium

variable {E A : Type*} (M : Medium E A)

/-- The observations about some index. -/
def reports (l : List A) : List A := l.filter fun a => (M.position a).isSome

/-- The observations about index `k`. -/
def reportsAt (k : ℕ) (l : List A) : List A := l.filter fun a => M.position a = some k

/-- A jump to index `k` or above is observed. -/
def JumpsOver (k : ℕ) (l : List A) : Prop := ∃ a ∈ l, M.jumps a ∧ ∃ b, M.position a = some b ∧ k ≤ b

/-- One step of a reader. -/
inductive Step : Reader E → List A → Reader E → Prop
  | keep {r r' : Reader E} {l : List A} (hquiet : M.reports l = [])
    (hdelivered : r'.delivered = r.delivered) (hsettled : r.settled ≤ r'.settled)
    (hentry : ∀ k ≤ r.settled, r'.entry k = r.entry k ∨
      k ≤ r.delivered ∧ r'.entry k = none ∧ ∃ a ∈ l, M.drops a) : Step r l r'
  | deliver {r r' : Reader E} {l : List A} {e : E} (hlt : r.delivered < r.settled)
    (he : r.entry (r.delivered + 1) = some e)
    (hreport : M.report (r.delivered + 1) e (M.reports l))
    (hdelivered : r'.delivered = r.delivered + 1) (hsettled : r'.settled = r.settled)
    (hentry : r'.entry = r.entry) : Step r l r'
  | jump {r r' : Reader E} {l : List A} {a : A} {b : ℕ} (hreports : M.reports l = [a])
    (ha : M.jumps a) (hposition : M.position a = some b) (hb : r.settled < b)
    (hdelivered : r'.delivered = b) (hsettled : b ≤ r'.settled)
    (hentry : ∀ k ≤ b, r'.entry k = none) : Step r l r'

variable {M} {r r' : Reader E} {l past : List A} {k floor : ℕ} {e : E}

theorem reportsAt_append (k : ℕ) (l l' : List A) :
    M.reportsAt k (l ++ l') = M.reportsAt k l ++ M.reportsAt k l' := List.filter_append ..

theorem reportsAt_eq (k : ℕ) (l : List A) :
    M.reportsAt k l = (M.reports l).filter fun a => M.position a = some k := by
  rw [reportsAt, reports, List.filter_filter]
  refine List.filter_congr fun a _ => ?_
  cases h : M.position a <;> simp

theorem filterMap_position_eq (l : List A) :
    l.filterMap M.position = (M.reports l).filterMap M.position := by
  rw [reports, List.filterMap_filter]
  refine List.filterMap_congr fun a _ => ?_
  cases h : M.position a <;> simp

theorem reportsAt_report (h : M.report k e (M.reports l)) : M.reportsAt k l = M.reports l := by
  rw [reportsAt_eq, List.filter_eq_self]
  intro a ha
  simp [M.position_report h ha]

theorem reportsAt_report_ne {j : ℕ} (h : M.report k e (M.reports l)) (hne : j ≠ k) :
    M.reportsAt j l = [] := by
  rw [reportsAt_eq, List.filter_eq_nil_iff]
  intro a ha
  simp [M.position_report h ha, hne.symm]

theorem JumpsOver.append_left (h : M.JumpsOver k past) : M.JumpsOver k (past ++ l) := by
  obtain ⟨a, ha, hrest⟩ := h
  exact ⟨a, List.mem_append_left _ ha, hrest⟩

/-- A step tells nothing about delivered indexes. -/
theorem Step.reportsAt_eq_nil (h : M.Step r l r') (hle : r.delivered ≤ r.settled)
    (hk : k ≤ r.delivered) : M.reportsAt k l = [] := by
  cases h with
  | keep hquiet hdelivered hsettled hentry => rw [reportsAt_eq, hquiet, List.filter_nil]
  | deliver hlt he hreport hdelivered hsettled hentry =>
    exact reportsAt_report_ne hreport (by omega)
  | jump hreports ha hposition hb hdelivered hsettled hentry =>
    rename_i a b
    have hne : b ≠ k := by omega
    simp [reportsAt_eq, hreports, hposition, hne]

theorem Step.delivered_le (h : M.Step r l r') (hle : r.delivered ≤ r.settled) :
    r.delivered ≤ r'.delivered := by
  cases h <;> omega

/-! ## What has been told -/

/-- The observations so far tell of the indexes above `floor`, in order, through the index the
reader delivered. -/
structure Told (M : Medium E A) (floor : ℕ) (past : List A) (r : Reader E) : Prop where
  floor_le : floor ≤ r.delivered
  delivered_le : r.delivered ≤ r.settled
  increasing : (past.filterMap M.position).Pairwise (· < ·)
  between : ∀ k ∈ past.filterMap M.position, floor < k ∧ k ≤ r.delivered
  told : ∀ k e, floor < k → k ≤ r.delivered → r.entry k = some e → ¬ M.JumpsOver k past →
    M.report k e (M.reportsAt k past)

theorem Told.start (h : r.delivered ≤ r.settled) : M.Told r.delivered [] r where
  floor_le := le_rfl
  delivered_le := h
  increasing := .nil
  between := by simp
  told k e hlt hle := absurd hle (by omega)

theorem Told.reportsAt_eq_nil (h : M.Told floor past r) (hk : r.delivered < k) :
    M.reportsAt k past = [] := by
  rw [reportsAt, List.filter_eq_nil_iff]
  intro a ha
  simp only [decide_eq_true_eq]
  intro hposition
  have := (h.between k (List.mem_filterMap.2 ⟨a, ha, hposition⟩)).2
  omega

/-- The index of the next observation is above all told ones. -/
theorem Told.increasing_append (h : M.Told floor past r) {b : ℕ} (hb : r.delivered < b)
    (hl : ∀ k ∈ l.filterMap M.position, k = b) (hlen : (l.filterMap M.position).length ≤ 1) :
    ((past ++ l).filterMap M.position).Pairwise (· < ·) ∧
      ∀ k ∈ (past ++ l).filterMap M.position, floor < k ∧ k ≤ b := by
  rw [List.filterMap_append]
  refine ⟨List.pairwise_append.2 ⟨h.increasing, ?_, fun i hi j hj => ?_⟩, fun k hk => ?_⟩
  · generalize l.filterMap M.position = ks at hlen
    match ks, hlen with
    | [], _ => exact .nil
    | [_], _ => exact List.pairwise_singleton _ _
  · have := (h.between i hi).2
    rw [hl j hj]
    omega
  · have hfloor := h.floor_le
    rcases List.mem_append.1 hk with hk | hk
    · have := h.between k hk
      omega
    · rw [hl k hk]
      omega

theorem Told.step (h : M.Told floor past r) (hstep : M.Step r l r') :
    M.Told floor (past ++ l) r' := by
  have hfloor := h.floor_le
  have hle := h.delivered_le
  cases hstep with
  | keep hquiet hdelivered hsettled hentry =>
    have hposition : l.filterMap M.position = [] := by rw [filterMap_position_eq, hquiet]; rfl
    refine ⟨by omega, by omega, ?_, ?_, fun k e hk hk' he hjump => ?_⟩
    · rw [List.filterMap_append, hposition, List.append_nil]
      exact h.increasing
    · rw [List.filterMap_append, hposition, List.append_nil, hdelivered]
      exact h.between
    · have he' : r.entry k = some e := by
        rcases hentry k (by omega) with heq | ⟨-, hnone, -⟩
        · exact heq.symm.trans he
        · simp [hnone] at he
      rw [reportsAt_append, reportsAt_eq k l, hquiet, List.filter_nil, List.append_nil]
      exact h.told k e hk (by omega) he' fun hj => hjump hj.append_left
  | deliver hlt he hreport hdelivered hsettled hentry =>
    rename_i e₀
    have hl : ∀ k ∈ l.filterMap M.position, k = r.delivered + 1 := by
      intro k hk
      rw [filterMap_position_eq] at hk
      obtain ⟨a, ha, hposition⟩ := List.mem_filterMap.1 hk
      exact Option.some_inj.1 (hposition.symm.trans (M.position_report hreport ha))
    have hlen : (l.filterMap M.position).length ≤ 1 := by
      rw [filterMap_position_eq]
      exact (List.length_filterMap_le _ _).trans (M.length_report hreport)
    obtain ⟨hincreasing, hbetween⟩ := h.increasing_append (Nat.lt_succ_self _) hl hlen
    refine ⟨by omega, by omega, hincreasing, by rw [hdelivered]; exact hbetween,
      fun k e hk hk' he' hjump => ?_⟩
    rw [reportsAt_append]
    rw [hentry] at he'
    by_cases hlast : k = r.delivered + 1
    · subst hlast
      obtain rfl : e₀ = e := Option.some_inj.1 (he.symm.trans he')
      rw [h.reportsAt_eq_nil (Nat.lt_succ_self _), reportsAt_report hreport, List.nil_append]
      exact hreport
    · rw [reportsAt_report_ne hreport hlast, List.append_nil]
      exact h.told k e hk (by omega) he' fun hj => hjump hj.append_left
  | jump hreports ha hposition hb hdelivered hsettled hentry =>
    rename_i a b
    have hfilter : l.filterMap M.position = [b] := by
      rw [filterMap_position_eq, hreports, List.filterMap_cons, hposition]
      rfl
    obtain ⟨hincreasing, hbetween⟩ := h.increasing_append (l := l) (b := b) (by omega)
      (by simp [hfilter]) (by simp [hfilter])
    refine ⟨by omega, by omega, hincreasing, by rw [hdelivered]; exact hbetween,
      fun k e hk hk' he' hjump => ?_⟩
    rw [hentry k (by omega)] at he'
    simp at he'

/-! ## The fate of an entry -/

/-- A settled entry is ahead of the reader, reported, or jumped over. -/
def Fate (M : Medium E A) (k : ℕ) (e : E) (past : List A) (r : Reader E) : Prop :=
  M.JumpsOver k past ∨ (r.delivered < k ∧ k ≤ r.settled ∧ r.entry k = some e) ∨
    (k ≤ r.delivered ∧ M.report k e (M.reportsAt k past))

theorem Told.fate_step (h : M.Told floor past r) (hfate : M.Fate k e past r)
    (hstep : M.Step r l r') : M.Fate k e (past ++ l) r' := by
  rcases hfate with hjump | ⟨hahead, hsettled, he⟩ | ⟨hdone, hreported⟩
  · exact .inl hjump.append_left
  · cases hstep with
    | keep hquiet hdelivered hsettled' hentry =>
      refine .inr (.inl ⟨by omega, by omega, ?_⟩)
      rcases hentry k hsettled with heq | ⟨hle, -, -⟩
      · exact heq.trans he
      · omega
    | deliver hlt he₀ hreport hdelivered hsettled' hentry =>
      rename_i e₀
      by_cases hk : k = r.delivered + 1
      · subst hk
        obtain rfl : e₀ = e := Option.some_inj.1 (he₀.symm.trans he)
        refine .inr (.inr ⟨by omega, ?_⟩)
        rw [reportsAt_append, h.reportsAt_eq_nil hahead, reportsAt_report hreport, List.nil_append]
        exact hreport
      · exact .inr (.inl ⟨by omega, by omega, by rw [hentry]; exact he⟩)
    | jump hreports ha hposition hb hdelivered hsettled' hentry =>
      rename_i a b
      have hmem : a ∈ l := List.mem_of_mem_filter (by rw [← reports, hreports]; simp)
      exact .inl ⟨a, List.mem_append_right _ hmem, ha, b, hposition, by omega⟩
  · refine .inr (.inr ⟨hdone.trans (hstep.delivered_le h.delivered_le), ?_⟩)
    rw [reportsAt_append, hstep.reportsAt_eq_nil h.delivered_le hdone, List.append_nil]
    exact hreported

/-! ## Paths -/

theorem Told.path (h : M.Told floor past r) (hpath : Path M.Step r l r') :
    M.Told floor (past ++ l) r' :=
  hpath.history (fun hstep _ htold => htold.step hstep) h

theorem increasing_of_path (hle : r.delivered ≤ r.settled) (hpath : Path M.Step r l r') :
    (l.filterMap M.position).Pairwise (· < ·) :=
  ((Told.start hle).path hpath).increasing

/-- An entry that is settled somewhere on the way, passed at the end and never jumped over has been
reported, exactly once. -/
theorem report_of_path {r₀ : Reader E} {l₀ : List A} (hle : r₀.delivered ≤ r₀.settled)
    (hpath₀ : Path M.Step r₀ l₀ r) (hpath : Path M.Step r l r') (hfloor : r₀.delivered < k)
    (hentry : r.entry k = some e) (hsettled : k ≤ r.settled) (hpassed : k ≤ r'.delivered)
    (hjump : ¬ M.JumpsOver k (l₀ ++ l)) : M.report k e (M.reportsAt k (l₀ ++ l)) := by
  have htold := (Told.start hle).path hpath₀
  rw [List.nil_append] at htold
  have hfate : M.Fate k e l₀ r := by
    by_cases hk : k ≤ r.delivered
    · exact .inr (.inr ⟨hk, htold.told k e hfloor hk hentry fun hj => hjump hj.append_left⟩)
    · exact .inr (.inl ⟨not_le.1 hk, hsettled, hentry⟩)
  have hend := hpath.history (P := fun past r => M.Told r₀.delivered past r ∧ M.Fate k e past r)
    (fun hstep _ h => ⟨h.1.step hstep, h.1.fate_step h.2 hstep⟩) ⟨htold, hfate⟩
  rcases hend.2 with hj | ⟨hahead, -, -⟩ | ⟨-, hreport⟩
  · exact absurd hj hjump
  · omega
  · exact hreport

/-- A reader that drops nothing still has what it delivered since. -/
theorem isSome_of_path (hle : r.delivered ≤ r.settled) (hpath : Path M.Step r l r')
    (hdrops : ∀ a ∈ l, ¬ M.drops a) (hfloor : r.delivered < k) (hpassed : k ≤ r'.delivered)
    (hjump : ¬ M.JumpsOver k l) : (r'.entry k).isSome := by
  have hend := hpath.history (P := fun past r₁ => r₁.delivered ≤ r₁.settled ∧
      ((∀ a ∈ past, ¬ M.drops a) → ¬ M.JumpsOver k past → k ≤ r₁.delivered →
        (r₁.entry k).isSome)) (p := []) ?_ ⟨hle, fun _ _ hk => absurd hk (by omega)⟩
  · rw [List.nil_append] at hend
    exact hend.2 hdrops hjump hpassed
  rintro s l' s' hstep past ⟨hs, ih⟩
  have ih' : (∀ a ∈ past ++ l', ¬ M.drops a) → ¬ M.JumpsOver k (past ++ l') →
      k ≤ s.delivered → (s.entry k).isSome := fun hd hj hk =>
    ih (fun a ha => hd a (List.mem_append_left _ ha)) (fun hj' => hj hj'.append_left) hk
  cases hstep with
  | keep hquiet hdelivered hsettled hentry =>
    refine ⟨by omega, fun hd hj hk => ?_⟩
    rcases hentry k (by omega) with heq | ⟨-, -, a, ha, hdrop⟩
    · rw [heq]
      exact ih' hd hj (by omega)
    · exact absurd hdrop (hd a (List.mem_append_right _ ha))
  | deliver hlt he hreport hdelivered hsettled hentry =>
    refine ⟨by omega, fun hd hj hk => ?_⟩
    rw [hentry]
    by_cases hlast : k = s.delivered + 1
    · rw [hlast, he]
      rfl
    · exact ih' hd hj (by omega)
  | jump hreports ha hposition hb hdelivered hsettled hentry =>
    rename_i a b
    have hmem : a ∈ l' := List.mem_of_mem_filter (by rw [← reports, hreports]; simp)
    exact ⟨by omega, fun _ hj hk => absurd ⟨a, List.mem_append_right _ hmem, ha, b, hposition,
      by omega⟩ hj⟩

end Medium

end Protocol
