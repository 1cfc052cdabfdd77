import Rafter.Harness.Search

/-!
# What the ordering search decides

A visit of the engine is given the operations still to place and a state. It answers whether they
can be completed from there (`Linearization.Completable`), for every specification whose key joins
only states that allow the same actions from then on. The failures the engine remembers are what
makes this an argument over the whole search: a remembered mask and key has to mean that no state
with the key can complete the mask.

Results:

* `search_decides`: what each outcome of a search means.
-/

namespace Rafter.Harness

open Fallible Linearization

variable {A State Key M : Type}

/-! ## Legal orders -/

/-- The states a step allows. -/
def Step.states : Step State M → List State
  | .impossible _ => []
  | .next state => [state]
  | .choice first second => [first, second]

/-- The specification can take the actions one after the other, with one of the allowed states
chosen for each. -/
def SequentialSpec.Legal (spec : SequentialSpec A State Key M) : State → List A → Prop :=
  Runs fun state action => {next | next ∈ (spec.step state action).states}

/-- States with one key allow the same actions from then on. -/
def SequentialSpec.KeyFaithful (spec : SequentialSpec A State Key M) : Prop :=
  ∀ s t, spec.key s = spec.key t → ∀ actions, spec.Legal s actions ↔ spec.Legal t actions

/-- The first operation returned before the second was invoked. -/
def Operation.Precedes (first second : Operation A) : Prop := first.returnedAt < second.invokedAt

/-- The order has exactly the operations, keeps real time and is legal from the state. -/
def SequentialSpec.Linearizes (spec : SequentialSpec A State Key M) (state : State)
    (operations order : List (Operation A)) : Prop :=
  order.Perm operations ∧ Respects Operation.Precedes order ∧
    spec.Legal state (order.map Operation.action)

namespace Engine

/-! ## Visits that decide -/

section

variable (spec : SequentialSpec A State Key M) (operations : List (Prepared A))
  (limits : SearchLimits)

/-- The operations at the positions can be completed from the state. -/
def Can (positions : Finset (Fin operations.length)) (state : State) : Prop :=
  Completable
    (fun i j => (operations.get i).operation.Precedes (operations.get j).operation)
    (fun state i => {next | next ∈ (spec.step state (operations.get i).operation.action).states})
    positions state

/-- Every remembered failure is one. -/
def Sound (engine : Engine Key M) : Prop :=
  ∀ unplaced state, (unplaced, spec.key state) ∈ engine.failed →
    ¬Can spec operations (members operations.length unplaced) state

/-- From a sound engine, the visit ends with a value that is positive just when `p` holds, or past
its budget. -/
def Decides {α : Type} (x : Visit Key M α) (positive : α → Prop) (p : Prop) : Prop :=
  ∀ engine, Sound spec operations engine →
    Ends x engine (fun a engine' => Sound spec operations engine' ∧ (positive a ↔ p))
      (fun _ engine' => limits.configurations < engine'.configurations)

end

variable {spec : SequentialSpec A State Key M} {operations : List (Prepared A)}
  {limits : SearchLimits}

theorem decides_pure {α : Type} {a : α} {positive : α → Prop} {p : Prop} (h : positive a ↔ p) :
    Decides spec operations limits (pure a) positive p :=
  fun _ hsound => ends_pure ⟨hsound, h⟩

variable {visits : Mask → State → Visit Key M Bool} {unplaced : Mask} {state : State}

theorem descend_decides {id : OperationId} {remainder : Mask} {p : Prop}
    (h : Decides spec operations limits (visits remainder state) (· = true) p) :
    Decides spec operations limits (descend visits id remainder state) (· = .ordered) p := by
  intro engine hsound
  have hends := h (engine.push id) hsound
  unfold Ends at hends ⊢
  unfold descend
  rcases hx : visits remainder state (engine.push id) with ⟨ended | ordered, engine'⟩
  · rw [hx] at hends
    exact hends
  · rw [hx] at hends
    cases ordered with
    | true | false => exact ⟨hends.1, by simpa using hends.2⟩

/-- A candidate is ordered when one of its next states can be. -/
theorem attempt_decides {index : ℕ} {operation : Operation A} {q : State → Prop}
    (h : ∀ next ∈ (spec.step state operation.action).states,
      Decides spec operations limits (visits (unplaced &&& ~~~bit index) next) (· = true)
        (q next)) :
    Decides spec operations limits (attempt spec visits unplaced state index operation)
      (· = .ordered) (∃ next ∈ (spec.step state operation.action).states, q next) := by
  unfold attempt
  cases hstep : spec.step state operation.action with
  | impossible reason => exact decides_pure (by simp [Step.states])
  | next next =>
    rw [hstep] at h
    have hnext := h next (by simp [Step.states])
    simpa [Step.states] using descend_decides hnext
  | choice first second =>
    rw [hstep] at h
    have hfirst := h first (by simp [Step.states])
    have hsecond := h second (by simp [Step.states])
    intro engine hsound
    apply (descend_decides hfirst engine hsound).bind
    rintro result engine' ⟨hsound', hresult⟩
    cases result with
    | ordered => exact ends_pure ⟨hsound', by simpa [Step.states] using Or.inl (hresult.1 rfl)⟩
    | failed reason =>
      have hnot : ¬q first := fun hq => by simpa using hresult.2 hq
      simpa [Step.states, hnot] using descend_decides hsecond engine' hsound'

/-- The loop over the candidates finds an ordered one if there is any. -/
theorem attempts_decides {q : Fin operations.length → Prop} (l : List (Fin operations.length))
    (h : ∀ index ∈ l, Decides spec operations limits
      (attempt spec visits unplaced state index (operations.get index).operation) (· = .ordered)
      (q index)) :
    ∀ failures, Decides spec operations limits
      (attempts spec operations visits unplaced state l failures) (· = none) (∃ i ∈ l, q i) := by
  induction l with
  | nil =>
    intro failures
    exact decides_pure (by simp)
  | cons index rest ih =>
    intro failures engine hsound
    unfold attempts
    apply (h index List.mem_cons_self engine hsound).bind
    rintro result engine' ⟨hsound', hresult⟩
    cases result with
    | ordered => exact ends_pure ⟨hsound', by simpa using Or.inl (hresult.1 rfl)⟩
    | failed reason =>
      have hnot : ¬q index := fun hq => by simpa using hresult.2 hq
      have hrest := ih (fun i hi => h i (List.mem_cons_of_mem _ hi))
        (failures ++ [⟨(operations.get index).operation.id, reason⟩]) engine' hsound'
      simpa [hnot] using hrest

/-! ## A visit -/

/-- States with one key complete the same operations. -/
theorem can_congr (hkey : spec.KeyFaithful) {s t : State} (h : spec.key s = spec.key t)
    (positions : Finset (Fin operations.length)) :
    Can spec operations positions s ↔ Can spec operations positions t := by
  apply completable_congr
  intro l
  have := hkey s t h (l.map fun i => (operations.get i).operation.action)
  rw [SequentialSpec.Legal, runs_map, runs_map] at this
  exact this

theorem Sound.abandon {engine : Engine Key M} (hkey : spec.KeyFaithful)
    (hsound : Sound spec operations engine)
    (h : ¬Can spec operations (members operations.length unplaced) state)
    (failures : List (Candidate M)) :
    Sound spec operations (engine.abandon (unplaced, spec.key state) failures) := by
  intro unplaced' state' hmem
  rcases List.mem_cons.1 hmem with heq | hmem
  · obtain ⟨rfl, hstate⟩ := Prod.mk.inj heq
    rwa [can_congr hkey hstate]
  · exact hsound unplaced' state' hmem

/-- The masks of predecessors are those of the operations' intervals. -/
structure Ready (operations : List (Prepared A)) : Prop where
  representable : operations.length ≤ representableOperations
  mustFollow : ∀ (i : Fin operations.length) (j : ℕ),
    (operations.get i).mustFollow.getLsbD j = true ↔
      ∃ h : j < operations.length,
        (operations.get ⟨j, h⟩).operation.Precedes (operations.get i).operation

/-- The candidates are the unplaced operations that follow no other one. -/
theorem Ready.mem_candidates (hready : Ready operations) (index : Fin operations.length) :
    index ∈ candidates operations unplaced ↔
      index ∈ members operations.length unplaced ∧ ∀ j ∈ members operations.length unplaced,
        ¬(operations.get j).operation.Precedes (operations.get index).operation := by
  rw [Engine.mem_candidates hready.representable]
  refine and_congr_right fun _ => ?_
  constructor
  · intro h j hj hprecedes
    have hfalse := h j ((hready.mustFollow index j).2 ⟨j.isLt, hprecedes⟩)
    rw [mem_members.1 hj] at hfalse
    exact Bool.noConfusion hfalse
  · intro h j hj
    obtain ⟨hlt, hprecedes⟩ := (hready.mustFollow index j).1 hj
    rw [Bool.eq_false_iff]
    exact fun hbit => h ⟨j, hlt⟩ (mem_members.2 hbit) hprecedes

/-- One more operation placed: what can be completed can be through a candidate. -/
theorem Ready.can_iff (hready : Ready operations) (hfits : Fits operations.length unplaced)
    (hne : unplaced ≠ 0) :
    Can spec operations (members operations.length unplaced) state ↔
      ∃ index ∈ candidates operations unplaced,
        ∃ next ∈ (spec.step state (operations.get index).operation.action).states,
          Can spec operations (members operations.length (unplaced &&& ~~~bit index)) next := by
  have hnonempty : (members operations.length unplaced).Nonempty := by
    rw [Finset.nonempty_iff_ne_empty, ne_eq, members_eq_empty_iff hfits]
    exact hne
  unfold Can
  rw [completable_iff hnonempty]
  simp only [hready.mem_candidates, members_remove hready.representable, and_assoc,
    Set.mem_ofPred_eq]

theorem explore_decides [DecidableEq Key] (hkey : spec.KeyFaithful) (hready : Ready operations)
    (depth : ℕ) :
    ∀ (unplaced : Mask) (state : State), Fits operations.length unplaced →
      (members operations.length unplaced).card ≤ depth →
      Decides spec operations limits (explore spec operations limits depth unplaced state)
        (· = true) (Can spec operations (members operations.length unplaced) state) := by
  induction depth with
  | zero =>
    intro unplaced state hfits hcard
    have hempty : members operations.length unplaced = ∅ := by
      rwa [Nat.le_zero, Finset.card_eq_zero] at hcard
    have hzero := (members_eq_empty_iff hfits).1 hempty
    refine decides_pure ?_
    rw [hempty]
    exact iff_of_true (decide_eq_true hzero) completable_empty
  | succ depth ih =>
    intro unplaced state hfits hcard engine hsound
    unfold explore
    by_cases hzero : unplaced = 0
    · rw [if_pos hzero]
      refine ends_pure ⟨hsound, iff_of_true rfl ?_⟩
      rw [(members_eq_empty_iff hfits).2 hzero]
      exact completable_empty
    · rw [if_neg hzero]
      apply ends_update_bind
      apply ends_current_bind
      by_cases hbudget : limits.configurations < engine.visit.configurations
      · rw [if_pos hbudget]
        exact ends_fail hbudget
      rw [if_neg hbudget]
      dsimp only
      by_cases hfailed : (unplaced, spec.key state) ∈ engine.visit.failed
      · rw [if_pos hfailed]
        exact ends_pure ⟨hsound, iff_of_false Bool.false_ne_true (hsound unplaced state hfailed)⟩
      · rw [if_neg hfailed]
        -- the candidates are visited with one operation less to place
        have hcandidates : ∀ index ∈ candidates operations unplaced, Decides spec operations limits
            (attempt spec (explore spec operations limits depth) unplaced state index
              (operations.get index).operation) (· = .ordered)
            (∃ next ∈ (spec.step state (operations.get index).operation.action).states,
              Can spec operations (members operations.length (unplaced &&& ~~~bit index))
                next) := by
          intro index hindex
          apply attempt_decides
          intro next _
          apply ih _ _ (hfits.remove _)
          have hmem := ((hready.mem_candidates index).1 hindex).1
          rw [members_remove hready.representable, Finset.card_erase_of_mem hmem]
          omega
        apply (attempts_decides _ hcandidates [] engine.visit hsound).bind
        rintro outcome engine' ⟨hsound', houtcome⟩
        rw [← hready.can_iff hfits hzero] at houtcome
        cases outcome with
        | none => exact ends_pure ⟨hsound', iff_of_true rfl (houtcome.1 rfl)⟩
        | some failures =>
          have hnot : ¬Can spec operations (members operations.length unplaced) state :=
            fun h => by simpa using houtcome.2 h
          apply ends_update_bind
          exact ends_pure
            ⟨hsound'.abandon hkey hnot failures, iff_of_false Bool.false_ne_true hnot⟩

end Engine

/-! ## The search -/

open Engine

theorem length_prepare (operations : List (Operation A)) :
    (prepare operations).length = operations.length := by
  simp [prepare]

theorem get_prepare (operations : List (Operation A)) (i : Fin (prepare operations).length) :
    (prepare operations).get i =
      ⟨operations.get (i.cast (length_prepare operations)),
        mustFollowOf operations (operations.get (i.cast (length_prepare operations)))⟩ := by
  rw [List.get_eq_getElem]
  simp only [prepare, List.getElem_map]
  rfl

theorem map_operation_prepare (operations : List (Operation A)) :
    (prepare operations).map Prepared.operation = operations := by
  simp [prepare, Function.comp_def]

theorem prepare_ready {operations : List (Operation A)}
    (h : operations.length ≤ representableOperations) : Ready (prepare operations) := by
  refine ⟨by rwa [length_prepare], ?_⟩
  intro i j
  rw [get_prepare, getLsbD_mustFollowOf h]
  constructor
  · rintro ⟨predecessor, hget, hlt⟩
    obtain ⟨hj, rfl⟩ := List.getElem?_eq_some_iff.1 hget
    refine ⟨by rwa [length_prepare], ?_⟩
    rw [get_prepare]
    exact hlt
  · rintro ⟨hj, hlt⟩
    rw [get_prepare] at hlt
    rw [length_prepare] at hj
    exact ⟨operations[j], List.getElem?_eq_getElem hj, hlt⟩

/-- All the prepared operations can be completed just when an order of the operations is legal. -/
theorem can_prepare_iff {spec : SequentialSpec A State Key M} {operations : List (Operation A)}
    {state : State} :
    Can spec (prepare operations) Finset.univ state ↔
      ∃ order, spec.Linearizes state operations order := by
  have hiff := completable_univ_iff (s := state)
    (fun a b : Prepared A => a.operation.Precedes b.operation)
    (fun state p => {next | next ∈ (spec.step state p.operation.action).states})
    (prepare operations)
  refine hiff.trans ⟨?_, ?_⟩
  · rintro ⟨order, hperm, hrespects, hruns⟩
    refine ⟨order.map Prepared.operation, ?_, respects_map.2 hrespects,
      runs_map.2 (runs_map.2 hruns)⟩
    have hmap := hperm.map Prepared.operation
    rwa [map_operation_prepare] at hmap
  · rintro ⟨order, hperm, hrespects, hruns⟩
    rw [← map_operation_prepare operations] at hperm
    obtain ⟨prepared, hprepared, rfl⟩ := exists_perm_map hperm
    exact ⟨prepared, hprepared, respects_map.1 hrespects, runs_map.1 (runs_map.1 hruns)⟩

variable [DecidableEq Key] {spec : SequentialSpec A State Key M} {operations : List (Operation A)}
  {state : State} {limits : SearchLimits}

/-- A search within its limits is a visit of all the operations. -/
theorem explore_prepare_decides (hkey : spec.KeyFaithful)
    (h : operations.length ≤ limits.operations) :
    Ends (explore spec (prepare operations) limits (prepare operations).length
        (lowBits (prepare operations).length) state) {}
      (fun ordered _ => ordered = true ↔ ∃ order, spec.Linearizes state operations order)
      (fun _ engine => limits.configurations < engine.configurations) := by
  have hready := prepare_ready (h.trans limits.representable)
  have hcard : (members (prepare operations).length
      (lowBits (prepare operations).length)).card ≤ (prepare operations).length := by
    simpa using Finset.card_le_univ (members (prepare operations).length _)
  have hempty : Sound spec (prepare operations) ({} : Engine Key M) := by
    intro unplaced state hmem
    exact absurd hmem List.not_mem_nil
  apply (explore_decides hkey hready _ _ state (fits_lowBits hready.representable) hcard {}
    hempty).mono
  · rintro ordered engine ⟨_, hordered⟩
    rwa [members_lowBits hready.representable, can_prepare_iff] at hordered
  · exact fun _ _ h => h

/-- A report means that an order exists and a missing order that there is none; the budget ends only
when more positions than the limit were visited, and only more operations than the limit are
refused. -/
theorem search_decides (hkey : spec.KeyFaithful) (operations : List (Operation A))
    (discharged : ℕ) (state : State) (limits : SearchLimits) :
    (∀ report, search operations discharged state spec limits = .ok report →
      report.configurations = (searchVisited operations state spec limits).length ∧
        ∃ order, spec.Linearizes state operations order) ∧
    (∀ frontier, search operations discharged state spec limits = .error (.noOrder frontier) →
      ¬∃ order, spec.Linearizes state operations order) ∧
    (∀ configurations bound, search operations discharged state spec limits =
        .error (.budgetExhausted configurations bound) →
      configurations = (searchVisited operations state spec limits).length ∧
        bound = limits.configurations ∧ bound < configurations) ∧
    (∀ count bound, search operations discharged state spec limits =
        .error (.tooManyOperations count bound) →
      bound = limits.operations ∧ bound < operations.length) := by
  unfold search
  by_cases h : limits.operations < operations.length
  · rw [if_pos h]
    refine ⟨by simp, by simp, by simp, ?_⟩
    rintro count bound ⟨⟩
    exact ⟨rfl, h⟩
  · have hends := @explore_prepare_decides _ _ _ _ _ spec operations state limits hkey (not_lt.1 h)
    have hcount := @explore_counts _ _ _ _ _ spec (prepare operations) limits
      (prepare operations).length (lowBits (prepare operations).length) state {}
    rw [if_neg h]
    dsimp only
    rcases hx : explore spec (prepare operations) limits (prepare operations).length
      (lowBits (prepare operations).length) state {} with ⟨ended | ordered, engine⟩ <;>
      rw [hx, Nat.zero_add] at hcount
    · refine ⟨by simp, by simp, ?_, by simp⟩
      rintro configurations bound ⟨⟩
      exact ⟨hcount, rfl, hends.of_error hx⟩
    · have hends := hends.of_ok hx
      cases ordered with
      | true =>
        refine ⟨?_, by simp, by simp, by simp⟩
        rintro report ⟨⟩
        exact ⟨hcount, hends.1 rfl⟩
      | false =>
        refine ⟨by simp, fun _ _ horder => ?_, by simp, by simp⟩
        exact Bool.false_ne_true (hends.2 horder)

/-! A counter, as in the engine's own tests. -/

/-- The actions on a counter. -/
inductive CounterAction where
  | add (delta observed : ℕ)
  | observe (observed : ℕ)
  | unresolved (delta : ℕ)

/-- What a counter allows. -/
def counter : SequentialSpec CounterAction ℕ ℕ (ℕ × ℕ) where
  key state := state
  step state
    | .add delta observed =>
      if state + delta = observed then .next (state + delta)
      else .impossible (state + delta, observed)
    | .observe observed => if state = observed then .next state else .impossible (state, observed)
    | .unresolved delta => .choice (state + delta) state

theorem counter_keyFaithful : counter.KeyFaithful := by
  rintro s t rfl actions
  rfl

/-- Limits that the histories below keep. -/
def counterLimits : SearchLimits := ⟨24, 200000, by decide, by decide⟩

/-- An unresolved increment that took no effect. -/
def unresolvedHistory : List (Operation CounterAction) :=
  [⟨1, .unresolved 2, 0, 5⟩, ⟨2, .add 1 1, 1, 2⟩, ⟨3, .observe 1, 3, 4⟩]

/-- An observation that real time puts after an increment it does not see. -/
def staleHistory : List (Operation CounterAction) := [⟨1, .add 1 1, 0, 1⟩, ⟨2, .observe 0, 2, 3⟩]

theorem search_decides_counter :
    (search unresolvedHistory 0 0 counter counterLimits = .ok ⟨3, 0, 4⟩ ∧
      ∃ order, counter.Linearizes 0 unresolvedHistory order) ∧
    (search unresolvedHistory 0 0 counter ⟨24, 3, by decide, by decide⟩ =
        .error (.budgetExhausted 4 3) ∧
      (searchVisited unresolvedHistory 0 counter ⟨24, 3, by decide, by decide⟩).length = 4) ∧
    (search staleHistory 0 0 counter counterLimits =
        .error (.noOrder ⟨[1], [⟨2, .mismatch (1, 0)⟩]⟩) ∧
      ¬∃ order, counter.Linearizes 0 staleHistory order) := by
  have hunresolved : search unresolvedHistory 0 0 counter counterLimits = .ok ⟨3, 0, 4⟩ := by
    decide +kernel
  have hbudget : search unresolvedHistory 0 0 counter ⟨24, 3, by decide, by decide⟩ =
      .error (.budgetExhausted 4 3) := by
    decide +kernel
  have hstale : search staleHistory 0 0 counter counterLimits =
      .error (.noOrder ⟨[1], [⟨2, .mismatch (1, 0)⟩]⟩) := by
    decide +kernel
  exact ⟨⟨hunresolved, ((search_decides counter_keyFaithful _ 0 0 _).1 _ hunresolved).2⟩,
    ⟨hbudget, ((search_decides counter_keyFaithful _ 0 0 _).2.2.1 _ _ hbudget).1.symm⟩, hstale,
    (search_decides counter_keyFaithful _ 0 0 _).2.1 _ hstale⟩

end Rafter.Harness
