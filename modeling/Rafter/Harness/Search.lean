import Rafter.Fallible
import Rafter.Linearization
import Mathlib.Data.BitVec

/-!
# The ordering search of the reference harness

`reference/harness/src`: a bounded search for an order of observed operations that respects real
time and that a caller's sequential specification allows (`search.rs`, with the types of
`operation.rs`, `specification.rs` and `outcome.rs`). Sets of operations are masks of 32 bits; the
positions from which the search failed are remembered by mask and state key.

Results:

* `Engine.explore_counts`: the visit counter counts the positions visited;
* `getLsbD_mustFollowOf`: an operation must follow those that returned before it was invoked.
-/

namespace Rafter.Harness

open Fallible

/-! ## Operations and specifications -/

/-- `OperationId`. -/
abbrev OperationId := ℕ

/-- `Operation`: an action with the interval in which it was observed. -/
structure Operation (A : Type) where
  id : OperationId
  action : A
  invokedAt : ℕ
  returnedAt : ℕ
deriving DecidableEq

/-- `Step`: what the specification allows an action to do. -/
inductive Step (S M : Type) where
  | impossible (reason : M)
  | next (next : S)
  | choice (first second : S)
deriving DecidableEq

/-- `SequentialSpec`: a key that joins states, and the step of an action. -/
structure SequentialSpec (A State Key Mismatch : Type) where
  key : State → Key
  step : State → A → Step State Mismatch

/-- `CandidateReason`. -/
inductive CandidateReason (M : Type) where
  | mismatch (reason : M)
  | noContinuation
deriving DecidableEq

/-- `Candidate`. -/
structure Candidate (M : Type) where
  operationId : OperationId
  reason : CandidateReason M
deriving DecidableEq

/-- `SearchReport`. -/
structure SearchReport where
  searchedOperations : ℕ
  dischargedOperations : ℕ
  configurations : ℕ
deriving DecidableEq

/-- `SearchFrontier`. -/
structure SearchFrontier (M : Type) where
  placed : List OperationId
  candidates : List (Candidate M)
deriving DecidableEq

/-- `SearchError`. -/
inductive SearchError (M : Type) where
  | tooManyOperations (operations bound : ℕ)
  | budgetExhausted (configurations bound : ℕ)
  | noOrder (frontier : SearchFrontier M)
deriving DecidableEq

/-! ## Limits and masks -/

/-- The bits of a mask. -/
def representableOperations : ℕ := 32

/-- `SearchLimits`. -/
structure SearchLimits where
  operations : ℕ
  configurations : ℕ
  visits : configurations ≠ 0
  representable : operations ≤ representableOperations

/-- `SearchLimits::new`. -/
def SearchLimits.new (operations configurations : ℕ) : Option SearchLimits :=
  if h : configurations = 0 ∨ representableOperations < operations then none
  else some ⟨operations, configurations, fun h₀ => h (Or.inl h₀), not_lt.1 fun h₁ => h (Or.inr h₁)⟩

/-- A set of operations. -/
abbrev Mask := BitVec representableOperations

/-- `bit`. -/
def bit (index : ℕ) : Mask := BitVec.ofNat representableOperations 1 <<< index

/-- `low_bits`. -/
def lowBits (count : ℕ) : Mask :=
  if count = representableOperations then BitVec.allOnes representableOperations
  else BitVec.ofNat representableOperations 1 <<< count - BitVec.ofNat representableOperations 1

/-- `Prepared`. -/
structure Prepared (A : Type) where
  operation : Operation A
  mustFollow : Mask

/-- The operations that returned before this one was invoked. -/
def mustFollowOf {A : Type} (operations : List (Operation A)) (operation : Operation A) : Mask :=
  (operations.zipIdx.filter fun p => p.1.returnedAt < operation.invokedAt).foldl
    (fun mask p => mask ||| bit p.2) 0

/-- `prepare`. -/
def prepare {A : Type} (operations : List (Operation A)) : List (Prepared A) :=
  operations.map fun operation => ⟨operation, mustFollowOf operations operation⟩

/-! ## The engine -/

/-- `BudgetEnded`. -/
inductive BudgetEnded where
  | budgetEnded

/-- `Position`. -/
structure Position (M : Type) where
  placed : List OperationId := []
  candidates : List (Candidate M) := []

/-- `CandidateResult`. -/
inductive CandidateResult (M : Type) where
  | ordered
  | failed (reason : CandidateReason M)

/-- What an engine writes while it searches. -/
structure Engine (Key M : Type) where
  failed : List (Mask × Key) := []
  configurations : ℕ := 0
  placed : List OperationId := []
  deepest : Position M := {}

/-- A computation of the engine. -/
abbrev Visit (Key M α : Type) := Fallible (Engine Key M) BudgetEnded α

variable {A State Key M : Type} [DecidableEq Key]

namespace Engine

/-- Count a visit. -/
def visit (engine : Engine Key M) : Engine Key M :=
  { engine with configurations := engine.configurations + 1 }

/-- Place an operation. -/
def push (id : OperationId) (engine : Engine Key M) : Engine Key M :=
  { engine with placed := engine.placed ++ [id] }

/-- Take the last one back. -/
def pop (engine : Engine Key M) : Engine Key M :=
  { engine with placed := engine.placed.dropLast }

/-- A position every candidate of which failed. -/
def abandon (configuration : Mask × Key) (candidates : List (Candidate M))
    (engine : Engine Key M) : Engine Key M :=
  { engine with
    deepest := if engine.deepest.placed.length ≤ engine.placed.length
      then ⟨engine.placed, candidates⟩ else engine.deepest
    failed := configuration :: engine.failed }

/-- `candidates`. -/
def candidates (operations : List (Prepared A)) (unplaced : Mask) : List (Fin operations.length) :=
  ((List.finRange operations.length).filter fun index => unplaced &&& bit index.val ≠ 0).filter
    fun index => (operations.get index).mustFollow &&& unplaced = 0

/-- The placed identifier is taken back however the visit below ends. -/
def descend (explore : Mask → State → Visit Key M Bool) (id : OperationId) (remainder : Mask)
    (state : State) : Visit Key M (CandidateResult M) := fun engine =>
  match explore remainder state (engine.push id) with
  | (.ok true, engine) => (.ok .ordered, engine.pop)
  | (.ok false, engine) => (.ok (.failed .noContinuation), engine.pop)
  | (.error ended, engine) => (.error ended, engine.pop)

/-- The body of the loop over the candidates. -/
def attempt (spec : SequentialSpec A State Key M) (explore : Mask → State → Visit Key M Bool)
    (unplaced : Mask) (state : State) (index : ℕ) (operation : Operation A) :
    Visit Key M (CandidateResult M) :=
  let remainder := unplaced &&& ~~~bit index
  match spec.step state operation.action with
  | .impossible reason => pure (.failed (.mismatch reason))
  | .next next => descend explore operation.id remainder next
  | .choice first second => do
    match ← descend explore operation.id remainder first with
    | .ordered => pure .ordered
    | .failed _ => descend explore operation.id remainder second

/-- The loop over the candidates: none when one of them was ordered, otherwise why each failed. -/
def attempts (spec : SequentialSpec A State Key M) (operations : List (Prepared A))
    (explore : Mask → State → Visit Key M Bool) (unplaced : Mask) (state : State) :
    List (Fin operations.length) → List (Candidate M) → Visit Key M (Option (List (Candidate M)))
  | [], failures => pure (some failures)
  | index :: rest, failures => do
    let operation := (operations.get index).operation
    match ← attempt spec explore unplaced state index operation with
    | .ordered => pure none
    | .failed reason =>
      attempts spec operations explore unplaced state rest (failures ++ [⟨operation.id, reason⟩])

/-- The recursion is as deep as there are operations to place. -/
def explore (spec : SequentialSpec A State Key M) (operations : List (Prepared A))
    (limits : SearchLimits) : ℕ → Mask → State → Visit Key M Bool
  | 0, unplaced, _ => pure (unplaced = 0)
  | depth + 1, unplaced, state =>
    if unplaced = 0 then pure true
    else do
      update visit
      let engine ← current
      if limits.configurations < engine.configurations then fail .budgetEnded
      else
        let configuration := (unplaced, spec.key state)
        if configuration ∈ engine.failed then pure false
        else
          match ← attempts spec operations (explore spec operations limits depth) unplaced state
              (candidates operations unplaced) [] with
          | none => pure true
          | some failures => do
            update (abandon configuration failures)
            pure false

end Engine

/-- `search`. -/
def search (operations : List (Operation A)) (dischargedOperations : ℕ) (initialState : State)
    (spec : SequentialSpec A State Key M) (limits : SearchLimits) :
    Except (SearchError M) SearchReport :=
  if limits.operations < operations.length then
    .error (.tooManyOperations operations.length limits.operations)
  else
    let prepared := prepare operations
    match Engine.explore spec prepared limits prepared.length (lowBits prepared.length) initialState
        {} with
    | (.ok true, engine) =>
      .ok ⟨operations.length, dischargedOperations, engine.configurations⟩
    | (.ok false, engine) => .error (.noOrder ⟨engine.deepest.placed, engine.deepest.candidates⟩)
    | (.error _, engine) =>
      .error (.budgetExhausted engine.configurations limits.configurations)

/-! ## The positions a search visits -/

namespace Engine

/-- The positions visited below one candidate, where `visited` says what a visit below visits. -/
def attemptVisited (spec : SequentialSpec A State Key M)
    (explore : Mask → State → Visit Key M Bool)
    (visited : Mask → State → Engine Key M → List (Mask × State)) (unplaced : Mask)
    (state : State) (index : ℕ) (operation : Operation A) : Engine Key M → List (Mask × State) :=
  let remainder := unplaced &&& ~~~bit index
  match spec.step state operation.action with
  | .impossible _ => fun _ => []
  | .next next => visited remainder next ∘ push operation.id
  | .choice first second =>
    notesBind (descend explore operation.id remainder first)
      (visited remainder first ∘ push operation.id) fun
      | .ordered => fun _ => []
      | .failed _ => visited remainder second ∘ push operation.id

/-- The positions visited by the loop over the candidates. -/
def attemptsVisited (spec : SequentialSpec A State Key M) (operations : List (Prepared A))
    (explore : Mask → State → Visit Key M Bool)
    (visited : Mask → State → Engine Key M → List (Mask × State)) (unplaced : Mask)
    (state : State) : List (Fin operations.length) → Engine Key M → List (Mask × State)
  | [] => fun _ => []
  | index :: rest =>
    let operation := (operations.get index).operation
    notesBind (attempt spec explore unplaced state index operation)
      (attemptVisited spec explore visited unplaced state index operation) fun
      | .ordered => fun _ => []
      | .failed _ => attemptsVisited spec operations explore visited unplaced state rest

/-- The positions `explore` is called at with operations left to place, in the order of the calls.
The last one may be past the budget, and one that is remembered as failed is visited as well. -/
def exploreVisited (spec : SequentialSpec A State Key M) (operations : List (Prepared A))
    (limits : SearchLimits) : ℕ → Mask → State → Engine Key M → List (Mask × State)
  | 0, _, _, _ => []
  | depth + 1, unplaced, state, engine =>
    if unplaced = 0 then []
    else
      (unplaced, state) ::
        if limits.configurations < engine.visit.configurations ∨
            (unplaced, spec.key state) ∈ engine.failed then []
        else
          attemptsVisited spec operations (explore spec operations limits depth)
            (exploreVisited spec operations limits depth) unplaced state
            (candidates operations unplaced) engine.visit

variable {spec : SequentialSpec A State Key M} {operations : List (Prepared A)}
  {limits : SearchLimits} {explores : Mask → State → Visit Key M Bool} {unplaced : Mask}
  {state : State} {visited : Mask → State → Engine Key M → List (Mask × State)}

section

omit [DecidableEq Key]

theorem descend_counts {id : OperationId}
    (h : Counts configurations (explores unplaced state) (visited unplaced state)) :
    Counts configurations (descend explores id unplaced state)
      (visited unplaced state ∘ push id) := by
  intro engine
  have hcount := h (engine.push id)
  unfold descend
  rcases hx : explores unplaced state (engine.push id) with ⟨ended | ordered, engine'⟩ <;>
    rw [hx] at hcount
  · exact hcount
  · cases ordered with
    | true | false => exact hcount

theorem attempt_counts {index : ℕ} {operation : Operation A}
    (h : ∀ unplaced state,
      Counts configurations (explores unplaced state) (visited unplaced state)) :
    Counts configurations (attempt spec explores unplaced state index operation)
      (attemptVisited spec explores visited unplaced state index operation) := by
  unfold attempt attemptVisited
  cases spec.step state operation.action with
  | impossible reason => exact fun _ => rfl
  | next next => exact descend_counts (h _ _)
  | choice first second =>
    apply (descend_counts (h _ _)).bind
    rintro (_ | reason)
    · exact fun _ => rfl
    · exact descend_counts (h _ _)

theorem attempts_counts
    (h : ∀ unplaced state,
      Counts configurations (explores unplaced state) (visited unplaced state))
    (l : List (Fin operations.length)) :
    ∀ failures, Counts configurations (attempts spec operations explores unplaced state l failures)
      (attemptsVisited spec operations explores visited unplaced state l) := by
  induction l with
  | nil => exact fun _ _ => rfl
  | cons index rest ih =>
    intro failures
    apply (attempt_counts h).bind
    rintro (_ | reason)
    · exact fun _ => rfl
    · exact ih _

end

/-- The engine counts the positions it visits, each visit once. -/
theorem explore_counts (depth : ℕ) :
    ∀ (unplaced : Mask) (state : State),
      Counts configurations (explore spec operations limits depth unplaced state)
        (exploreVisited spec operations limits depth unplaced state) := by
  induction depth with
  | zero => exact fun _ _ _ => rfl
  | succ depth ih =>
    intro unplaced state engine
    unfold explore exploreVisited
    by_cases hzero : unplaced = 0
    · rw [if_pos hzero, if_pos hzero]
      rfl
    rw [if_neg hzero, if_neg hzero, List.length_cons, ← Nat.add_assoc, Nat.add_right_comm]
    change Engine.configurations
      ((if limits.configurations < engine.visit.configurations then fail .budgetEnded
        else if (unplaced, spec.key state) ∈ engine.failed then pure false
        else _ : Visit Key M Bool) engine.visit).2 = engine.visit.configurations + _
    by_cases hbudget : limits.configurations < engine.visit.configurations
    · rw [if_pos hbudget, if_pos (Or.inl hbudget)]
      rfl
    by_cases hfailed : (unplaced, spec.key state) ∈ engine.failed
    · rw [if_neg hbudget, if_pos hfailed, if_pos (Or.inr hfailed)]
      rfl
    rw [if_neg hbudget, if_neg hfailed, if_neg (not_or.2 ⟨hbudget, hfailed⟩)]
    apply (attempts_counts ih (candidates operations unplaced) []).bind_leaves
    rintro (_ | failures) <;> exact fun _ => rfl

end Engine

/-- The positions a search visits. -/
def searchVisited (operations : List (Operation A)) (initialState : State)
    (spec : SequentialSpec A State Key M) (limits : SearchLimits) : List (Mask × State) :=
  Engine.exploreVisited spec (prepare operations) limits (prepare operations).length
    (lowBits (prepare operations).length) initialState {}

/-! ## Masks as sets -/

theorem bit_eq_twoPow (index : ℕ) : bit index = BitVec.twoPow representableOperations index :=
  (BitVec.twoPow_eq _ _).symm

theorem getLsbD_bit {i : ℕ} (hi : i < representableOperations) (j : ℕ) :
    (bit i).getLsbD j = decide (i = j) := by
  rw [bit_eq_twoPow, BitVec.getLsbD_twoPow]
  simp [hi]

theorem getLsbD_lowBits {count : ℕ} (h : count ≤ representableOperations) (j : ℕ) :
    (lowBits count).getLsbD j = decide (j < count) := by
  rcases eq_or_lt_of_le h with rfl | hlt
  · simp [lowBits]
  · have hpos : 0 < 2 ^ count := Nat.two_pow_pos count
    have hpow : 2 ^ count < 2 ^ representableOperations := Nat.pow_lt_pow_right (by omega) hlt
    have hnat : (lowBits count).toNat = 2 ^ count - 1 := by
      unfold lowBits
      rw [if_neg hlt.ne, ← BitVec.twoPow_eq, BitVec.toNat_sub_of_le]
      · rw [BitVec.toNat_twoPow_of_lt hlt]
        rfl
      · rw [BitVec.le_def, BitVec.toNat_twoPow_of_lt hlt]
        exact hpos
    rw [← BitVec.testBit_toNat, hnat, Nat.testBit_two_pow_sub_one]

/-- The positions of a mask, among `n` operations. -/
def members (n : ℕ) (mask : Mask) : Finset (Fin n) :=
  Finset.univ.filter fun i => mask.getLsbD i

/-- The mask names no position past `n`. -/
def Fits (n : ℕ) (mask : Mask) : Prop := ∀ j, mask.getLsbD j = true → j < n

variable {n : ℕ} {mask other : Mask}

@[simp] theorem mem_members {i : Fin n} : i ∈ members n mask ↔ mask.getLsbD i = true := by
  simp [members]

theorem and_eq_zero_iff :
    mask &&& other = 0 ↔ ∀ j, mask.getLsbD j = true → other.getLsbD j = false := by
  constructor
  · intro h j hj
    have hand := congrArg (fun m => BitVec.getLsbD m j) h
    simpa [hj] using hand
  · intro h
    apply BitVec.eq_of_getLsbD_eq
    intro j hj
    rw [BitVec.getLsbD_and]
    cases hm : mask.getLsbD j with
    | false => simp
    | true => simp [h j hm]

theorem and_bit_ne_zero_iff {i : ℕ} (hi : i < representableOperations) :
    mask &&& bit i ≠ 0 ↔ mask.getLsbD i = true := by
  rw [ne_eq, and_eq_zero_iff]
  constructor
  · intro h
    by_contra hbit
    refine h fun j hj => ?_
    rw [getLsbD_bit hi, decide_eq_false_iff_not]
    rintro rfl
    exact hbit hj
  · intro hbit h
    have := h i hbit
    simp [getLsbD_bit hi] at this

theorem members_remove (hn : n ≤ representableOperations) (i : Fin n) :
    members n (mask &&& ~~~bit i) = (members n mask).erase i := by
  have hi : i.val < representableOperations := lt_of_lt_of_le i.isLt hn
  ext j
  have hj : j.val < representableOperations := lt_of_lt_of_le j.isLt hn
  simp only [mem_members, Finset.mem_erase, BitVec.getLsbD_and, BitVec.getLsbD_not,
    getLsbD_bit hi, Bool.and_eq_true, ne_eq, Fin.ext_iff, hj, decide_true, Bool.true_and,
    Bool.not_eq_true', decide_eq_false_iff_not]
  tauto

theorem Fits.remove (h : Fits n mask) (other : Mask) : Fits n (mask &&& other) := by
  intro j hj
  rw [BitVec.getLsbD_and, Bool.and_eq_true] at hj
  exact h j hj.1

theorem members_eq_empty_iff (h : Fits n mask) : members n mask = ∅ ↔ mask = 0 := by
  constructor
  · intro hempty
    apply BitVec.eq_of_getLsbD_eq
    intro j hj
    rw [BitVec.ofNat_eq_ofNat, BitVec.getLsbD_zero, Bool.eq_false_iff]
    intro hbit
    have hmem : (⟨j, h j hbit⟩ : Fin n) ∈ members n mask := mem_members.2 hbit
    rw [hempty] at hmem
    exact absurd hmem (Finset.notMem_empty _)
  · rintro rfl
    ext i
    simp

theorem fits_lowBits (hn : n ≤ representableOperations) : Fits n (lowBits n) := by
  intro j hj
  rw [getLsbD_lowBits hn] at hj
  exact of_decide_eq_true hj

theorem members_lowBits (hn : n ≤ representableOperations) :
    members n (lowBits n) = Finset.univ := by
  ext i
  simp [getLsbD_lowBits hn]

/-! ## Predecessors and candidates -/

theorem getLsbD_foldl_bit {α : Type} (l : List (α × ℕ))
    (hl : ∀ p ∈ l, p.2 < representableOperations) (mask : Mask) (j : ℕ) :
    (l.foldl (fun mask p => mask ||| bit p.2) mask).getLsbD j = true ↔
      mask.getLsbD j = true ∨ ∃ p ∈ l, p.2 = j := by
  induction l generalizing mask with
  | nil => simp
  | cons p l ih =>
    rw [List.foldl_cons, ih fun q hq => hl q (List.mem_cons_of_mem _ hq), BitVec.getLsbD_or,
      getLsbD_bit (hl p List.mem_cons_self)]
    simp only [Bool.or_eq_true, decide_eq_true_eq, List.mem_cons, exists_eq_or_imp, or_assoc]

theorem getLsbD_mustFollowOf {operations : List (Operation A)}
    (h : operations.length ≤ representableOperations) (operation : Operation A) (j : ℕ) :
    (mustFollowOf operations operation).getLsbD j = true ↔
      ∃ predecessor, operations[j]? = some predecessor ∧
        predecessor.returnedAt < operation.invokedAt := by
  unfold mustFollowOf
  rw [getLsbD_foldl_bit]
  · simp [List.mem_zipIdx_iff_getElem?]
  · intro p hp
    have hidx := List.mem_zipIdx_iff_getElem?.1 (List.mem_filter.1 hp).1
    exact lt_of_lt_of_le (List.getElem?_eq_some_iff.1 hidx).1 h

namespace Engine

theorem mem_candidates {operations : List (Prepared A)}
    (h : operations.length ≤ representableOperations) {unplaced : Mask}
    {index : Fin operations.length} :
    index ∈ candidates operations unplaced ↔
      index ∈ members operations.length unplaced ∧
        ∀ j, (operations.get index).mustFollow.getLsbD j = true → unplaced.getLsbD j = false := by
  have hi : index.val < representableOperations := lt_of_lt_of_le index.isLt h
  simp only [candidates, List.mem_filter, List.mem_finRange, true_and, decide_eq_true_eq,
    and_bit_ne_zero_iff hi, and_eq_zero_iff, mem_members]

end Engine

end Rafter.Harness
