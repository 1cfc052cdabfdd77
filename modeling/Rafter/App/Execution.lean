import Rafter.App.Durable
import Rafter.App.Pump
import Rafter.Cluster.Snapshots
import Rafter.Cluster.Structure
import Rafter.Refinement.Batch

/-!
# Outputs and their execution

A group installs the snapshots of an output vector as it walks over it and applies the entries it
collected after the walk. Executed one at a time, in output order, each output would have its effect
where it stands. The two agree on a vector in which no entry precedes a snapshot.

Results:

* `outputs_executed_in_order_iff`: over any run of a cluster with a node behind a group, the outputs
  of any number of runtime steps are executed in order exactly if no entry precedes a snapshot.
-/

namespace Rafter.App

open Fallible

/-! ## Correct state machines -/

/-- A state machine that does what it is asked: it applies and reports every entry of a batch, and
a snapshot takes it to the boundary. -/
structure CorrectStateMachine (A : ReplicatedStateMachine) where
  applied : A.State → ℕ
  decode : Payload → A.Command
  supported : A.snapshotSupport = .supported
  appliedIndex_eq : ∀ s, A.appliedIndex s = .ok (applied s)
  decodeCommand_eq : ∀ s payload, A.decodeCommand s payload = .ok (decode payload)
  applyBatch_eq : ∀ s entries, (∀ entry ∈ entries, applied s < entry.index) →
    (entries.map (·.index)).Pairwise (· < ·) → ∃ results, List.Forall₂ Answers entries results ∧
      A.applyBatch s entries = (.ok results, entries.foldl (fun s e => (A.applyBatch s [e]).2) s)
  applied_applyBatch : ∀ s entry, applied s < entry.index →
    applied (A.applyBatch s [entry]).2 = entry.index
  installSnapshot_eq : ∀ s snapshot, applied s < snapshot.metadata.lastIncludedIndex →
    (A.installSnapshot s ⟨snapshot.metadata.lastIncludedIndex, [], some snapshot⟩).1 = .ok ()
  applied_installed : ∀ s snapshot, applied s < snapshot.metadata.lastIncludedIndex →
    applied (A.installed s snapshot) = snapshot.metadata.lastIncludedIndex

/-- The boundary of a snapshot for the application. -/
def boundaryOf : Output → Option ℕ
  | .applySnapshot snapshot => some snapshot.metadata.lastIncludedIndex
  | _ => none

/-- The output is an entry for the application. -/
def isApply : Output → Bool
  | .apply _ _ _ _ => true
  | _ => false

/-- No entry precedes a snapshot. -/
def SnapshotsFirst (outputs : List Output) : Prop :=
  outputs.Pairwise fun x y => ¬ (isApply x ∧ y.isApplySnapshot)

instance (outputs : List Output) : Decidable (SnapshotsFirst outputs) :=
  inferInstanceAs (Decidable (outputs.Pairwise _))

namespace CorrectStateMachine

variable {A : ReplicatedStateMachine} (C : CorrectStateMachine A)

/-- The entry an output hands over. -/
def entryOf : Output → Option (ApplyEntry A.Command)
  | .apply index term payload id => some ⟨index, term, C.decode payload, id⟩
  | _ => none

/-- One output, executed where it stands. -/
def execute (s : A.State) : Output → A.State
  | .apply index term payload id => (A.applyBatch s [⟨index, term, C.decode payload, id⟩]).2
  | .applySnapshot snapshot => A.installed s snapshot
  | _ => s

/-- What the walk over the outputs does with one of them. -/
def installOne (A : ReplicatedStateMachine) (s : A.State) : Output → A.State
  | .applySnapshot snapshot => A.installed s snapshot
  | _ => s

/-- The state machine after the snapshots of a vector. -/
def installAll (A : ReplicatedStateMachine) (s : A.State) (outputs : List Output) : A.State :=
  outputs.foldl (installOne A) s

/-- The entries of a vector. -/
def entriesOf (outputs : List Output) : List (ApplyEntry A.Command) := outputs.filterMap C.entryOf

/-! ## Vectors -/

variable {C} {s : A.State} {output : Output} {outputs : List Output} {bound : ℕ}

theorem applied_installOne (h : ∀ b, boundaryOf output = some b → C.applied s < b) :
    C.applied (installOne A s output) = (boundaryOf output).getD (C.applied s) := by
  cases output with
  | applySnapshot snapshot => exact C.applied_installed s snapshot (h _ rfl)
  | _ => rfl

/-- The state machine after the snapshots: below an index if it was and all boundaries are. -/
theorem applied_installAll_lt_iff
    (h : (C.applied s :: outputs.filterMap boundaryOf).Pairwise (· < ·)) :
    C.applied (installAll A s outputs) < bound ↔
      C.applied s < bound ∧ ∀ b ∈ outputs.filterMap boundaryOf, b < bound := by
  induction outputs generalizing s with
  | nil => simp [installAll]
  | cons output rest ih =>
    change C.applied (installAll A (installOne A s output) rest) < bound ↔ _
    cases hb : boundaryOf output with
    | none =>
      rw [List.filterMap_cons_none hb] at h ⊢
      have hsame : installOne A s output = s := by
        cases output with
        | applySnapshot => cases hb
        | _ => rfl
      rw [hsame]
      exact ih h
    | some b =>
      rw [List.filterMap_cons_some hb] at h ⊢
      obtain ⟨hhead, htail⟩ := List.pairwise_cons.1 h
      have happlied : C.applied (installOne A s output) = b := by
        rw [applied_installOne, hb]
        · rfl
        · intro b' hb'
          obtain rfl := Option.some_inj.1 (hb.symm.trans hb')
          exact hhead b List.mem_cons_self
      rw [ih (by rw [happlied]; exact htail), happlied]
      have hlt := hhead b List.mem_cons_self
      constructor
      · rintro ⟨hbound, hall⟩
        exact ⟨hlt.trans hbound, List.forall_mem_cons.2 ⟨hbound, hall⟩⟩
      · rintro ⟨-, hall⟩
        exact List.forall_mem_cons.1 hall

theorem installAll_of_none (h : ∀ x ∈ outputs, ¬ x.isApplySnapshot) : installAll A s
    outputs = s := by
  induction outputs generalizing s with
  | nil => rfl
  | cons output rest ih =>
    have hsame : installOne A s output = s := by
      cases output with
      | applySnapshot => exact absurd rfl (h _ List.mem_cons_self)
      | _ => rfl
    change installAll A (installOne A s output) rest = s
    rw [hsame]
    exact ih fun x hx => h x (List.mem_cons_of_mem _ hx)

/-- In order, the vector can be executed in two passes. -/
theorem foldl_execute_eq (h : SnapshotsFirst outputs) : outputs.foldl C.execute s =
    (C.entriesOf outputs).foldl (fun s e => (A.applyBatch s [e]).2) (installAll A s outputs) := by
  induction outputs generalizing s with
  | nil => rfl
  | cons output rest ih =>
    obtain ⟨hhead, htail⟩ := List.pairwise_cons.1 h
    rw [List.foldl_cons, ih htail]
    cases output with
    | apply index term payload id =>
      have hnone : ∀ x ∈ rest, ¬ x.isApplySnapshot := fun x hx hsnapshot =>
        hhead x hx ⟨rfl, hsnapshot⟩
      change (C.entriesOf rest).foldl _ (installAll A _ rest) =
        (C.entriesOf rest).foldl _ (A.applyBatch (installAll A s rest) [_]).2
      rw [installAll_of_none hnone, installAll_of_none hnone]
      rfl
    | _ => rfl

theorem mem_entriesOf {entry : ApplyEntry A.Command} : entry ∈ C.entriesOf outputs ↔
    ∃ payload, entry.command = C.decode payload ∧
      .apply entry.index entry.term payload entry.localProposalId ∈ outputs := by
  unfold entriesOf
  rw [List.mem_filterMap]
  constructor
  · rintro ⟨output, hmem, hentry⟩
    cases output with
    | apply index term payload id =>
      obtain rfl := Option.some_inj.1 hentry
      exact ⟨payload, rfl, hmem⟩
    | _ => cases hentry
  · rintro ⟨payload, hcommand, hmem⟩
    refine ⟨_, hmem, ?_⟩
    rw [entryOf, ← hcommand]

theorem mem_boundaries {b : ℕ} : b ∈ outputs.filterMap boundaryOf ↔
    ∃ snapshot, .applySnapshot snapshot ∈ outputs ∧ snapshot.metadata.lastIncludedIndex = b := by
  rw [List.mem_filterMap]
  constructor
  · rintro ⟨output, hmem, hb⟩
    cases output with
    | applySnapshot snapshot => exact ⟨snapshot, hmem, Option.some_inj.1 hb⟩
    | _ => cases hb
  · rintro ⟨snapshot, hmem, rfl⟩
    exact ⟨_, hmem, rfl⟩

/-- The snapshots of a vector are below its entries exactly if no entry precedes a snapshot. -/
theorem boundaries_below_iff (h : (outputs.filterMap Output.position).Pairwise (· < ·)) :
    (∀ entry ∈ C.entriesOf outputs, ∀ b ∈ outputs.filterMap boundaryOf, b < entry.index) ↔
      SnapshotsFirst outputs := by
  have hpositions := List.pairwise_filterMap.1 h
  constructor
  · intro hbelow
    refine hpositions.imp_of_mem ?_
    rintro x y hx hy hlt ⟨happly, hsnapshot⟩
    cases x with
    | apply index term payload id =>
      cases y with
      | applySnapshot snapshot =>
        have hlow := hbelow ⟨index, term, C.decode payload, id⟩
          (mem_entriesOf.2 ⟨payload, rfl, hx⟩) _
          (mem_boundaries.2 ⟨snapshot, hy, rfl⟩)
        exact absurd hlow (hlt _ rfl _ rfl).asymm
      | _ => cases hsnapshot
    | _ => cases happly
  · intro hfirst entry hentry b hb
    obtain ⟨payload, -, hx⟩ := mem_entriesOf.1 hentry
    obtain ⟨snapshot, hy, rfl⟩ := mem_boundaries.1 hb
    obtain ⟨k, hk, hentryAt⟩ := List.getElem_of_mem hx
    obtain ⟨j, hj, hsnapshotAt⟩ := List.getElem_of_mem hy
    rcases lt_trichotomy j k with hlt | heq | hgt
    · exact List.pairwise_iff_getElem.1 hpositions j k hj hk hlt _ (by rw [hsnapshotAt]; rfl) _
        (by rw [hentryAt]; rfl)
    · subst heq
      rw [hentryAt] at hsnapshotAt
      cases hsnapshotAt
    · refine absurd ?_ (List.pairwise_iff_getElem.1 hfirst k j hk hj hgt)
      rw [hentryAt, hsnapshotAt]
      exact ⟨rfl, rfl⟩

/-- Positions pick out boundaries and entries in order. -/
theorem boundaries_sublist (outputs : List Output) :
    (outputs.filterMap boundaryOf).Sublist (outputs.filterMap Output.position) := by
  induction outputs with
  | nil => exact .slnil
  | cons output rest ih =>
    cases output with
    | applySnapshot snapshot => exact ih.cons_cons _
    | apply | configurationCommitted => exact ih.cons _
    | _ => exact ih

theorem indexes_sublist (C : CorrectStateMachine A) (outputs : List Output) :
    ((C.entriesOf outputs).map (·.index)).Sublist (outputs.filterMap Output.position) := by
  induction outputs with
  | nil => exact .slnil
  | cons output rest ih =>
    cases output with
    | apply => exact ih.cons_cons _
    | applySnapshot | configurationCommitted => exact ih.cons _
    | _ => exact ih

/-- After the snapshots of a vector, its entries are above the state machine exactly if no entry
precedes a snapshot. -/
theorem entries_above_iff
    (h : (C.applied s :: outputs.filterMap Output.position).Pairwise (· < ·)) :
    (∀ entry ∈ C.entriesOf outputs, C.applied (installAll A s outputs) < entry.index) ↔
      SnapshotsFirst outputs := by
  obtain ⟨happlied, hincreasing⟩ := List.pairwise_cons.1 h
  rw [← boundaries_below_iff (C := C) hincreasing]
  refine forall₂_congr fun entry hentry => ?_
  rw [applied_installAll_lt_iff (h.sublist ((boundaries_sublist outputs).cons_cons _)),
    and_iff_right]
  exact happlied _ ((C.indexes_sublist outputs).subset (List.mem_map_of_mem hentry))

/-! ## The pump -/

variable {G : Type} {R : PersistedRaftRuntime}
variable {entries : List (ApplyEntry A.Command)} {g : RaftGroup G A R}

/-- Applied one by one, entries in order take the state machine to the last of them. -/
theorem applied_foldl (C : CorrectStateMachine A)
    (hincreasing : (entries.map (·.index)).Pairwise (· < ·))
    (habove : ∀ entry ∈ entries, C.applied s < entry.index) : (∀ entry ∈ entries, entry.index ≤
      C.applied (entries.foldl (fun s e => (A.applyBatch s [e]).2) s)) ∧
      C.applied s ≤ C.applied (entries.foldl (fun s e => (A.applyBatch s [e]).2) s) := by
  induction entries generalizing s with
  | nil => exact ⟨fun _ h => absurd h List.not_mem_nil, le_rfl⟩
  | cons entry rest ih =>
    obtain ⟨hhead, htail⟩ := List.pairwise_cons.1 hincreasing
    have hone := C.applied_applyBatch s entry (habove entry List.mem_cons_self)
    have hrest : ∀ e ∈ rest, C.applied (A.applyBatch s [entry]).2 < e.index := by
      intro e he
      rw [hone]
      exact hhead _ (List.mem_map_of_mem he)
    obtain ⟨hall, hle⟩ := ih htail hrest
    rw [hone] at hle
    have hlt := habove entry List.mem_cons_self
    exact ⟨List.forall_mem_cons.2 ⟨hle, hall⟩, hlt.le.trans hle⟩

theorem appAppliedIndex_ends (C : CorrectStateMachine A) (g : RaftGroup G A R) :
    Ends appAppliedIndex g (fun app g' => g' = g ∧ app = C.applied g.app) fun _ _ => False := by
  refine ends_current_bind ?_
  rw [C.appliedIndex_eq]
  exact ends_pure ⟨rfl, rfl⟩

theorem verifyAppAppliedIndexAtLeast_ends (C : CorrectStateMachine A) {required : ℕ}
    (h : required ≤ C.applied g.app) :
    Ends (verifyAppAppliedIndexAtLeast required) g (fun _ g' => g' = g) fun _ _ => False := by
  refine (C.appAppliedIndex_ends g).bind ?_
  rintro _ _ ⟨rfl, rfl⟩
  rw [if_neg (not_lt.2 h)]
  exact ends_pure rfl

/-- A snapshot above the state machine is installed. -/
theorem applySnapshotOutput_ends (C : CorrectStateMachine A) {snapshot : RaftSnapshot}
    (hnew : C.applied g.app < snapshot.metadata.lastIncludedIndex)
    (hterm : snapshot.metadata.lastIncludedTerm ≠ 0) (report : ReportOf G A) :
    Ends (applySnapshotOutput snapshot report) g
      (fun _ g' => g' = { g with
        app := A.installed g.app snapshot
        lastAppliedIndex := max g.lastAppliedIndex snapshot.metadata.lastIncludedIndex })
      fun _ _ => False := by
  have hvalid : Ends (validateSnapshotOutput snapshot) g (fun _ g' => g' = g) fun _ _ => False := by
    unfold validateSnapshotOutput
    rw [if_neg (by omega), if_neg hterm]
    exact ends_pure rfl
  have hinstall : Ends (installSnapshot snapshot) g
      (fun _ g' => g' = { g with app := A.installed g.app snapshot }) fun _ _ => False := by
    refine ends_updateWith_bind ?_
    rw [C.installSnapshot_eq g.app snapshot hnew]
    exact ends_pure rfl
  refine hvalid.bind ?_
  rintro _ _ rfl
  dsimp only
  rw [if_neg (not_not.2 C.supported)]
  refine hinstall.bind ?_
  rintro _ _ rfl
  refine (C.verifyAppAppliedIndexAtLeast_ends (C.applied_installed _ snapshot hnew).ge).bind ?_
  rintro _ _ rfl
  exact ends_updateWith rfl

/-- One output of the walk. -/
theorem recordOutput_ends (C : CorrectStateMachine A) (membershipRequest : Bool)
    (collected : List (ApplyEntry A.Command) × ReportOf G A)
    (hsnapshot : ∀ snapshot, output = .applySnapshot snapshot →
      C.applied g.app < snapshot.metadata.lastIncludedIndex ∧
        snapshot.metadata.lastIncludedTerm ≠ 0) (hfloor : g.lastAppliedIndex ≤ C.applied g.app) :
    Ends (recordRaftOutput membershipRequest collected output) g
      (fun collected' g' => collected'.1 = collected.1 ++ C.entriesOf [output] ∧
        ∃ floor, floor ≤ C.applied (installOne A g.app output) ∧
          g'.vitals = (g.raft, installOne A g.app output, g.fatalState, floor))
      fun _ _ => False := by
  by_cases hhands : handsOver output = false
  · have hkept : C.entriesOf [output] = [] ∧ installOne A g.app output = g.app := by
      cases output with
      | apply | applySnapshot => cases hhands
      | _ => exact ⟨rfl, rfl⟩
    rw [hkept.1, hkept.2, List.append_nil]
    refine (recordRaftOutput_vitals membershipRequest collected hhands g).mono ?_ fun _ _ h => h
    exact fun _ _ h => ⟨h.1, _, hfloor, h.2⟩
  cases output with
  | apply index term payload id =>
    have hdecode : Ends (decodeApplyOutput index term payload id) g
        (fun entry g' => g' = g ∧ entry = ⟨index, term, C.decode payload, id⟩) fun _ _ =>
          False := by
      refine ends_current_bind ?_
      rw [C.decodeCommand_eq]
      exact ends_pure ⟨rfl, rfl⟩
    refine ends_current_bind (hdecode.bind ?_)
    rintro _ _ ⟨rfl, rfl⟩
    exact ends_pure ⟨rfl, _, hfloor, rfl⟩
  | applySnapshot snapshot =>
    obtain ⟨hnew, hterm⟩ := hsnapshot snapshot rfl
    refine ends_current_bind ((C.applySnapshotOutput_ends hnew hterm collected.2).bind ?_)
    rintro _ _ rfl
    refine ends_pure ⟨(List.append_nil _).symm, _, ?_, rfl⟩
    change max _ _ ≤ C.applied (A.installed _ snapshot)
    rw [C.applied_installed _ snapshot hnew]
    exact max_le (hfloor.trans hnew.le) le_rfl
  | _ => exact absurd rfl hhands

/-- The walk collects the entries and installs the snapshots. -/
theorem walk_ends (C : CorrectStateMachine A) (membershipRequest : Bool) (outputs : List Output) :
    ∀ (collected : List (ApplyEntry A.Command) × ReportOf G A) (g : RaftGroup G A R),
      (C.applied g.app :: outputs.filterMap boundaryOf).Pairwise (· < ·) →
      (∀ snapshot, .applySnapshot snapshot ∈ outputs → snapshot.metadata.lastIncludedTerm ≠ 0) →
      g.lastAppliedIndex ≤ C.applied g.app →
      Ends (outputs.foldlM (recordRaftOutput membershipRequest) collected) g
        (fun collected' g' => collected'.1 = collected.1 ++ C.entriesOf outputs ∧
          ∃ floor, floor ≤ C.applied (installAll A g.app outputs) ∧
            g'.vitals = (g.raft, installAll A g.app outputs, g.fatalState, floor))
        fun _ _ => False := by
  induction outputs with
  | nil =>
    intro collected g _ _ hfloor
    exact ends_pure ⟨(List.append_nil _).symm, _, hfloor, rfl⟩
  | cons output rest ih =>
    intro collected g hboundaries hterms hfloor
    rw [List.foldlM_cons]
    have hsnapshot : ∀ snapshot, output = .applySnapshot snapshot →
        C.applied g.app < snapshot.metadata.lastIncludedIndex ∧
          snapshot.metadata.lastIncludedTerm ≠ 0 := by
      rintro snapshot rfl
      exact ⟨(List.pairwise_cons.1 hboundaries).1 _
        (mem_boundaries.2 ⟨snapshot, List.mem_cons_self, rfl⟩),
        hterms snapshot List.mem_cons_self⟩
    refine (C.recordOutput_ends membershipRequest collected hsnapshot hfloor).bind ?_
    rintro collected₁ g₁ ⟨hcollected, floor, hfloor₁, hvitals⟩
    obtain ⟨hraft, happ, hfatal, hlast⟩ : g₁.raft = g.raft ∧ g₁.app = installOne A g.app output ∧
        g₁.fatalState = g.fatalState ∧ g₁.lastAppliedIndex = floor := by
      simpa [RaftGroup.vitals] using hvitals
    have hchain : (C.applied g₁.app :: rest.filterMap boundaryOf).Pairwise (· < ·) := by
      rw [happ, applied_installOne]
      · cases hb : boundaryOf output with
        | none => rwa [List.filterMap_cons_none hb] at hboundaries
        | some b =>
          rw [List.filterMap_cons_some hb] at hboundaries
          exact (List.pairwise_cons.1 hboundaries).2
      · intro b hb
        exact (List.pairwise_cons.1 hboundaries).1 b (by
          rw [List.filterMap_cons_some hb]
          exact List.mem_cons_self)
    refine (ih collected₁ g₁ hchain (fun snapshot hmem => hterms snapshot
      (List.mem_cons_of_mem _ hmem)) (by rw [hlast, happ]; exact hfloor₁)).mono ?_ fun _ _ h => h
    rintro collected' g' ⟨hcollected', floor', hfloor', hvitals'⟩
    rw [happ] at hfloor' hvitals'
    rw [hraft, hfatal] at hvitals'
    refine ⟨?_, floor', hfloor', hvitals'⟩
    rw [hcollected', hcollected, List.append_assoc, entriesOf, entriesOf, entriesOf,
      ← List.filterMap_append]
    rfl

/-- The floor checks let exactly the entries above the state machine pass. -/
theorem validateApplyFloor_ends (C : CorrectStateMachine A)
    (hfloor : g.lastAppliedIndex ≤ C.applied g.app)
    (hboundary : R.snapshotIndex g.raft ≤ C.applied g.app) : Ends (validateApplyFloor entries) g
      (fun _ g' => (∀ entry ∈ entries, C.applied g.app < entry.index) ∧
        g' = { g with lastAppliedIndex := C.applied g.app })
      fun _ g' => (¬ ∀ entry ∈ entries, C.applied g.app < entry.index) ∧
        g'.fatalState ≠ .healthy := by
  have hrestored : Ends (rejectIfSnapshotRestoreRequired (C.applied g.app) entries) g
      (fun _ g' => g' = g) fun _ _ => False := by
    refine ends_current_bind ?_
    dsimp only
    rw [if_pos hboundary]
    exact ends_pure rfl
  refine (C.appAppliedIndex_ends g).seq (fun _ _ h => h.elim) ?_
  rintro _ _ ⟨rfl, rfl⟩
  refine ends_current_bind ?_
  dsimp only
  rw [if_neg (not_lt.2 hfloor)]
  refine hrestored.seq (fun _ _ h => h.elim) ?_
  rintro _ g rfl
  refine Ends.bind (q := fun _ g' => g' = g ∧ ∀ entry ∈ entries, C.applied g.app < entry.index)
    (ends_current_bind ?_) ?_
  · split
    · rename_i entry hentry
      refine ends_of_error rfl ⟨fun h => ?_, GroupFatalState.noConfusion⟩
      have hlt := h entry (List.mem_of_find?_eq_some hentry)
      have hle : entry.index ≤ C.applied g.app := by simpa using List.find?_some hentry
      omega
    · rename_i hnone
      refine ends_pure ⟨rfl, fun entry hentry => ?_⟩
      simpa using List.find?_eq_none.1 hnone entry hentry
  · rintro _ _ ⟨rfl, habove⟩
    exact ends_update ⟨habove, by rw [max_eq_right hfloor]⟩

theorem checkResults_ends {results : List (ApplyResult A.CommandResult)}
    (h : List.Forall₂ Answers entries results) :
    Ends (checkResults entries results) g (fun _ g' => g' = g) fun _ _ => False := by
  unfold checkResults
  dsimp only
  rw [if_neg (not_not.2 h.length_eq.symm)]
  split
  · rename_i entry result hfind
    obtain ⟨hindex, hterm, hid⟩ := (List.forall₂_iff_zip.1 h).2 (List.mem_of_find?_eq_some hfind)
    have hmismatch := List.find?_some hfind
    simp [hindex, hterm, hid] at hmismatch
  · exact ends_pure rfl

/-- Entries above the state machine are applied; an entry at or below it poisons the group. -/
theorem applyEntries_ends (C : CorrectStateMachine A)
    (hincreasing : (entries.map (·.index)).Pairwise (· < ·)) (report : ReportOf G A)
    (hfloor : g.lastAppliedIndex ≤ C.applied g.app)
    (hboundary : R.snapshotIndex g.raft ≤ C.applied g.app) : Ends (applyEntries entries report) g
      (fun _ g' => (∀ entry ∈ entries, C.applied g.app < entry.index) ∧
        ∃ floor, floor ≤ C.applied g'.app ∧ g'.vitals =
          (g.raft, entries.foldl (fun s e => (A.applyBatch s [e]).2) g.app, g.fatalState, floor))
      fun _ g' => (¬ ∀ entry ∈ entries, C.applied g.app < entry.index) ∧
        g'.fatalState ≠ .healthy := by
  unfold applyEntries
  split
  · rename_i hempty
    obtain rfl := List.isEmpty_iff.1 hempty
    exact ends_pure ⟨fun _ h => absurd h List.not_mem_nil, _, hfloor, rfl⟩
  rename_i hne
  refine (C.validateApplyFloor_ends hfloor hboundary).bind ?_
  rintro _ _ ⟨habove, rfl⟩
  obtain ⟨results, hanswers, heq⟩ := C.applyBatch_eq g.app entries habove hincreasing
  obtain ⟨hall, hle⟩ := C.applied_foldl hincreasing habove
  refine Ends.bind (q := fun results' g' => results' = results ∧ g' = { g with
    app := entries.foldl (fun s e => (A.applyBatch s [e]).2) g.app
    lastAppliedIndex := C.applied g.app }) (ends_updateWith_bind ?_) ?_
  · dsimp only
    rw [heq]
    exact ends_pure ⟨rfl, rfl⟩
  rintro results _ ⟨rfl, rfl⟩
  refine (checkResults_ends hanswers).seq (fun _ _ h => h.elim) ?_
  rintro _ _ rfl
  split
  · rename_i hnone
    have hempty := List.map_eq_nil_iff.1 (List.max?_eq_none_iff.1 hnone)
    exact absurd (List.isEmpty_iff.2 hempty) hne
  rename_i required hrequired
  obtain ⟨entry, hentry, rfl⟩ := List.mem_map.1 (List.max?_mem hrequired)
  refine (C.verifyAppAppliedIndexAtLeast_ends (hall entry hentry)).seq (fun _ _ h => h.elim) ?_
  rintro _ _ rfl
  refine ends_updateWith ⟨habove, _, ?_, settleResults_vitals _ _⟩
  rw [settleResults_app]
  exact foldl_max_le hanswers hle hall

/-- The pump executes a vector in order, or the vector has an entry before a snapshot and poisons
the group. -/
theorem applyOutputs_ends (C : CorrectStateMachine A)
    (hpositions : (C.applied g.app :: outputs.filterMap Output.position).Pairwise (· < ·))
    (hterms : ∀ snapshot, .applySnapshot snapshot ∈ outputs →
      snapshot.metadata.lastIncludedTerm ≠ 0)
    (hfloor : g.lastAppliedIndex ≤ C.applied g.app)
    (hboundary : R.snapshotIndex g.raft ≤ C.applied (installAll A g.app outputs))
    (membershipRequest : Bool) : Ends (applyOutputs outputs membershipRequest) g
      (fun _ g' => SnapshotsFirst outputs ∧ ∃ floor, floor ≤ C.applied g'.app ∧
        g'.vitals = (g.raft, outputs.foldl C.execute g.app, g.fatalState, floor))
      fun _ g' => ¬ SnapshotsFirst outputs ∧ g'.fatalState ≠ .healthy := by
  have hboundaries : (C.applied g.app :: outputs.filterMap boundaryOf).Pairwise (· < ·) :=
    hpositions.sublist ((boundaries_sublist outputs).cons_cons _)
  have hincreasing := (List.pairwise_cons.1 hpositions).2
  refine ends_current_bind (ends_update_bind ?_)
  have hwalk := C.walk_ends membershipRequest outputs ([], { groupId := g.groupId })
    (g.queueCommittedConfigurations outputs) hboundaries hterms hfloor
  refine Ends.bind (hwalk.mono (fun _ _ h => h) fun _ _ h => h.elim) ?_
  rintro collected g₁ ⟨hcollected, floor, hfloor₁, hvitals⟩
  obtain ⟨hraft, happ, hfatal, hlast⟩ : g₁.raft = g.raft ∧ g₁.app = installAll A g.app outputs ∧
      g₁.fatalState = g.fatalState ∧ g₁.lastAppliedIndex = floor := by
    simpa [RaftGroup.vitals, RaftGroup.queueCommittedConfigurations] using hvitals
  rw [List.nil_append] at hcollected
  have hentries := C.applyEntries_ends
    (hincreasing.sublist (C.indexes_sublist outputs)) collected.2 (g := g₁)
    (by rw [hlast, happ]; exact hfloor₁) (by rw [hraft, happ]; exact hboundary)
  rw [happ, entries_above_iff hpositions, hraft, hfatal] at hentries
  rw [hcollected]
  refine Ends.bind (hentries.mono (fun _ _ h => h) fun _ _ h => h) ?_
  rintro report g₂ ⟨hfirst, floor', hfloor', hvitals'⟩
  refine Ends.bind ((completeReadyReads_ends report g₂).mono (fun _ _ h => h) ?_) ?_
  · rintro _ _ ⟨-, source, hsource⟩
    rw [C.appliedIndex_eq] at hsource
    cases hsource
  intro report' g₃ hvitals₃
  have happ₃ : g₃.app = g₂.app := congrArg (fun v => v.2.1) hvitals₃
  refine ends_updateWith ⟨hfirst, floor', ?_, ?_⟩
  · change floor' ≤ C.applied g₃.app
    rw [happ₃]
    exact hfloor'
  · change g₃.vitals = _
    rw [hvitals₃, hvitals', foldl_execute_eq hfirst]

/-- Executing outputs in order takes the state machine no further than their positions. -/
theorem applied_foldl_execute_le
    (h : (C.applied s :: outputs.filterMap Output.position).Pairwise (· < ·))
    (hbound : ∀ k ∈ C.applied s :: outputs.filterMap Output.position, k ≤ bound) :
    C.applied (outputs.foldl C.execute s) ≤ bound := by
  induction outputs generalizing s with
  | nil => exact hbound _ List.mem_cons_self
  | cons output rest ih =>
    cases hposition : output.position with
    | none =>
      rw [List.filterMap_cons_none hposition] at h hbound
      have hsame : C.execute s output = s := by
        cases output with
        | apply | applySnapshot => cases hposition
        | _ => rfl
      rw [List.foldl_cons, hsame]
      exact ih h hbound
    | some k =>
      rw [List.filterMap_cons_some hposition] at h hbound
      obtain ⟨hhead, htail⟩ := List.pairwise_cons.1 h
      have hlt := hhead k List.mem_cons_self
      rw [List.foldl_cons]
      -- an entry or a snapshot moves the state machine to its position, a configuration does not
      have hmoved : C.applied (C.execute s output) = k ∨ C.execute s output = s := by
        cases output with
        | apply index term payload id =>
          obtain rfl := Option.some_inj.1 hposition
          exact .inl (C.applied_applyBatch s _ hlt)
        | applySnapshot snapshot =>
          obtain rfl := Option.some_inj.1 hposition
          exact .inl (C.applied_installed s snapshot hlt)
        | _ => exact .inr rfl
      rcases hmoved with hmoved | hsame
      · refine ih (by rw [hmoved]; exact htail) ?_
        rw [hmoved]
        exact fun j hj => hbound j (List.mem_cons_of_mem _ hj)
      · rw [hsame]
        refine ih (h.sublist (by simp)) fun j hj => hbound j ?_
        rcases List.mem_cons.1 hj with rfl | hj
        · exact List.mem_cons_self
        · exact List.mem_cons_of_mem _ (List.mem_cons_of_mem _ hj)

end CorrectStateMachine

/-! ## A node behind a group -/

/-- A move of a cluster: an event, or a batch of inputs for a node. -/
inductive ClusterMove : Cluster → Cluster → Prop
  | event {c c' : Cluster} (e : RuntimeEvent) (h : c.stepRuntime e = some c') : ClusterMove c c'
  | batch (c : Cluster) (j : NodeId) (inputs : List Input) (hin : ∀ x ∈ inputs, c.Feeds j x) :
    ClusterMove c (c.record j none ((c.nodes j).stepBatch inputs))

theorem ClusterMove.structured {cfg : ClusterConfig} {c c' : Cluster} (h : ClusterMove c c')
    (hc : Cluster.Structured cfg c) : Cluster.Structured cfg c' := by
  cases h with
  | event e h => exact hc.step h
  | batch j inputs hin =>
    exact hc.record (fun hs => hs.stepBatch hin)
      (((c.nodes j).stepBatch_stages inputs).unfinished (hc.2 j))

variable {G : Type} {A : ReplicatedStateMachine}

/-- The group with its runtime's kernel replaced. -/
def RaftGroup.withNode (g : RaftGroup G A durable) (n : Node) : RaftGroup G A durable :=
  { g with raft := ({ (g.raft : DurableRaftNode) with node := n } : DurableRaftNode) }

/-- The runs of a cluster with node `i` behind a group, and the outputs that its runtime released
since the group last took some. The runtime is opened with a state machine that has all the kernel
dispatched and is not below its snapshot. Then, in any order: moves elsewhere, bookkeeping of the
group, local snapshots of what the state machine has applied, steps and drains of the runtime, and
the group taking what was released. -/
inductive Hosted (C : CorrectStateMachine A) (cfg : ClusterConfig) (i : NodeId) :
    Cluster → RaftGroup G A durable → List Output → Prop
  | opened {c : Cluster} {raft : DurableRaftNode} {app : A.State} (groupId : G)
    (hc : Relation.ReflTransGen ClusterMove (Cluster.initial cfg) c) (hnode : raft.node = c.nodes i)
    (hboundary : (c.nodes i).snapshotIndex ≤ C.applied app)
    (hdispatched : C.applied app ≤ (c.nodes i).dispatchedIndex) :
    Hosted C cfg i c (.withAppliedIndex groupId i raft app (C.applied app)) []
  | elsewhere {c c' : Cluster} {g : RaftGroup G A durable} {pending : List Output}
    (h : Hosted C cfg i c g pending) (hmove : ClusterMove c c') (hsame : c'.nodes i = c.nodes i) :
    Hosted C cfg i c' g pending
  | bookkeeping {c : Cluster} {g g' : RaftGroup G A durable} {pending : List Output}
    (h : Hosted C cfg i c g pending) (hraft : g'.raft = g.raft) (happ : g'.app = g.app)
    (hfatal : g'.fatalState = g.fatalState) (hfloor : g'.lastAppliedIndex ≤ C.applied g.app) :
    Hosted C cfg i c g' pending
  | compacted {c : Cluster} {g : RaftGroup G A durable} {pending : List Output}
    {snapshot : RaftSnapshot} {o : Outcome} (h : Hosted C cfg i c g pending)
    (htruthful : Cluster.truthfulDescriptor (c.nodes i) snapshot)
    (happlied : snapshot.metadata.lastIncludedIndex ≤ C.applied g.app)
    (hok : (c.nodes i).installLocalSnapshot snapshot = .ok o) :
    Hosted C cfg i (c.record i none o) (g.withNode o.node) pending
  | stepped {c : Cluster} {g : RaftGroup G A durable} {pending outputs : List Output}
    {inputs : List Input} {raft : DurableRaftNode} (h : Hosted C cfg i c g pending)
    (hin : ∀ x ∈ inputs, c.Feeds i x)
    (hstep : DurableRaftNode.stepBatch g.raft inputs = (.ok outputs, raft)) :
    Hosted C cfg i (c.record i none ((c.nodes i).stepBatch inputs)) { g with raft := raft }
      (pending ++ outputs)
  | drained {c : Cluster} {g : RaftGroup G A durable} {pending : List Output}
    (h : Hosted C cfg i c g pending) :
    Hosted C cfg i (c.record i none (c.nodes i).emitCommittedOutputs)
      (g.withNode (c.nodes i).emitCommittedOutputs.node)
      (pending ++ (c.nodes i).emitCommittedOutputs.outputs)
  | handed {c : Cluster} {g g' : RaftGroup G A durable} {pending : List Output}
    {report : ReportOf G A} (h : Hosted C cfg i c g pending) (membershipRequest : Bool)
    (hok : applyOutputs pending membershipRequest g = (.ok report, g')) : Hosted C cfg i c g' []

open CorrectStateMachine in
/-- What every run keeps: the state machine is between the snapshot and the dispatch cursor, and the
outputs that wait go on from it. -/
structure HostedOk (C : CorrectStateMachine A) (cfg : ClusterConfig) (i : NodeId) (c : Cluster)
    (g : RaftGroup G A durable) (pending : List Output) : Prop where
  structured : Cluster.Structured cfg c
  node : DurableRaftNode.node g.raft = c.nodes i
  healthy : g.fatalState = .healthy
  floor : g.lastAppliedIndex ≤ C.applied g.app
  positions : (C.applied g.app :: pending.filterMap Output.position).Pairwise (· < ·)
  dispatched : ∀ k ∈ C.applied g.app :: pending.filterMap Output.position,
    k ≤ (c.nodes i).dispatchedIndex
  boundary : (c.nodes i).snapshotIndex ≤ C.applied (installAll A g.app pending)
  terms : ∀ snapshot, .applySnapshot snapshot ∈ pending → snapshot.metadata.lastIncludedTerm ≠ 0

namespace HostedOk

variable {C : CorrectStateMachine A} {cfg : ClusterConfig} {i : NodeId} {c : Cluster}
  {g : RaftGroup G A durable} {pending : List Output}

open CorrectStateMachine

variable (h : HostedOk C cfg i c g pending)

include h

theorem boundaries :
    (C.applied g.app :: pending.filterMap boundaryOf).Pairwise (· < ·) :=
  h.positions.sublist ((boundaries_sublist pending).cons_cons _)

theorem sound : (c.nodes i).Sound := by
  obtain ⟨⟨s, hs⟩, -⟩ := h.structured
  exact (hs.nodes i).rep.sound

theorem snapshotIndex_le :
    durable.snapshotIndex g.raft ≤ C.applied (installAll A g.app pending) := by
  change (DurableRaftNode.node g.raft).snapshotIndex ≤ _
  rw [h.node]
  exact h.boundary

variable {o : Outcome} {outputs : List Output} {raft : DurableRaftNode}

/-- A transition of the kernel whose outputs the runtime releases. -/
theorem released {requests : List Request}
    (hstructured : Cluster.Structured cfg (c.record i none o))
    (hconducts : (c.nodes i).Conducts requests o) (hstages : (c.nodes i).Stages o)
    (hpositions : outputs.filterMap Output.position = o.outputs.filterMap Output.position)
    (hsnapshots : outputs.filterMap boundaryOf = o.outputs.filterMap boundaryOf)
    (hterms : ∀ snapshot, .applySnapshot snapshot ∈ outputs →
      snapshot.metadata.lastIncludedTerm ≠ 0) (hnode : raft.node = o.node) :
    HostedOk C cfg i (c.record i none o) { g with raft := raft } (pending ++ outputs) := by
  have hupdate : (c.record i none o).nodes i = o.node := Function.update_self ..
  obtain ⟨hincreasing, hbetween⟩ := hconducts.positions h.sound
  have hdispatched := hconducts.dispatched_mono h.sound
  have hall : (C.applied g.app :: (pending ++ outputs).filterMap Output.position).Pairwise
      (· < ·) := by
    rw [List.filterMap_append, hpositions, ← List.cons_append]
    refine List.pairwise_append.2 ⟨h.positions, hincreasing, fun j hj k hk => ?_⟩
    exact (h.dispatched j hj).trans_lt (hbetween k hk).1
  refine ⟨hstructured, hnode.trans hupdate.symm, h.healthy, h.floor, hall, ?_, ?_, ?_⟩
  · intro k hk
    rw [hupdate]
    rw [List.filterMap_append, hpositions, ← List.cons_append] at hk
    rcases List.mem_append.1 hk with hk | hk
    · exact (h.dispatched k hk).trans hdispatched
    · exact (hbetween k hk).2
  · rw [hupdate, ← not_lt, applied_installAll_lt_iff
      (hall.sublist ((boundaries_sublist _).cons_cons _)), List.filterMap_append]
    rintro ⟨happlied, hbelow⟩
    rcases hstages.snapshotIndex_eq with hsame | ⟨snapshot, hmem, hnew⟩
    · -- the boundary is the old one, which the state machine and the waiting snapshots reach
      have hlow := (applied_installAll_lt_iff h.boundaries).2
        ⟨happlied, fun b hb => hbelow b (List.mem_append_left _ hb)⟩
      rw [hsame] at hlow
      exact absurd h.boundary (not_le.2 hlow)
    · have hb : snapshot.metadata.lastIncludedIndex ∈ outputs.filterMap boundaryOf := by
        rw [hsnapshots]
        exact mem_boundaries.2 ⟨snapshot, hmem, rfl⟩
      have hlow := hbelow _ (List.mem_append_right _ hb)
      omega
  · intro snapshot hmem
    rcases List.mem_append.1 hmem with hmem | hmem
    · exact h.terms snapshot hmem
    · exact hterms snapshot hmem

theorem stepped {inputs : List Input} (hin : ∀ x ∈ inputs, c.Feeds i x)
    (hstep : DurableRaftNode.stepBatch g.raft inputs = (.ok outputs, raft)) :
    HostedOk C cfg i (c.record i none ((c.nodes i).stepBatch inputs)) { g with raft := raft }
      (pending ++ outputs) := by
  obtain ⟨hnode, houtputs⟩ := DurableRaftNode.stepBatch_ok hstep
  rw [h.node] at hnode houtputs
  have hkept : ∀ {α : Type} (f : Output → Option α),
      (∀ recipient message, f (.send recipient message) = none) →
      (∀ recipient chunk, f (.sendSnapshotChunk recipient chunk) = none) →
      outputs.filterMap f = ((c.nodes i).stepBatch inputs).outputs.filterMap f := by
    intro α f hsend hchunk
    rw [houtputs]
    exact DurableRaftNode.filterMap_resolveSnapshotChunkSends f hsend hchunk _ _
  have hsnapshots := hkept boundaryOf (fun _ _ => rfl) fun _ _ => rfl
  obtain ⟨s, hs⟩ := h.structured.1
  refine h.released ((ClusterMove.batch c i inputs hin).structured h.structured)
    ((c.nodes i).stepBatch_conducts inputs) ((c.nodes i).stepBatch_stages inputs)
    (hkept Output.position (fun _ _ => rfl) fun _ _ => rfl) hsnapshots
    (fun snapshot hmem => ?_) hnode
  rw [houtputs] at hmem
  exact hs.snapshotTerm_pos hin (DurableRaftNode.mem_of_mem_resolve (fun _ _ => nofun) hmem)

theorem drained :
    HostedOk C cfg i (c.record i none (c.nodes i).emitCommittedOutputs)
      (g.withNode (c.nodes i).emitCommittedOutputs.node)
      (pending ++ (c.nodes i).emitCommittedOutputs.outputs) := by
  have hunstaged := (c.nodes i).emitCommittedOutputs_unstaged
  refine h.released (h.structured.record (fun hs => hs.occurs .drainCommitted)
    (hunstaged.stages.unfinished (h.structured.2 i)))
    ((c.nodes i).call_conducts .drainCommittedOutputs) hunstaged.stages rfl rfl ?_ rfl
  intro snapshot hmem
  have hstaging := hunstaged.outputs _ hmem
  cases hstaging

theorem compacted {snapshot : RaftSnapshot}
    (htruthful : Cluster.truthfulDescriptor (c.nodes i) snapshot)
    (happlied : snapshot.metadata.lastIncludedIndex ≤ C.applied g.app)
    (hok : (c.nodes i).installLocalSnapshot snapshot = .ok o) :
    HostedOk C cfg i (c.record i none o) (g.withNode o.node) pending := by
  have hoccurs : c.Occurs i none o := .localSnapshot htruthful hok
  have hupdate : (c.record i none o).nodes i = o.node := Function.update_self ..
  have hc := Node.compacted_of_ok hok
  refine ⟨h.structured.record (fun hs => hs.occurs hoccurs) (hoccurs.unfinished (h.structured.2 i)),
    hupdate.symm, h.healthy, h.floor, h.positions, ?_, ?_, h.terms⟩
  · rw [hupdate, hc.dispatched]
    exact h.dispatched
  · rw [hupdate, hc.snapshotIndex_eq, ← not_lt]
    change ¬ C.applied (installAll A g.app pending) < _
    rw [applied_installAll_lt_iff h.boundaries]
    exact fun hlow => absurd hlow.1 (by omega)

theorem handed {membershipRequest : Bool} {report : ReportOf G A} {g' : RaftGroup G A durable}
    (hok : applyOutputs pending membershipRequest g = (.ok report, g')) :
    HostedOk C cfg i c g' [] := by
  have hends := C.applyOutputs_ends h.positions h.terms h.floor h.snapshotIndex_le membershipRequest
  obtain ⟨hfirst, floor, hfloor, hvitals⟩ := hends.of_ok hok
  obtain ⟨hraft, happ, hfatal, hlast⟩ : g'.raft = g.raft ∧
      g'.app = pending.foldl C.execute g.app ∧ g'.fatalState = g.fatalState ∧
      g'.lastAppliedIndex = floor := by
    simpa [RaftGroup.vitals] using hvitals
  refine ⟨h.structured, by rw [hraft, h.node], by rw [hfatal, h.healthy],
    by rw [hlast]; exact hfloor, List.pairwise_singleton _ _, ?_, ?_,
    fun _ hmem => absurd hmem List.not_mem_nil⟩
  · intro k hk
    obtain rfl := List.mem_singleton.1 hk
    rw [happ]
    exact applied_foldl_execute_le h.positions h.dispatched
  · change _ ≤ C.applied g'.app
    rw [happ, foldl_execute_eq hfirst]
    have hincreasing := (List.pairwise_cons.1 h.positions).2.sublist (C.indexes_sublist pending)
    exact h.boundary.trans (C.applied_foldl hincreasing
      ((entries_above_iff h.positions).2 hfirst)).2

end HostedOk

theorem Hosted.ok {C : CorrectStateMachine A} {cfg : ClusterConfig} {i : NodeId} {c : Cluster}
    {g : RaftGroup G A durable} {pending : List Output} (h : Hosted C cfg i c g pending) :
    HostedOk C cfg i c g pending := by
  induction h with
  | opened groupId hc hnode hboundary hdispatched =>
    have hstructured := hc.rec (motive := fun c _ => Cluster.Structured cfg c)
      (Cluster.structured_initial cfg) fun _ hmove ih => hmove.structured ih
    refine ⟨hstructured, hnode, rfl, le_rfl, List.pairwise_singleton _ _, fun k hk => ?_, hboundary,
      fun _ hmem => absurd hmem List.not_mem_nil⟩
    obtain rfl := List.mem_singleton.1 hk
    exact hdispatched
  | elsewhere _ hmove hsame ih =>
    exact ⟨hmove.structured ih.structured, by rw [ih.node, hsame], ih.healthy, ih.floor,
      ih.positions,
      by rw [hsame]; exact ih.dispatched, by rw [hsame]; exact ih.boundary, ih.terms⟩
  | bookkeeping _ hraft happ hfatal hfloor ih =>
    exact ⟨ih.structured, by rw [hraft, ih.node], by rw [hfatal, ih.healthy],
      by rw [happ]; exact hfloor, by rw [happ]; exact ih.positions,
      by rw [happ]; exact ih.dispatched, by rw [happ]; exact ih.boundary, ih.terms⟩
  | compacted _ htruthful happlied hok ih => exact ih.compacted htruthful happlied hok
  | stepped _ hin hstep ih => exact ih.stepped hin hstep
  | drained _ ih => exact ih.drained
  | handed _ _ hok ih => exact ih.handed hok

/-! ## In order -/

/-- Over any run of a cluster with a node behind a group, for any state machine that does what it is
asked: handed the outputs of the runtime's steps since it last took some, the group stays healthy
and its state machine is as if they had been executed one at a time, in order, exactly if no entry
precedes a snapshot. -/
theorem outputs_executed_in_order_iff {C : CorrectStateMachine A} {cfg : ClusterConfig} {i : NodeId}
    {c : Cluster} {g : RaftGroup G A durable} {pending : List Output}
    (h : Hosted C cfg i c g pending) (membershipRequest : Bool) :
    (∃ report g', applyOutputs pending membershipRequest g = (.ok report, g') ∧
      g'.fatalState = .healthy ∧ g'.app = pending.foldl C.execute g.app) ↔
      SnapshotsFirst pending := by
  have hok := h.ok
  have hends := C.applyOutputs_ends hok.positions hok.terms hok.floor hok.snapshotIndex_le
    membershipRequest
  rcases hpump : applyOutputs pending membershipRequest g with ⟨error | report, g'⟩
  · refine ⟨?_, fun hfirst => absurd hfirst (hends.of_error hpump).1⟩
    rintro ⟨report', g'', heq, -⟩
    cases heq
  · obtain ⟨hfirst, floor, -, hvitals⟩ := hends.of_ok hpump
    refine ⟨fun _ => hfirst, fun _ => ⟨report, g', rfl, ?_, congrArg (fun v => v.2.1) hvitals⟩⟩
    have hfatal : g'.fatalState = g.fatalState := congrArg (fun v => v.2.2.1) hvitals
    rw [hfatal, hok.healthy]

/-! Node 1 replicates entries 1 to 3 to learner 2, commits entry 4, takes a snapshot there and sends
it. The frame with the entries is late: learner 2 gets it in one batch with the snapshot. -/

/-- A state machine that is its applied index. -/
def counter : ReplicatedStateMachine where
  State := ℕ
  Command := Payload
  CommandResult := Unit
  Query := Unit
  QueryResult := Unit
  Error := Unit
  snapshotSupport := .supported
  appliedIndex s := .ok s
  encodeCommand _ command := .ok command
  decodeCommand _ payload := .ok payload
  applyBatch s entries :=
    (.ok (entries.map fun e => ⟨e.index, e.term, (), e.localProposalId⟩),
      entries.foldl (fun _ e => e.index) s)
  read _ _ _ := .ok ()
  installSnapshot _ snapshot := (.ok (), snapshot.appliedIndex)

/-- The counter does what it is asked. -/
def counterCorrect : CorrectStateMachine counter where
  applied s := s
  decode payload := payload
  supported := rfl
  appliedIndex_eq _ := rfl
  decodeCommand_eq _ _ := rfl
  applyBatch_eq s entries habove hincreasing := by
    refine ⟨entries.map fun e => ⟨e.index, e.term, (), e.localProposalId⟩, ?_, rfl⟩
    induction entries with
    | nil => exact .nil
    | cons entry rest ih =>
      exact .cons ⟨rfl, rfl, rfl⟩ (ih (fun e he => habove e (.tail _ he)) hincreasing.of_cons)
  applied_applyBatch _ _ _ := rfl
  installSnapshot_eq _ _ _ := rfl
  applied_installed _ _ _ := rfl

theorem moves_of_run {c c' : Cluster} {events : List Event} (h : c.run events = some c') :
    Relation.ReflTransGen ClusterMove c c' := by
  induction events generalizing c with
  | nil =>
    obtain rfl := Option.some_inj.1 h
    exact .refl
  | cons e rest ih =>
    obtain ⟨c₁, hc₁, hrest⟩ := Option.bind_eq_some_iff.1 h
    exact .head (.event (.event e) hc₁) (ih hrest)

/-- The snapshot of node 1 at index 4, where learner 2 has joined. -/
def fourthSnapshot : RaftSnapshot :=
  { earlySnapshot with
    metadata :=
      { earlySnapshot.metadata with
        lastIncludedIndex := 4
        committedConfiguration := some ⟨some ⟨3, 1⟩, .stable Node.voterAndLearner⟩ } }

/-- Node 1 commits four entries, takes in learner 2 and compacts. -/
def replicateAndCompact : List Event :=
  [.input 1 .tick, .input 1 (.clientProposal [7]), .input 1 (.addLearner 2),
    .input 1 (.clientProposal [8]), .localSnapshot 1 fourthSnapshot, .input 1 .tick]

/-- The cluster after it. -/
def compactedCluster : Cluster := .after growingCluster replicateAndCompact

/-- The frame with entries 1 to 3, all committed. -/
def lateFrame : Message :=
  .appendEntries
    { term := 1
      leaderId := 1
      prevLogIndex := 0
      prevLogTerm := 0
      sequence := 2
      entries :=
        [⟨1, .noop⟩, ⟨1, .application [7]⟩, ⟨1, .configuration (.stable 1 Node.voterAndLearner)⟩]
      leaderCommit := 3 }

/-- The directive to send the snapshot, whole in its one chunk. -/
def onlyChunk : SnapshotChunkSend where
  term := 1
  leaderId := 1
  transferId := snapshotTransferIdFromParts fourthSnapshot.metadata 0 0
  metadata := fourthSnapshot.metadata
  totalPayloadLen := 0
  applicationPayloadCrc32 := 0
  offset := 0
  len := 0
  done := true

/-- The request learner 2 gets. -/
def onlyRequest : InstallSnapshotChunk where
  term := 1
  leaderId := 1
  transferId := onlyChunk.transferId
  metadata := fourthSnapshot.metadata
  totalPayloadLen := 0
  applicationPayloadCrc32 := 0
  offset := 0
  chunk := []
  done := true

/-- The runtime of the learner. -/
def learnerRaft : DurableRaftNode where
  node := compactedCluster.nodes 2

/-- A group over that runtime. -/
def learnerGroup : RaftGroup ℕ counter durable :=
  .withAppliedIndex 7 2 learnerRaft (0 : ℕ) (counterCorrect.applied (0 : ℕ))

theorem hosted_learner :
    Hosted counterCorrect growingCluster 2 compactedCluster learnerGroup [] := by
  have hrun : ((Cluster.initial growingCluster).run replicateAndCompact).isSome := by decide +kernel
  have hnode : learnerRaft.node = compactedCluster.nodes 2 := by rw [learnerRaft]
  have hboundary : (compactedCluster.nodes 2).snapshotIndex ≤ counterCorrect.applied (0 : ℕ) := by
    decide +kernel
  have hdispatched : counterCorrect.applied (0 : ℕ) ≤ (compactedCluster.nodes 2).dispatchedIndex :=
    Nat.zero_le _
  rw [learnerGroup]
  exact .opened 7 (moves_of_run (Cluster.run_after hrun)) hnode hboundary hdispatched

theorem feeds_lateFrame : compactedCluster.Feeds 2 (.message 1 lateFrame) := by
  have hsent : ∃ e ∈ compactedCluster.emitted, e.node = 1 ∧ e.output = .send 2 lateFrame := by
    decide +kernel
  obtain ⟨e, he, hnode, hout⟩ := hsent
  exact ⟨e, he, hnode, .inl hout⟩

theorem feeds_onlyChunk :
    compactedCluster.Feeds 2 (.message 1 (.installSnapshotChunk onlyRequest)) := by
  have hsent : ∃ e ∈ compactedCluster.emitted,
      e.node = 1 ∧ e.output = .sendSnapshotChunk 2 onlyChunk := by
    decide +kernel
  have hresolve : onlyChunk.resolve [] = some onlyRequest := by
    rw [SnapshotChunkSend.resolve]
    exact if_neg (not_not.2 rfl)
  obtain ⟨e, he, hnode, hout⟩ := hsent
  exact ⟨e, he, hnode, .inr ⟨onlyChunk, [], onlyRequest, hout, hresolve, rfl⟩⟩

/-- The inputs of the batch. -/
def lateBatch : List Input :=
  [.message 1 lateFrame, .message 1 (.installSnapshotChunk onlyRequest)]

/-- The outputs learner 2's runtime releases for one batch. -/
def releasedBy (inputs : List Input) : List Output :=
  (DurableRaftNode.stepBatch learnerRaft inputs).1.toOption.getD []

/-- The group once its runtime has stepped the inputs. -/
def learnerAfter (inputs : List Input) : RaftGroup ℕ counter durable :=
  { learnerGroup with raft := (DurableRaftNode.stepBatch learnerRaft inputs).2 }

theorem hosted_after {inputs : List Input} (hin : ∀ x ∈ inputs, compactedCluster.Feeds 2 x)
    (hok : (DurableRaftNode.stepBatch learnerRaft inputs).1.toOption.isSome) :
    Hosted counterCorrect growingCluster 2
      (compactedCluster.record 2 none ((compactedCluster.nodes 2).stepBatch inputs))
      (learnerAfter inputs) (releasedBy inputs) := by
  have hstep : DurableRaftNode.stepBatch learnerRaft inputs =
      (.ok (releasedBy inputs), (DurableRaftNode.stepBatch learnerRaft inputs).2) := by
    unfold releasedBy
    rcases h : DurableRaftNode.stepBatch learnerRaft inputs with ⟨_ | outputs, raft⟩
    · rw [h] at hok
      contradiction
    · rfl
  exact .stepped hosted_learner hin hstep

/-- With the late frame alone, the outputs are executed in order. -/
theorem lateFrame_executed :
    SnapshotsFirst (releasedBy [.message 1 lateFrame]) ∧
      ∃ report g', applyOutputs (releasedBy [.message 1 lateFrame]) false
          (learnerAfter [.message 1 lateFrame]) = (.ok report, g') ∧ g'.fatalState = .healthy ∧
        g'.app = (releasedBy [.message 1 lateFrame]).foldl counterCorrect.execute
          (learnerAfter [.message 1 lateFrame]).app := by
  have hfirst : SnapshotsFirst (releasedBy [.message 1 lateFrame]) := by decide +kernel
  have hhosted := hosted_after (List.forall_mem_singleton.2 feeds_lateFrame) (by decide +kernel)
  exact ⟨hfirst, (outputs_executed_in_order_iff hhosted false).2 hfirst⟩

/-- The entry and the applied index of a refused replay. -/
def alreadyApplied {E R α : Type} : Except (GroupError E R) α → Option (ℕ × ℕ)
  | .error (.applyEntryAlreadyApplied entryIndex appAppliedIndex _) =>
    some (entryIndex, appAppliedIndex)
  | _ => none

/-- In one batch with the snapshot, the entries of the frame come too late for the pump. -/
theorem snapshot_overtakes_entries :
    ∃ (c : Cluster) (g : RaftGroup ℕ counter durable) (pending : List Output),
      Hosted counterCorrect growingCluster 2 c g pending ∧
        alreadyApplied (applyOutputs pending false g).1 = some (2, 4) ∧
        (applyOutputs pending false g).2.fatalState ≠ .healthy := by
  have hin : ∀ x ∈ lateBatch, compactedCluster.Feeds 2 x :=
    List.forall_mem_cons.2 ⟨feeds_lateFrame, List.forall_mem_singleton.2 feeds_onlyChunk⟩
  refine ⟨_, _, _, hosted_after hin (by decide +kernel), by decide +kernel, ?_⟩
  decide +kernel

end Rafter.App
