import Rafter.App.Calls

/-!
# The pump and the state machine

What `applyOutputs` does to the group around its state machine: most outputs are bookkeeping, reads
leave the state machine alone, and settled results raise the applied floor.

Results:

* `recordRaftOutput_vitals`: an output that does not reach the state machine;
* `completeReadyReads_ends`, `settleResults_vitals`: reads and results.
-/

namespace Rafter.App

open Fallible

variable {G : Type} {A : ReplicatedStateMachine} {R : PersistedRaftRuntime}
variable {g : RaftGroup G A R} {entries : List (ApplyEntry A.Command)}

/-- The parts of a group that decide what its state machine is given. -/
def RaftGroup.vitals (g : RaftGroup G A R) : R.State × A.State × GroupFatalState × ℕ :=
  (g.raft, g.app, g.fatalState, g.lastAppliedIndex)

/-- The outputs that reach the state machine. -/
def handsOver : Output → Bool
  | .apply _ _ _ _ | .applySnapshot _ => true
  | _ => false

/-! ## Bookkeeping -/

theorem vitals_of_bare {g' : RaftGroup G A R} (h : g'.bare = g.bare) : g'.vitals = g.vitals := by
  show g'.bare.vitals = g.bare.vitals
  rw [h]

theorem recorded_ends {f : RaftGroup G A R → ReportOf G A × RaftGroup G A R} {report : ReportOf G A}
    (h : ∀ g, Books (report, g) (f g)) (entries : List (ApplyEntry A.Command))
    (g : RaftGroup G A R) :
    Ends (do let report ← updateWith f; pure (entries, report) : GroupM G A R _) g
      (fun s' g' => s'.1 = entries ∧ g'.vitals = g.vitals) fun _ _ => False :=
  ends_of_ok rfl ⟨rfl, vitals_of_bare (h g).1⟩

/-- An output that does not reach the state machine changes tables and the report only. -/
theorem recordRaftOutput_vitals (membershipRequest : Bool)
    (s : List (ApplyEntry A.Command) × ReportOf G A) {output : Output}
    (h : handsOver output = false) (g : RaftGroup G A R) :
    Ends (recordRaftOutput membershipRequest s output) g
      (fun s' g' => s'.1 = s.1 ∧ g'.vitals = g.vitals) fun _ _ => False := by
  refine ends_current_bind ?_
  cases output with
  | apply | applySnapshot => cases h
  | localProposalAppended proposalId index term =>
    exact recorded_ends (recordAppendedProposal_books proposalId index term s.2) s.1 g
  | localProposalDropped proposalId index term reason =>
    exact recorded_ends (recordEndedProposal_books proposalId _ s.2) s.1 g
  | rejectProposal proposalId reason =>
    cases proposalId with
    | some id => exact recorded_ends (recordEndedProposal_books id _ s.2) s.1 g
    | none =>
      dsimp only
      split <;> exact ends_pure ⟨rfl, rfl⟩
  | readIndexGranted readId readIndex =>
    exact ends_update_bind (ends_pure ⟨rfl, vitals_of_bare
      (bare_recordGrantedReadIndex g readId readIndex)⟩)
  | readIndexRejected readId | readIndexCanceled readId =>
    exact recorded_ends (recordEndedRead_books readId _ s.2) s.1 g
  | send | leadershipTransferRejected | stageSnapshotChunk | sendSnapshotChunk
  | configurationCommitted => exact ends_pure ⟨rfl, rfl⟩

/-- Reads ask the state machine for its applied index; they fail only where it does not tell. -/
theorem completeReadyReads_ends (report : ReportOf G A) (g : RaftGroup G A R) :
    Ends (completeReadyReads report) g (fun _ g' => g'.vitals = g.vitals)
      fun _ g' => g' = g ∧ ∃ source, A.appliedIndex g.app = .error source := by
  refine ends_current_bind ?_
  split
  · exact ends_pure rfl
  · split
    · rename_i source hsource
      exact ends_fail ⟨rfl, source, hsource⟩
    · exact ends_updateWith (vitals_of_bare (completeReads_books _ _ (report, g)).1)

/-! ## What the state machine is given -/

/-- The state machine after it was given a snapshot. -/
def ReplicatedStateMachine.installed (A : ReplicatedStateMachine) (s : A.State)
    (snapshot : RaftSnapshot) : A.State :=
  (A.installSnapshot s ⟨snapshot.metadata.lastIncludedIndex, [], some snapshot⟩).2

/-- The result reports the entry. -/
def Answers {C D : Type} (entry : ApplyEntry C) (result : ApplyResult D) : Prop :=
  result.index = entry.index ∧ result.term = entry.term ∧
    result.localProposalId = entry.localProposalId

/-- Settling results raises the floor and takes proposals out of their table. -/
theorem settleResults_vitals (results : List (ApplyResult A.CommandResult)) :
    ∀ s : ReportOf G A × RaftGroup G A R, (results.foldl settleResult s).2.vitals =
      (s.2.raft, s.2.app, s.2.fatalState,
        results.foldl (fun floor result => max floor result.index) s.2.lastAppliedIndex) := by
  induction results with
  | nil => exact fun _ => rfl
  | cons result results ih =>
    intro s
    have hone : (settleResult s result).2.vitals = (s.2.raft, s.2.app, s.2.fatalState,
        max s.2.lastAppliedIndex result.index) := by
      unfold settleResult
      dsimp only
      split <;> rfl
    simp only [RaftGroup.vitals, Prod.mk.injEq] at hone
    rw [List.foldl_cons, List.foldl_cons, ih, hone.1, hone.2.1, hone.2.2.1, hone.2.2.2]

theorem settleResults_app (results : List (ApplyResult A.CommandResult))
    (s : ReportOf G A × RaftGroup G A R) : (results.foldl settleResult s).2.app = s.2.app :=
  congrArg (·.2.1) (settleResults_vitals results s)

/-- The floor after results that answer the entries stays below what bounds the entries. -/
theorem foldl_max_le {results : List (ApplyResult A.CommandResult)}
    (h : List.Forall₂ Answers entries results) {floor bound : ℕ} (hfloor : floor ≤ bound)
    (hentries : ∀ entry ∈ entries, entry.index ≤ bound) :
    results.foldl (fun floor result => max floor result.index) floor ≤ bound := by
  induction h generalizing floor with
  | nil => exact hfloor
  | cons hanswers _ ih =>
    refine ih (max_le hfloor ?_) fun entry hentry => hentries entry (List.mem_cons_of_mem _ hentry)
    rw [hanswers.1]
    exact hentries _ List.mem_cons_self

end Rafter.App
