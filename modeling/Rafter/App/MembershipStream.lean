import Rafter.App.MembershipAccount

/-!
# The membership event stream

The calls of a group, one after the other, and what a caller that keeps every report hears. The
outcome forms drop their report and owe its crossings again.

Results:

* `membership_stream_lossless`: over any such calls the crossings heard are those of the runtime.
-/

namespace Rafter.App

open Fallible

variable {G : Type} {A : ReplicatedStateMachine} {R : PersistedRaftRuntime}
variable {α : Type} {x : GroupM G A R.recording α} {g : RaftGroup G A R.recording}

/-! ## Proposals and steps -/

theorem rejectIfBelowSnapshotBoundary_leaves :
    (rejectIfBelowSnapshotBoundary : GroupM G A R Unit).Leaves RaftGroup.ledger := by
  refine leaves_current.bind fun g => ?_
  dsimp only
  split
  · exact leaves_pure
  · refine appAppliedIndex_leaves.bind fun app => Leaves.bind
      (leaves_update fun _ => rfl) fun _ => ?_
    split
    · exact leaves_pure
    · exact poisonWith_leaves

theorem rejectNonMonotonicProposal_leaves (lastSeen : Option LocalProposalId)
    (id : LocalProposalId) :
    (rejectNonMonotonicProposal lastSeen id : GroupM G A R Unit).Leaves RaftGroup.ledger := by
  unfold rejectNonMonotonicProposal
  split
  · split
    · exact leaves_fail
    · exact leaves_pure
  · exact leaves_pure

theorem encodeCommand_leaves (command : A.Command) :
    (encodeCommand command : GroupM G A R Payload).Leaves RaftGroup.ledger := by
  refine leaves_current.bind fun g => ?_
  split
  · exact leaves_pure
  · exact leaves_fail

theorem stepProposal_releases (proposal : Proposal A.Command) :
    Releases (stepProposal proposal : GroupM G A R.recording _) := by
  refine Releases.of_leaves leaves_current fun g => ?_
  refine Releases.of_leaves (rejectNonMonotonicProposal_leaves _ _) fun _ => ?_
  refine Releases.of_leaves (encodeCommand_leaves _) fun payload => ?_
  refine Releases.of_leaves (leaves_update fun _ => rfl) fun _ => ?_
  refine stepRuntimeOr_releases (R.step · (.trackedClientProposal _ payload)) ?_
  exact fun _ => rfl

theorem stepProposals_releases (proposals : List (Proposal A.Command)) :
    Releases (stepProposals proposals : GroupM G A R.recording _) := by
  unfold stepProposals
  split
  · exact fun g => ends_pure ⟨(List.append_nil _).symm, rfl⟩
  · refine Releases.of_leaves leaves_current fun g => ?_
    refine Releases.of_leaves (Leaves.foldlM ?_ proposals _) fun encoded => ?_
    · intro s proposal
      refine (rejectNonMonotonicProposal_leaves _ _).bind fun _ => ?_
      exact (encodeCommand_leaves _).bind fun _ => leaves_pure
    · refine Releases.of_leaves (leaves_update fun _ => rfl) fun _ => ?_
      refine stepRuntimeOr_releases (R.stepProposalBatch · encoded.2) ?_
      exact fun _ => rfl

theorem recordMissingLifecycles_ledger (ids : List LocalProposalId) :
    ∀ (report : ReportOf G A) (g : RaftGroup G A R),
      (recordMissingProposalLifecycles ids report g).2.ledger = g.ledger ∧
        (recordMissingProposalLifecycles ids report g).1.membershipEvents =
          report.membershipEvents := by
  induction ids with
  | nil => exact fun _ _ => ⟨rfl, rfl⟩
  | cons id ids ih =>
    intro report g
    unfold recordMissingProposalLifecycles
    rw [List.foldl_cons]
    unfold recordMissingLifecycle
    split
    · exact ih report g
    · exact ih _ _

theorem Reports.normalised {x : GroupM G A R.recording (ReportOf G A)}
    (hx : Reports GroupStepReport.membershipEvents x) (ids : List LocalProposalId) :
    Reports GroupStepReport.membershipEvents
      (x >>= fun report => updateWith (recordMissingProposalLifecycles ids report)) :=
  hx.andThen fun report g => ends_updateWith (recordMissingLifecycles_ledger ids report g)

theorem stepProposalInput_reports (proposal : Proposal A.Command) :
    Reports GroupStepReport.membershipEvents
      (stepProposalInput proposal : GroupM G A R.recording _) := by
  have h := ((stepProposal_releases (G := G) (R := R) proposal).pump false).normalised
    [proposal.localProposalId]
  rwa [bind_assoc] at h

theorem stepProposalBatchInput_reports (proposals : List (Proposal A.Command)) :
    Reports GroupStepReport.membershipEvents
      (stepProposalBatchInput proposals : GroupM G A R.recording _) := by
  have h := ((stepProposals_releases (G := G) (R := R) proposals).pump false).normalised
    (proposals.map (·.localProposalId))
  rwa [bind_assoc] at h

/-- The two refusals every call begins with. -/
theorem Reports.guarded {events : α → List (MembershipEvent G)} (hx : Reports events x) :
    Reports events (do rejectIfPoisoned; rejectIfBelowSnapshotBoundary; x) :=
  Reports.of_leaves rejectIfPoisoned_leaves fun _ =>
    Reports.of_leaves rejectIfBelowSnapshotBoundary_leaves fun _ => hx

/-- A begin form reads its answer off the report. -/
theorem Reports.answering {x : GroupM G A R.recording (ReportOf G A)}
    (hx : Reports GroupStepReport.membershipEvents x)
    (answer : RaftGroup G A R.recording → ReportOf G A → α) :
    Reports (fun a : α × ReportOf G A => a.2.membershipEvents) (do
      let report ← x
      let g ← current
      pure (answer g report, report)) :=
  hx.andThen fun _ _ => ends_current_bind (ends_pure ⟨rfl, rfl⟩)

theorem beginProposal_reports (proposal : Proposal A.Command) :
    Reports (fun begun => begun.2.membershipEvents)
      (beginProposal proposal : GroupM G A R.recording _) :=
  ((stepProposalInput_reports proposal).answering _).guarded

theorem beginProposalBatch_reports (proposals : List (Proposal A.Command)) :
    Reports (fun begun => begun.2.membershipEvents)
      (beginProposalBatch proposals : GroupM G A R.recording _) :=
  ((stepProposalBatchInput_reports proposals).answering _).guarded

/-- An outcome form owes what its report told. -/
theorem discardingReport_ends {x : GroupM G A R.recording (α × ReportOf G A)}
    (hx : Ends x g (fun a g' => Told g a.2.membershipEvents g') fun _ g' => Untold g g') :
    Ends (discardingReport x) g (fun _ g' => Untold g g') fun _ g' => Untold g g' := by
  refine ends_current_bind (hx.bind fun a g' h => ?_)
  exact ends_update_bind (ends_pure (h.restored rfl rfl))

theorem stepRuntime_releases (input : Input) :
    Releases (stepRuntime input : GroupM G A R.recording _) :=
  stepRuntimeOr_releases (R.step · input) fun _ => rfl

section

variable [DecidableEq G]

theorem validateReadBarrier_leaves (request : ReadBarrierRequest G) :
    (validateReadBarrier request : GroupM G A R Unit).Leaves RaftGroup.ledger := by
  refine leaves_current.bind fun g => ?_
  split
  · exact leaves_fail
  · split
    · exact leaves_fail
    · split
      · split
        · exact leaves_fail
        · exact leaves_pure
      · exact leaves_pure

theorem stepReadBarrierInput_reports (request : ReadBarrierRequest G) :
    Reports GroupStepReport.membershipEvents
      (stepReadBarrierInput request : GroupM G A R.recording _) := by
  refine Reports.of_leaves (validateReadBarrier_leaves request) fun _ => ?_
  refine Reports.of_leaves (leaves_update fun _ => rfl) fun _ => Releases.pump ?_ false
  refine stepRuntimeOr_releases (R.step · (.readIndex request.readId)) ?_
  exact fun _ => rfl

theorem beginReadBarrier_reports (request : ReadBarrierRequest G) :
    Reports (fun begun => begun.2.membershipEvents)
      (beginReadBarrier request : GroupM G A R.recording _) := by
  refine Reports.guarded ((stepReadBarrierInput_reports request).andThen fun _ _ => ?_)
  exact ends_pure ⟨rfl, rfl⟩

theorem validatePeerEnvelope_leaves (envelope : PeerEnvelope G) :
    (validatePeerEnvelope envelope : GroupM G A R Unit).Leaves RaftGroup.ledger := by
  refine leaves_current.bind fun g => ?_
  split
  · exact leaves_fail
  · split
    · exact leaves_fail
    · exact leaves_pure

theorem stepInput_reports (input : GroupInput G A.Command) :
    Reports GroupStepReport.membershipEvents (stepInput input : GroupM G A R.recording _) := by
  cases input with
  | tick => exact (stepRuntime_releases .tick).pump false
  | peerMessage envelope =>
    exact Reports.of_leaves (validatePeerEnvelope_leaves envelope) fun _ =>
      (stepRuntime_releases _).pump false
  | proposal proposal => exact stepProposalInput_reports proposal
  | proposalBatch proposals => exact stepProposalBatchInput_reports proposals
  | readBarrier request => exact stepReadBarrierInput_reports request
  | transferLeadership target =>
    have h : Reports (G := G) (A := A) (R := R) GroupStepReport.membershipEvents (do
        let report ← stepRuntime (.transferLeadership target) >>= fun outputs =>
          applyOutputs outputs false
        pure (startTransfer target report)) := by
      refine ((stepRuntime_releases _).pump false).andThen fun report g => ends_pure ⟨rfl, ?_⟩
      unfold startTransfer
      split <;> rfl
    rwa [bind_assoc] at h
  | membership change => exact (stepRuntime_releases _).pump true

theorem step_reports (input : GroupInput G A.Command) :
    Reports GroupStepReport.membershipEvents (step input : GroupM G A R.recording _) :=
  (stepInput_reports input).guarded

end

/-! ## Reads -/

theorem readStateMachine_leaves (query : A.Query) (barrier : ReadBarrier) :
    (readStateMachine query barrier : GroupM G A R _).Leaves RaftGroup.ledger := by
  refine leaves_current.bind fun g => ?_
  split
  · exact leaves_pure
  · exact leaves_fail

theorem readWithProof_leaves (query : A.Query) (proof : ReadProof G) :
    (readWithProof query proof : GroupM G A R _).Leaves RaftGroup.ledger :=
  (readStateMachine_leaves _ _).bind fun _ => leaves_pure

theorem readAppliedIndex_leaves : (readAppliedIndex : GroupM G A R ℕ).Leaves RaftGroup.ledger := by
  refine leaves_current.bind fun g => ?_
  split
  · exact leaves_pure
  · exact leaves_fail

theorem readLocal_leaves (query : A.Query) (minAppliedIndex : Option ℕ) :
    (readLocal query minAppliedIndex : GroupM G A R _).Leaves RaftGroup.ledger := by
  refine readAppliedIndex_leaves.bind fun applied => ?_
  dsimp only
  split
  · exact leaves_pure
  · exact (readStateMachine_leaves _ _).bind fun _ => leaves_pure

theorem tryCompletePendingQueryRead_leaves (readId : ReadId) (query : A.Query) :
    (tryCompletePendingQueryRead readId query : GroupM G A R _).Leaves RaftGroup.ledger := by
  refine leaves_current.bind fun g => ?_
  split
  · exact Leaves.bind (leaves_update fun _ => rfl) fun _ => leaves_pure
  · split
    · exact leaves_pure
    · refine readAppliedIndex_leaves.bind fun applied => ?_
      dsimp only
      split
      · exact leaves_pure
      · exact Leaves.bind (leaves_update fun _ => rfl) fun _ => readWithProof_leaves _ _

theorem readOutcomeFromProofOutcome_leaves (readId : ReadId) (query : A.Query)
    (outcome : ReadProofOutcome G) :
    (readOutcomeFromProofOutcome readId query outcome : GroupM G A R _).Leaves
      RaftGroup.ledger := by
  cases outcome with
  | granted proof =>
    exact Leaves.bind (leaves_update fun _ => rfl) fun _ => readWithProof_leaves _ _
  | pending | freshnessUnavailable => exact leaves_pure
  | rejected | canceled => exact Leaves.bind (leaves_update fun _ => rfl) fun _ => leaves_pure

/-- An answer without a step comes with an empty report. -/
theorem unstepped_ends {g₁ : RaftGroup G A R.recording} {groupId : G}
    {q : α × ReportOf G A → RaftGroup G A R.recording → Prop} (hx : x.Leaves RaftGroup.ledger)
    (hg₁ : g₁.ledger = g.ledger)
    (hq : ∀ a g', g'.ledger = g.ledger → q (a, { groupId := groupId }) g') :
    Ends (do let a ← x; pure (a, { groupId := groupId })) g₁ q fun _ g' => Untold g g' := by
  refine Ends.bind ((hx.ends g₁).mono (fun _ _ h => h) fun _ _ h =>
    Untold.of_ledger (h.trans hg₁)) ?_
  exact fun a g' h => ends_pure (hq a g' (h.trans hg₁))

theorem restoringOnError_ends {report : ReportOf G A} {g₁ : RaftGroup G A R.recording}
    (hx : x.Leaves RaftGroup.ledger) (hg₁ : Told g report.membershipEvents g₁) :
    Ends (restoringOnError g.reportedMembership report x) g₁
      (fun _ g' => Told g report.membershipEvents g') fun _ g' => Untold g g' := by
  have hends := hx.ends g₁
  rcases h : x g₁ with ⟨error | a, g'⟩
  · have heq : restoringOnError g.reportedMembership report x g₁ =
        (.error error, g'.restoreMembershipReportMark g.reportedMembership report) := by
      unfold restoringOnError
      rw [h]
    have hproduced : g'.produced = g₁.produced := produced_of_ledger (hends.of_error h)
    exact ends_of_error heq (hg₁.restored hproduced rfl)
  · have heq : restoringOnError g.reportedMembership report x g₁ = (.ok a, g') := by
      unfold restoringOnError
      rw [h]
    exact ends_of_ok heq (hg₁.before (hends.of_ok h))

/-- Past its two refusals a read finds the tables it was called with. -/
theorem rejectIfBelowSnapshotBoundary_ends (g : RaftGroup G A R) :
    Ends rejectIfBelowSnapshotBoundary g
      (fun _ g' => ∃ index, g' = { g with lastAppliedIndex := index })
      fun _ g' => g'.ledger = g.ledger := by
  refine ends_current_bind ?_
  dsimp only
  split
  · exact ends_pure ⟨g.lastAppliedIndex, rfl⟩
  · have happ : Ends appAppliedIndex g (fun _ g' => g' = g) fun _ g' => g'.ledger = g.ledger := by
      refine (appAppliedIndex_ends g).mono (fun _ _ h => h.1) ?_
      rintro _ _ ⟨source, -, rfl⟩
      rfl
    refine happ.bind fun app g' hg' => ends_update_bind ?_
    subst hg'
    split
    · exact ends_pure ⟨_, rfl⟩
    · exact ends_of_error rfl rfl

section

variable [DecidableEq G]
  {q : ReadOutcome G A.QueryResult × ReportOf G A → RaftGroup G A R.recording → Prop}

/-- The read is answered without a step of the runtime: a local read, or one whose query is
known. -/
def RaftGroup.answersUnstepped (g : RaftGroup G A R) : ReadRequest G A.Query → Bool
  | .localRead _ _ _ => true
  | .linearizable _ readId _ _ _ =>
    g.completedQueryReads.contains readId || g.pendingQueryReads.contains readId
  | .lease _ _ _ => false

/-- A linearizable read reports, or answers without a step and says nothing. -/
theorem readLinearizable_ends (groupId : G) (readId : ReadId) (query : A.Query)
    (minAppliedIndex : Option ℕ) (context : Payload)
    (hunstepped : g.answersUnstepped (.linearizable groupId readId query minAppliedIndex context) →
      ∀ outcome g', g'.ledger = g.ledger → q (outcome, { groupId := g.groupId }) g')
    (htold : ∀ answer g', Told g answer.2.membershipEvents g' → q answer g') :
    Ends (readLinearizable readId query minAppliedIndex context) g q fun _ g' => Untold g g' := by
  refine ends_current_bind ?_
  unfold RaftGroup.answersUnstepped Table.contains at hunstepped
  dsimp only at hunstepped
  split
  · rename_i completed heq
    rw [heq] at hunstepped
    split
    · exact ends_fail (Untold.of_ledger rfl)
    · exact ends_update_bind (unstepped_ends (readWithProof_leaves query completed.proof) rfl
        (hunstepped rfl))
  · rename_i pending hcompleted heq
    rw [heq, hcompleted] at hunstepped
    split
    · exact ends_fail (Untold.of_ledger rfl)
    · exact unstepped_ends (tryCompletePendingQueryRead_leaves readId query) rfl (hunstepped rfl)
  · refine (beginReadBarrier_reports _ g).bind fun begun g₁ h₁ => ends_update_bind ?_
    have hg₁ : Told g begun.2.membershipEvents (if begun.1.isOpen then
        { g₁ with
          pendingQueryReads := g₁.pendingQueryReads.insert readId ⟨minAppliedIndex, context⟩ }
        else g₁) := by
      refine h₁.before ?_
      split <;> rfl
    refine (restoringOnError_ends (readOutcomeFromProofOutcome_leaves readId query begun.1)
      hg₁).bind fun outcome g' hg' => ends_pure (htold _ g' hg')

/-- A read reports, or answers without a step and says nothing. -/
theorem read_ends (request : ReadRequest G A.Query)
    (hunstepped : g.answersUnstepped request →
      ∀ outcome groupId g', g'.ledger = g.ledger → q (outcome, { groupId := groupId }) g')
    (htold : ∀ answer g', Told g answer.2.membershipEvents g' → q answer g') :
    Ends (read request) g q fun _ g' => Untold g g' := by
  refine Ends.bind ((rejectIfPoisoned_ends g).mono (fun _ _ h => h.1)
    fun _ _ h => Untold.of_ledger (congrArg _ h.1)) ?_
  rintro _ _ rfl
  refine Ends.bind ((rejectIfBelowSnapshotBoundary_ends _).mono (fun _ _ h => h)
    fun _ _ h => Untold.of_ledger h) ?_
  rintro _ _ ⟨index, rfl⟩
  refine ends_current_bind ?_
  cases request with
  | localRead groupId query minAppliedIndex =>
    dsimp only
    split
    · exact ends_fail (Untold.of_ledger rfl)
    · exact unstepped_ends (readLocal_leaves query minAppliedIndex) rfl
        fun outcome g' h => hunstepped rfl outcome _ g' h
  | linearizable groupId readId query minAppliedIndex context =>
    dsimp only
    split
    · exact ends_fail (Untold.of_ledger rfl)
    · refine (readLinearizable_ends groupId readId query minAppliedIndex context ?_ ?_).mono
        (fun _ _ h => h) fun _ _ h => h.after rfl
      · exact fun h outcome g' hg' => hunstepped h outcome _ g' hg'
      · exact fun answer g' h => htold answer g' (h.after rfl)
  | lease groupId query minAppliedIndex =>
    dsimp only
    split
    · exact ends_fail (Untold.of_ledger rfl)
    · exact ends_fail (Untold.of_ledger rfl)

end

/-! ## Calls, one after the other -/

/-- What a caller can do with a group. Raw outputs are those the runtime released to the caller: at
its recovery, or when the caller drove it between a decomposition and a rebuild. -/
inductive Call (G : Type) (A : ReplicatedStateMachine) (R : PersistedRaftRuntime) where
  | step (input : GroupInput G A.Command)
  | beginProposal (proposal : Proposal A.Command)
  | beginProposalOutcome (proposal : Proposal A.Command)
  | beginProposalBatch (proposals : List (Proposal A.Command))
  | beginReadBarrier (request : ReadBarrierRequest G)
  | beginReadBarrierOutcome (request : ReadBarrierRequest G)
  | read (request : ReadRequest G A.Query)
  | readOutcome (request : ReadRequest G A.Query)
  | cancelRead (readId : ReadId)
  | dropCompletedRead (readId : ReadId)
  | applyRaftOutputs (outputs : List Output)
  | applyRecoveryOutputs (outputs : List Output)
  | drainMembershipEvents
  | drainPoisonedWaiters
  | stateMachineMut (app : A.State)
  | rebuild (raft : R.State) (app : A.State) (appliedIndex : ℕ)

/-- The runtime releases outputs to the caller. -/
def RaftGroup.releasing (g : RaftGroup G A R.recording) (outputs : List Output) :
    RaftGroup G A R.recording :=
  { g with raft := (⟨g.raft.runtime, g.raft.released ++ outputs⟩ : Recorded R) }

/-- The membership events a caller gets of a computation: none when it fails. -/
def reported {α : Type} (events : α → List (MembershipEvent G)) (x : GroupM G A R α)
    (g : RaftGroup G A R) : Option (List (MembershipEvent G)) × RaftGroup G A R :=
  match x g with
  | (.ok a, g') => (some (events a), g')
  | (.error _, g') => (none, g')

/-- A call of a group: the membership events of its report, if it gives one, and the group after. -/
def Call.perform [DecidableEq G] (g : RaftGroup G A R.recording) :
    Call G A R → Option (List (MembershipEvent G)) × RaftGroup G A R.recording
  | .step input => reported (·.membershipEvents) (App.step input) g
  | .beginProposal proposal => reported (·.2.membershipEvents) (App.beginProposal proposal) g
  | .beginProposalOutcome proposal => (none, (App.beginProposalOutcome proposal g).2)
  | .beginProposalBatch proposals =>
    reported (·.2.membershipEvents) (App.beginProposalBatch proposals) g
  | .beginReadBarrier request => reported (·.2.membershipEvents) (App.beginReadBarrier request) g
  | .beginReadBarrierOutcome request => (none, (App.beginReadBarrierOutcome request g).2)
  | .read request => reported (·.2.membershipEvents) (App.read request) g
  | .readOutcome request => (none, (App.readOutcome request g).2)
  | .cancelRead readId => (none, (g.removeReadState readId).2)
  | .dropCompletedRead readId =>
    (none, { g with completedQueryReads := g.completedQueryReads.erase readId })
  | .applyRaftOutputs outputs =>
    reported (·.membershipEvents) (App.applyRaftOutputs outputs) (g.releasing outputs)
  | .applyRecoveryOutputs outputs =>
    reported (·.membershipEvents) (App.applyRecoveryOutputs outputs) (g.releasing outputs)
  | .drainMembershipEvents =>
    (some (App.drainMembershipEvents g).1, (App.drainMembershipEvents g).2)
  | .drainPoisonedWaiters => (none, { g with poisonedWaiters := {} })
  | .stateMachineMut app => (none, { g with app := app })
  | .rebuild raft app appliedIndex =>
    (none, g.rebuild (⟨raft, g.raft.released⟩ : Recorded R) app appliedIndex)

/-- The recovery outputs find what they need: no restore is owed, or its descriptor is there. -/
def RaftGroup.canRestore (g : RaftGroup G A R) (outputs : List Output) : Bool :=
  match lowestApplicationEntry outputs with
  | none => true
  | some _ =>
    match A.appliedIndex g.app with
    | .error _ => false
    | .ok app =>
      R.snapshotIndex g.raft ≤ app ∨ installsThrough outputs (R.snapshotIndex g.raft) ∨
        (R.snapshot g.raft).isSome

/-- Reads that do not step the runtime are made with nothing owed; raw outputs are handed to a group
that takes them. -/
def Call.Orderly [DecidableEq G] (g : RaftGroup G A R.recording) : Call G A R → Prop
  | .read request => g.answersUnstepped request → g.reportedMembership = g.level
  | .readOutcome request => g.answersUnstepped request → g.reportedMembership.crossed = []
  | .applyRaftOutputs _ => g.fatalState = .healthy
  | .applyRecoveryOutputs outputs => g.fatalState = .healthy ∧ g.canRestore outputs
  | _ => True

/-- What a call does to the account. -/
def AccountKept (g : RaftGroup G A R.recording)
    (performed : Option (List (MembershipEvent G)) × RaftGroup G A R.recording) : Prop :=
  match performed.1 with
  | some events => Told g events performed.2
  | none => Untold g performed.2

theorem AccountKept.of_reported {events : α → List (MembershipEvent G)}
    {g₁ : RaftGroup G A R.recording}
    (hx : Ends x g₁ (fun a g' => Told g (events a) g') fun _ g' => Untold g g') :
    AccountKept g (reported events x g₁) := by
  unfold reported
  rcases h : x g₁ with ⟨error | a, g'⟩
  · exact hx.of_error h
  · exact hx.of_ok h

theorem AccountKept.of_silent (hx : Ends x g (fun _ g' => Untold g g') fun _ g' => Untold g g') :
    AccountKept g (none, (x g).2) := by
  rcases h : x g with ⟨error | a, g'⟩
  · exact hx.of_error h
  · exact hx.of_ok h

theorem AccountKept.of_ledger {g' : RaftGroup G A R.recording} (h : g'.ledger = g.ledger) :
    AccountKept g (none, g') :=
  Untold.of_ledger h

/-- Raw outputs, pumped by a group that takes them. -/
theorem pumped_ends (outputs installed : List Output)
    (hinstalled : installed.filterMap committedCrossing = outputs.filterMap committedCrossing) :
    Ends (applyOutputs installed false) (g.releasing outputs)
      (fun report g' => Told g report.membershipEvents g') fun _ g' => Untold g g' := by
  have hproduced : (g.releasing outputs).produced =
      g.produced ++ outputs.filterMap committedCrossing := List.filterMap_append
  refine (applyOutputs_ends installed false (g.releasing outputs)).mono ?_ ?_
  · rintro report g' ⟨hraft, hlevel, haccounts⟩
    rw [hinstalled] at haccounts
    refine ⟨_, ?_, hlevel, haccounts⟩
    rw [← hproduced]
    exact congrArg (fun s => s.released.filterMap committedCrossing) hraft
  · rintro error g' ⟨hraft, hmark⟩
    rw [hinstalled] at hmark
    refine ⟨_, ?_, hmark⟩
    rw [← hproduced]
    exact congrArg (fun s => s.released.filterMap committedCrossing) hraft

theorem snapshotRestoreOwedBy_ends {g : RaftGroup G A R} {outputs : List Output}
    (h : g.canRestore outputs) :
    Ends (snapshotRestoreOwedBy outputs) g (fun _ g' => g' = g) fun _ _ => False := by
  unfold RaftGroup.canRestore at h
  unfold snapshotRestoreOwedBy
  split
  · exact ends_pure rfl
  · rename_i entryIndex hentry
    rw [hentry] at h
    have happ : Ends appAppliedIndex g (fun app g' => g' = g ∧ A.appliedIndex g.app = .ok app)
        fun _ _ => False := by
      refine (appAppliedIndex_ends g).mono (fun _ _ h => h) ?_
      rintro _ _ ⟨source, hsource, -⟩
      rw [hsource] at h
      cases h
    refine happ.bind ?_
    rintro app _ ⟨rfl, hok⟩
    rw [hok] at h
    refine ends_current_bind ?_
    dsimp only at h ⊢
    split
    · exact ends_pure rfl
    · rename_i hnot
      split
      · rename_i hsnapshot
        rw [hsnapshot] at h
        rcases of_decide_eq_true h with hle | hinstalls | hsome
        · exact hnot (.inl hle)
        · exact hnot (.inr hinstalls)
        · cases hsome
      · exact ends_pure rfl

theorem rejectIfPoisoned_bind_ends {x : GroupM G A R α} {g : RaftGroup G A R}
    {q : α → RaftGroup G A R → Prop} {e : GroupError A.Error R.Error → RaftGroup G A R → Prop}
    (hhealthy : g.fatalState = .healthy) (hx : Ends x g q e) :
    Ends (rejectIfPoisoned >>= fun _ => x) g q e := by
  refine Ends.bind ((rejectIfPoisoned_ends g).mono (fun _ _ h => h.1)
    fun _ _ h => (h.2 hhealthy).elim) ?_
  rintro _ _ rfl
  exact hx

/-- Every call keeps the account. -/
theorem Call.perform_accounts [DecidableEq G] {c : Call G A R} (h : c.Orderly g) :
    AccountKept g (c.perform g) := by
  cases c with
  | step input => exact .of_reported (step_reports input g)
  | beginProposal proposal => exact .of_reported (beginProposal_reports proposal g)
  | beginProposalOutcome proposal =>
    exact .of_silent (discardingReport_ends (beginProposal_reports proposal g))
  | beginProposalBatch proposals => exact .of_reported (beginProposalBatch_reports proposals g)
  | beginReadBarrier request => exact .of_reported (beginReadBarrier_reports request g)
  | beginReadBarrierOutcome request =>
    exact .of_silent (discardingReport_ends (beginReadBarrier_reports request g))
  | read request =>
    refine .of_reported (read_ends request ?_ fun _ _ h => h)
    -- nothing is owed, so an empty report tells everything
    intro hunstepped outcome groupId g' hg'
    have hlevel : g.reportedMembership = g.level := h hunstepped
    have htold : Told g ([] : List (MembershipEvent G)) g := by
      refine ⟨[], (List.append_nil _).symm, hlevel, ?_, ?_, ?_⟩
      · rw [hlevel]
        rfl
      · rw [hlevel]
        rfl
      · rw [hlevel]
        rfl
    exact htold.before hg'
  | readOutcome request =>
    refine .of_silent ?_
    refine ends_current_bind (Ends.bind (read_ends request
      (q := fun answer g' => Untold g
        (g'.restoreMembershipReportMark g.reportedMembership answer.2)) ?_ ?_) ?_)
    · -- the empty report gives the mark an empty queue, which is the one it had
      intro hunstepped outcome groupId g' hg'
      have hcrossed : g.reportedMembership.crossed = [] := h hunstepped
      refine ⟨[], ?_, ?_⟩
      · rw [List.append_nil]
        have hproduced : g'.produced = g.produced := produced_of_ledger hg'
        exact hproduced
      · rw [MembershipReportMark.owing_nil]
        change { g.reportedMembership with crossed := [] } = _
        rw [← hcrossed]
    · exact fun answer g' htold => htold.restored rfl rfl
    · exact fun answer g' huntold => ends_update_bind (ends_pure huntold)
  | cancelRead | dropCompletedRead | drainPoisonedWaiters | stateMachineMut => exact .of_ledger rfl
  | applyRaftOutputs outputs =>
    exact .of_reported (rejectIfPoisoned_bind_ends h (pumped_ends outputs outputs rfl))
  | applyRecoveryOutputs outputs =>
    refine .of_reported (rejectIfPoisoned_bind_ends h.1 ?_)
    have hrestore : (g.releasing outputs).canRestore outputs := h.2
    refine Ends.bind ((snapshotRestoreOwedBy_ends hrestore).mono (fun _ _ h => h)
      fun _ _ h => h.elim) ?_
    rintro owed _ rfl
    cases owed with
    | none => exact pumped_ends outputs outputs rfl
    | some snapshot => exact pumped_ends outputs (.applySnapshot snapshot :: outputs) rfl
  | drainMembershipEvents =>
    exact ⟨[], (List.append_nil _).symm, rfl, (crossingsTold_owed g).trans (List.append_nil _).symm,
      effectiveAfter_owed g, committedAfter_owed g⟩
  | rebuild raft app appliedIndex =>
    exact ⟨[], (List.append_nil _).symm, (MembershipReportMark.owing_nil _).symm⟩

/-! ## The stream -/

section Stream

variable [DecidableEq G]

/-- Every call is orderly when it is made. -/
def Orderly (g : RaftGroup G A R.recording) : List (Call G A R) → Prop
  | [] => True
  | c :: cs => c.Orderly g ∧ Orderly (c.perform g).2 cs

/-- A caller that keeps the membership events of every report. -/
def hear (heard : List (MembershipEvent G) × RaftGroup G A R.recording) (c : Call G A R) :
    List (MembershipEvent G) × RaftGroup G A R.recording :=
  (heard.1 ++ (c.perform heard.2).1.getD [], (c.perform heard.2).2)

/-- What the caller heard so far and what the mark still owes: the crossings of the runtime are the
two together, and the memberships of the mark are the last ones heard. -/
structure Heard (effective committed : MembershipConfig)
    (heard : List (MembershipEvent G) × RaftGroup G A R.recording) : Prop where
  crossings : crossingsTold heard.1 ++ heard.2.reportedMembership.crossed = heard.2.produced
  effective : heard.1.foldl effectiveAfter effective = heard.2.reportedMembership.effective
  committed : heard.1.foldl committedAfter committed = heard.2.reportedMembership.committed

variable {effective committed : MembershipConfig}
  {heard : List (MembershipEvent G) × RaftGroup G A R.recording}

theorem Heard.step (h : Heard effective committed heard) {c : Call G A R}
    (hc : c.Orderly heard.2) : Heard effective committed (hear heard c) := by
  have haccount := Call.perform_accounts hc
  unfold AccountKept at haccount
  unfold hear
  split at haccount
  · rename_i events hevents
    obtain ⟨crossings, hproduced, hlevel, haccounts⟩ := haccount
    rw [hevents]
    refine ⟨?_, ?_, ?_⟩
    · dsimp only [Option.getD_some]
      rw [crossingsTold_append, haccounts.crossings_eq, hproduced, ← h.crossings, hlevel]
      simp [RaftGroup.level]
    · dsimp only [Option.getD_some]
      rw [List.foldl_append, h.effective, haccounts.effective_eq, hlevel]
      rfl
    · dsimp only [Option.getD_some]
      rw [List.foldl_append, h.committed, haccounts.committed_eq, hlevel]
      rfl
  · rename_i hevents
    obtain ⟨crossings, hproduced, hmark⟩ := haccount
    rw [hevents]
    refine ⟨?_, ?_, ?_⟩
    · dsimp only [Option.getD_none]
      rw [List.append_nil, hproduced, ← h.crossings, hmark]
      simp [MembershipReportMark.owing]
    · dsimp only [Option.getD_none]
      rw [List.append_nil, h.effective, hmark]
      rfl
    · dsimp only [Option.getD_none]
      rw [List.append_nil, h.committed, hmark]
      rfl

theorem Heard.run (cs : List (Call G A R)) :
    ∀ {heard : List (MembershipEvent G) × RaftGroup G A R.recording},
      Heard effective committed heard → Orderly heard.2 cs →
        Heard effective committed (cs.foldl hear heard) := by
  induction cs with
  | nil => exact fun h _ => h
  | cons c cs ih => exact fun h hcs => ih (h.step hcs.1) hcs.2

/-- A group over a runtime whose releases go on record. -/
def RaftGroup.listening (groupId : G) (nodeId : NodeId) (raft : R.State) (app : A.State)
    (appliedIndex : ℕ) : RaftGroup G A R.recording :=
  .withAppliedIndex groupId nodeId (⟨raft, []⟩ : Recorded R) app appliedIndex

theorem orderly_append {cs cs' : List (Call G A R)} (events : List (MembershipEvent G))
    (h : Orderly g (cs ++ cs')) : Orderly g cs ∧ Orderly (cs.foldl hear (events, g)).2 cs' := by
  induction cs generalizing g events with
  | nil => exact ⟨trivial, h⟩
  | cons c cs ih =>
    obtain ⟨hcs, hcs'⟩ := ih _ h.2
    exact ⟨⟨h.1, hcs⟩, hcs'⟩

theorem Heard.of_report (h : Heard effective committed heard) {c : Call G A R}
    (hc : c.Orderly heard.2) (hreport : (c.perform heard.2).1.isSome) :
    (hear heard c).1.foldl effectiveAfter effective =
        R.membership (hear heard c).2.raft.runtime ∧
      (hear heard c).1.foldl committedAfter committed =
        R.committedMembership (hear heard c).2.raft.runtime := by
  have haccount := Call.perform_accounts hc
  have hheard := h.step hc
  obtain ⟨events, hevents⟩ := Option.isSome_iff_exists.1 hreport
  unfold AccountKept at haccount
  rw [hevents] at haccount
  obtain ⟨-, -, hlevel, -⟩ := haccount
  have hlevel' : (hear heard c).2.reportedMembership = (hear heard c).2.level := hlevel
  refine ⟨hheard.effective.trans ?_, hheard.committed.trans ?_⟩
  · rw [hlevel']
    rfl
  · rw [hlevel']
    rfl

/-- Whatever is called, in whatever order and however it ends: the crossings heard and then drained
are the configurations the runtime committed, each once and in order, and after a call that reports
the last memberships heard are those of the runtime. -/
theorem membership_stream_lossless (groupId : G) (nodeId : NodeId) (raft : R.State)
    (app : A.State) (appliedIndex : ℕ) (cs : List (Call G A R))
    (h : Orderly (.listening groupId nodeId raft app appliedIndex) cs) :
    let start := ([], RaftGroup.listening groupId nodeId raft app appliedIndex)
    let heard := cs.foldl hear start
    crossingsTold (heard.1 ++ (drainMembershipEvents heard.2).1) = heard.2.produced ∧
      ∀ before c after, cs = before ++ c :: after →
        (c.perform (before.foldl hear start).2).1.isSome →
        let now := hear (before.foldl hear start) c
        now.1.foldl effectiveAfter (R.membership raft) = R.membership now.2.raft.runtime ∧
          now.1.foldl committedAfter (R.committedMembership raft) =
            R.committedMembership now.2.raft.runtime := by
  intro start heard
  have hstart : Heard (R.membership raft) (R.committedMembership raft) start := ⟨rfl, rfl, rfl⟩
  constructor
  · have hheard : Heard _ _ heard := hstart.run cs h
    rw [crossingsTold_append]
    refine Eq.trans ?_ hheard.crossings
    exact congrArg _ (crossingsTold_owed heard.2)
  · rintro before c after rfl hreport
    obtain ⟨hbefore, hafter⟩ := orderly_append [] h
    exact (hstart.run before hbefore).of_report hafter.1 hreport

end Stream

/-! ## A read that loses a crossing -/

/-- A state machine that applies nothing; its applied index can be unreadable for a while. -/
def unreliable : ReplicatedStateMachine where
  State := Bool
  Command := Unit
  CommandResult := Unit
  Query := Unit
  QueryResult := Unit
  Error := Unit
  snapshotSupport := .unsupported
  appliedIndex readable := if readable then .ok 0 else .error ()
  encodeCommand _ _ := .ok []
  decodeCommand _ _ := .ok ()
  applyBatch readable _ := (.ok [], readable)
  read _ _ _ := .ok ()
  installSnapshot readable _ := (.error .unsupported, readable)

/-- Voter 1, and node 7 learning. -/
def learning : MembershipSet :=
  { oneVoter with learners := [7], learners_sorted := by decide, disjoint := by decide }

/-- A runtime that grants every read and commits its learner at the first tick. -/
def reconfiguring : PersistedRaftRuntime where
  State := Bool
  Error := Unit
  leaderHint _ := some 1
  currentTerm _ := 1
  commitIndex committed := if committed then 1 else 0
  lastLogIndex _ := 1
  snapshotIndex _ := 0
  snapshot _ := none
  committedApplicationIndexThrough _ _ := 0
  membership _ := .stable learning
  committedMembership committed := .stable (if committed then learning else oneVoter)
  termAtIndex _ _ := some 1
  step committed input :=
    match input with
    | .tick =>
      (.ok (if committed then [] else
        [.configurationCommitted 1 1 (.stable oneVoter) (.stable 1 learning)]), true)
    | .readIndex readId => (.ok [.readIndexGranted readId 0], committed)
    | _ => (.ok [], committed)
  stepProposalBatch committed _ := (.ok [], committed)

/-- A group whose runtime changes its membership. -/
def reconfiguringGroup : RaftGroup ℕ unreliable reconfiguring.recording :=
  .listening 7 1 (false : Bool) (true : Bool) 0

/-- A read waits for index 5; the tick that commits the learner cannot read the applied index. -/
def interruptedCommit : List (Call ℕ unreliable reconfiguring) :=
  [.step (.readBarrier ⟨7, 1, some 5, []⟩), .stateMachineMut (false : Bool), .step .tick,
    .stateMachineMut (true : Bool)]

/-- The crossing is still owed after the tick that failed, and the next report tells it. -/
theorem membership_stream_lossless_interrupted :
    Orderly reconfiguringGroup interruptedCommit ∧
      crossingsTold ((interruptedCommit.foldl hear ([], reconfiguringGroup)).1 ++
        (drainMembershipEvents (interruptedCommit.foldl hear ([], reconfiguringGroup)).2).1) =
        [⟨1, 1, .stable oneVoter, .stable learning⟩] := by
  have horderly : Orderly reconfiguringGroup interruptedCommit :=
    ⟨trivial, trivial, trivial, trivial, trivial⟩
  have hproduced : (interruptedCommit.foldl hear ([], reconfiguringGroup)).2.produced =
      [⟨1, 1, .stable oneVoter, .stable learning⟩] := by decide +kernel
  refine ⟨horderly, Eq.trans ?_ hproduced⟩
  exact (membership_stream_lossless (G := ℕ) (A := unreliable) (R := reconfiguring) 7 1 false true 0
    interruptedCommit horderly).1

/-- A local read in between, in its outcome form, and the crossing is lost: it was released and is
never told. -/
theorem local_read_outcome_loses_crossing :
    let heard := (interruptedCommit ++ [Call.readOutcome (.localRead 7 () none)]).foldl hear
      ([], reconfiguringGroup)
    heard.2.fatalState = .healthy ∧
      heard.2.produced = [⟨1, 1, .stable oneVoter, .stable learning⟩] ∧
      crossingsTold (heard.1 ++ (drainMembershipEvents heard.2).1) = [] := by
  decide +kernel

end Rafter.App
