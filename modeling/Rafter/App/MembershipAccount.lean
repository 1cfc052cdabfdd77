import Rafter.App.Calls

/-!
# The account of membership reporting

A group tells its caller how the membership of its runtime moved (`membership.rs`,
`membership_mark.rs`): every configuration the commit index crossed, once and in order, and the two
memberships it ended at. A call can fail after the runtime has moved, so what is owed is kept in a
mark and told later.

Results:

* `applyOutputs_ends`: a pump tells what the mark owes and the crossings of its outputs, or owes
  them;
* `Told`, `Untold`: what a call does to the account between the runtime, the mark and its report;
* `Releases.pump`: a step of the runtime with the pump after it keeps the account.
-/

namespace Rafter.App

open Fallible

variable {G : Type} {A : ReplicatedStateMachine} {R : PersistedRaftRuntime}

/-! ## What the stream says -/

/-- The effective membership after an event. -/
def effectiveAfter (membership : MembershipConfig) : MembershipEvent G → MembershipConfig
  | .effectiveChanged _ _ _ changed => changed
  | _ => membership

/-- The committed membership after an event. -/
def committedAfter (membership : MembershipConfig) : MembershipEvent G → MembershipConfig
  | .applied _ _ _ _ crossed => crossed
  | .committedEndpoint _ _ _ endpoint => endpoint
  | _ => membership

/-- The crossings a list of events reports. -/
def crossingsTold (events : List (MembershipEvent G)) : List CommittedConfigurationCrossing :=
  events.filterMap appliedCrossing

theorem crossingsTold_append (events events' : List (MembershipEvent G)) :
    crossingsTold (events ++ events') = crossingsTold events ++ crossingsTold events' :=
  List.filterMap_append

theorem crossingsTold_crossed (groupId : G) (crossed : List CommittedConfigurationCrossing) :
    crossingsTold (crossed.map (·.event groupId)) = crossed := by
  unfold crossingsTold
  rw [List.filterMap_map]
  exact List.filterMap_some

/-- A refused membership request moves nothing. -/
def isRejection : MembershipEvent G → Bool
  | .rejected _ _ _ => true
  | _ => false

section Rejections

variable {events : List (MembershipEvent G)}

theorem crossingsTold_rejections (h : ∀ event ∈ events, isRejection event) :
    crossingsTold events = [] := by
  refine List.filterMap_eq_nil_iff.2 fun event hevent => ?_
  have := h event hevent
  cases event <;> first | rfl | cases this

theorem foldl_rejections {f : MembershipConfig → MembershipEvent G → MembershipConfig}
    (hf : ∀ membership event, isRejection event → f membership event = membership)
    (h : ∀ event ∈ events, isRejection event) (membership : MembershipConfig) :
    events.foldl f membership = membership := by
  induction events generalizing membership with
  | nil => rfl
  | cons event events ih =>
    rw [List.foldl_cons, ih fun e he => h e (List.mem_cons_of_mem _ he)]
    exact hf _ _ (h event (List.mem_cons_self ..))

end Rejections

/-! ## What is owed -/

section Owed

variable (g : RaftGroup G A R)

theorem crossingsTold_owed : crossingsTold g.owedMembershipEvents
    = g.reportedMembership.crossed := by
  unfold RaftGroup.owedMembershipEvents
  simp only [crossingsTold_append, crossingsTold_crossed]
  have hnone : ∀ {c : Prop} [Decidable c] (e : MembershipEvent G), appliedCrossing e = none →
      crossingsTold (if c then [] else [e]) = [] := by
    intro c _ e he
    split
    · rfl
    · simp [crossingsTold, he]
  rw [hnone _ rfl, hnone _ rfl, List.nil_append, List.append_nil]

theorem effectiveAfter_crossed (groupId : G) (crossed : List CommittedConfigurationCrossing)
    (membership : MembershipConfig) :
    (crossed.map (·.event groupId)).foldl effectiveAfter membership = membership := by
  induction crossed with
  | nil => rfl
  | cons crossing crossed ih => exact ih

theorem committedAfter_crossed (groupId : G) (crossed : List CommittedConfigurationCrossing)
    (membership : MembershipConfig) :
    (crossed.map (·.event groupId)).foldl committedAfter membership =
      crossed.foldl (fun _ crossing => crossing.membership) membership := by
  rw [List.foldl_map]
  rfl

theorem effectiveAfter_owed :
    g.owedMembershipEvents.foldl effectiveAfter g.reportedMembership.effective =
      R.membership g.raft := by
  unfold RaftGroup.owedMembershipEvents
  rw [List.foldl_append, List.foldl_append, effectiveAfter_crossed]
  have hend : ∀ {c : Prop} [Decidable c] (index term : ℕ) (m m' : MembershipConfig),
      (if c then [] else [MembershipEvent.committedEndpoint g.groupId index term m]).foldl
        effectiveAfter m' = m' := by
    intro c _ index term m m'
    split <;> rfl
  rw [hend]
  split
  · rename_i heq
    exact heq.symm
  · rfl

theorem committedAfter_owed :
    g.owedMembershipEvents.foldl committedAfter g.reportedMembership.committed =
      R.committedMembership g.raft := by
  unfold RaftGroup.owedMembershipEvents
  rw [List.foldl_append, List.foldl_append]
  have hstart : ∀ {c : Prop} [Decidable c] (index term : ℕ) (m m' : MembershipConfig),
      (if c then [] else [MembershipEvent.effectiveChanged g.groupId index term m]).foldl
        committedAfter m' = m' := by
    intro c _ index term m m'
    split <;> rfl
  rw [hstart, committedAfter_crossed]
  split
  · rename_i heq
    exact heq.symm
  · rfl

end Owed

variable {report : ReportOf G A} {error : GroupError A.Error R.Error}

/-! ## What the pump leaves alone

Between the queueing of the crossings and the report nothing touches the runtime or the mark. -/

/-- The part of a group that membership reporting reads. -/
def RaftGroup.ledger (g : RaftGroup G A R) : R.State × MembershipReportMark :=
  (g.raft, g.reportedMembership)

theorem rejectIfPoisoned_leaves : (rejectIfPoisoned : GroupM G A R Unit).Leaves
    RaftGroup.ledger := by
  refine leaves_current.bind fun g => ?_
  split
  · exact leaves_pure
  · exact leaves_fail

variable {α : Type} {reason : String} {cause : Option A.Error}
variable {f : RaftGroup G A R → ReportOf G A × RaftGroup G A R}

theorem poisonWith_leaves :
    (poisonWith reason cause error : GroupM G A R α).Leaves RaftGroup.ledger := by
  refine Leaves.bind ?_ fun _ => leaves_fail
  exact leaves_update fun _ => rfl

theorem appAppliedIndex_leaves : (appAppliedIndex : GroupM G A R ℕ).Leaves RaftGroup.ledger := by
  refine leaves_current.bind fun g => ?_
  split
  · exact leaves_pure
  · exact poisonWith_leaves

theorem verifyAppAppliedIndexAtLeast_leaves (required : ℕ) :
    (verifyAppAppliedIndexAtLeast required : GroupM G A R ℕ).Leaves RaftGroup.ledger := by
  refine appAppliedIndex_leaves.bind fun actual => ?_
  split
  · exact poisonWith_leaves
  · exact leaves_pure

theorem validateApplyFloor_leaves (entries : List (ApplyEntry A.Command)) :
    (validateApplyFloor entries : GroupM G A R Unit).Leaves RaftGroup.ledger := by
  refine appAppliedIndex_leaves.bind fun app => leaves_current.bind fun g => ?_
  dsimp only
  split
  · exact poisonWith_leaves
  · refine Leaves.bind ?_ fun _ => Leaves.bind ?_ fun _ => leaves_update fun _ => rfl
    · refine leaves_current.bind fun g => ?_
      dsimp only
      split
      · exact leaves_pure
      · split
        · exact leaves_pure
        · exact leaves_fail
    · refine leaves_current.bind fun g => ?_
      split
      · exact poisonWith_leaves
      · exact leaves_pure

theorem settleResult_ledger (s : ReportOf G A × RaftGroup G A R)
    (result : ApplyResult A.CommandResult) :
    (settleResult s result).2.ledger = s.2.ledger ∧
      (settleResult s result).1.membershipEvents = s.1.membershipEvents := by
  unfold settleResult
  dsimp only
  split <;> exact ⟨rfl, rfl⟩

theorem settleResults_ledger (results : List (ApplyResult A.CommandResult)) :
    ∀ s : ReportOf G A × RaftGroup G A R,
      (results.foldl settleResult s).2.ledger = s.2.ledger ∧
        (results.foldl settleResult s).1.membershipEvents = s.1.membershipEvents := by
  induction results with
  | nil => exact fun _ => ⟨rfl, rfl⟩
  | cons result results ih =>
    intro s
    obtain ⟨hledger, hevents⟩ := ih (settleResult s result)
    obtain ⟨hledger', hevents'⟩ := settleResult_ledger s result
    exact ⟨hledger.trans hledger', hevents.trans hevents'⟩

theorem applyBatch_leaves (entries : List (ApplyEntry A.Command)) :
    (applyBatch entries : GroupM G A R _).Leaves RaftGroup.ledger := by
  refine Leaves.bind (leaves_updateWith fun _ => rfl) fun results => ?_
  split
  · exact leaves_pure
  · exact poisonWith_leaves

theorem checkResults_leaves (entries : List (ApplyEntry A.Command))
    (results : List (ApplyResult A.CommandResult)) :
    (checkResults entries results : GroupM G A R Unit).Leaves RaftGroup.ledger := by
  unfold checkResults
  dsimp only
  split
  · exact poisonWith_leaves
  · split
    · exact poisonWith_leaves
    · exact leaves_pure

/-- The pump's steps on a report: the ledger is as it was, the membership events of the report
too. -/
def Quiet (x : GroupM G A R (ReportOf G A)) (report : ReportOf G A) : Prop :=
  ∀ g, Ends x g
    (fun report' g' => g'.ledger = g.ledger ∧ report'.membershipEvents = report.membershipEvents)
    (fun _ g' => g'.ledger = g.ledger)

theorem quiet_pure (report : ReportOf G A) : Quiet (pure report : GroupM G A R _) report :=
  fun _ => ends_pure ⟨rfl, rfl⟩

theorem Quiet.of_leaves {x : GroupM G A R α} {f : α → GroupM G A R (ReportOf G A)}
    (hx : x.Leaves RaftGroup.ledger) (hf : ∀ a, Quiet (f a) report) : Quiet (x >>= f) report := by
  intro g
  refine (hx.ends g).bind fun a g' hg' => (hf a g').mono ?_ ?_
  · rintro report' g'' ⟨hledger, hevents⟩
    exact ⟨hledger.trans hg', hevents⟩
  · intro _ g'' hledger
    exact hledger.trans hg'

theorem quiet_fail : Quiet (fail error : GroupM G A R _) report :=
  fun _ => ends_fail rfl

theorem quiet_poisonWith :
    Quiet (poisonWith reason cause error : GroupM G A R _) report :=
  fun _ => ends_of_error rfl rfl

theorem quiet_updateWith
    (h : ∀ g, (f g).2.ledger = g.ledger ∧ (f g).1.membershipEvents = report.membershipEvents) :
    Quiet (updateWith f : GroupM G A R _) report :=
  fun g => ends_updateWith (h g)

theorem ledger_of_bare {g g' : RaftGroup G A R} (h : g'.bare = g.bare) : g'.ledger = g.ledger := by
  show g'.bare.ledger = g.bare.ledger
  rw [h]

theorem Books.quiet (h : ∀ g, Books (report, g) (f g)) :
    Quiet (updateWith f : GroupM G A R _) report :=
  quiet_updateWith fun g => ⟨ledger_of_bare (h g).1, (h g).2⟩

theorem applyEntries_quiet (entries : List (ApplyEntry A.Command)) (report : ReportOf G A) :
    Quiet (applyEntries entries report : GroupM G A R _) report := by
  unfold applyEntries
  split
  · exact quiet_pure report
  · refine Quiet.of_leaves (validateApplyFloor_leaves entries) fun _ =>
      Quiet.of_leaves (applyBatch_leaves entries) fun results =>
      Quiet.of_leaves (checkResults_leaves entries results) fun _ => ?_
    split
    · exact quiet_pure report
    · refine Quiet.of_leaves (verifyAppAppliedIndexAtLeast_leaves _) fun _ => ?_
      exact quiet_updateWith fun g => settleResults_ledger results (report, g)

theorem applySnapshotOutput_quiet (snapshot : RaftSnapshot) (report : ReportOf G A) :
    Quiet (applySnapshotOutput snapshot report : GroupM G A R _) report := by
  unfold applySnapshotOutput
  refine Quiet.of_leaves ?_ fun _ => ?_
  · unfold validateSnapshotOutput
    split
    · exact poisonWith_leaves
    · split
      · exact poisonWith_leaves
      · exact leaves_pure
  · dsimp only
    split
    · exact quiet_poisonWith
    · refine Quiet.of_leaves ?_ fun _ =>
        Quiet.of_leaves (verifyAppAppliedIndexAtLeast_leaves _) fun _ => ?_
      · refine Leaves.bind (leaves_updateWith fun _ => rfl) fun installed => ?_
        split
        · exact leaves_pure
        · exact poisonWith_leaves
        · exact poisonWith_leaves
      · exact quiet_updateWith fun _ => ⟨rfl, rfl⟩

theorem completeReadyReads_quiet (report : ReportOf G A) :
    Quiet (completeReadyReads report : GroupM G A R _) report := by
  refine Quiet.of_leaves leaves_current fun g => ?_
  split
  · exact quiet_pure report
  · split
    · exact quiet_fail
    · exact Books.quiet fun g' => completeReads_books _ _ (report, g')

/-! ## The walk over the outputs -/

/-- A report in which no membership moved yet. -/
def Unmoved (report : ReportOf G A) : Prop :=
  ∀ event ∈ report.membershipEvents, isRejection event

/-- A quiet step of the walk on its report. -/
theorem Quiet.walk {x : GroupM G A R (ReportOf G A)} (h : Quiet x report) (hreport : Unmoved report)
    (entries : List (ApplyEntry A.Command)) (g : RaftGroup G A R) :
    Ends (do let report ← x; pure (entries, report)) g
      (fun s' g' => g'.ledger = g.ledger ∧ Unmoved s'.2) (fun _ g' => g'.ledger = g.ledger) := by
  refine (h g).bind fun report' g' hg' => ends_pure ⟨hg'.1, ?_⟩
  unfold Unmoved
  rw [hg'.2]
  exact hreport

theorem recordRaftOutput_ends (membershipRequest : Bool)
    (s : List (ApplyEntry A.Command) × ReportOf G A) (output : Output) (g : RaftGroup G A R)
    (h : Unmoved s.2) :
    Ends (recordRaftOutput membershipRequest s output) g
      (fun s' g' => g'.ledger = g.ledger ∧ Unmoved s'.2) (fun _ g' => g'.ledger = g.ledger) := by
  refine ends_current_bind ?_
  cases output with
  | send | leadershipTransferRejected | stageSnapshotChunk | sendSnapshotChunk
  | configurationCommitted => exact ends_pure ⟨rfl, h⟩
  | localProposalAppended proposalId index term =>
    exact (Books.quiet (recordAppendedProposal_books proposalId index term s.2)).walk h _ _
  | localProposalDropped proposalId index term reason =>
    exact (Books.quiet (recordEndedProposal_books proposalId _ s.2)).walk h _ _
  | rejectProposal proposalId reason =>
    cases proposalId with
    | some id => exact (Books.quiet (recordEndedProposal_books id _ s.2)).walk h _ _
    | none =>
      dsimp only
      split
      · refine ends_pure ⟨rfl, fun event hevent => ?_⟩
        rcases List.mem_append.1 hevent with hold | hnew
        · exact h event hold
        · rw [List.mem_singleton.1 hnew]
          rfl
      · exact ends_pure ⟨rfl, h⟩
  | apply index term payload localProposalId =>
    have hdecode : (decodeApplyOutput index term payload localProposalId :
        GroupM G A R _).Leaves RaftGroup.ledger := by
      refine leaves_current.bind fun g => ?_
      split
      · exact leaves_pure
      · exact poisonWith_leaves
    exact (hdecode.ends _).bind fun entry g' hg' => ends_pure ⟨hg', h⟩
  | readIndexGranted readId readIndex =>
    exact (leaves_update fun g => ledger_of_bare
      (bare_recordGrantedReadIndex g readId readIndex)).ends _
      |>.bind fun _ g' hg' => ends_pure ⟨hg', h⟩
  | readIndexRejected readId | readIndexCanceled readId =>
    exact (Books.quiet (recordEndedRead_books readId _ s.2)).walk h _ _
  | applySnapshot snapshot => exact (applySnapshotOutput_quiet snapshot s.2).walk h _ _

/-! ## One pump -/

/-- The mark of a group that has told everything. -/
def RaftGroup.level (g : RaftGroup G A R) : MembershipReportMark :=
  ⟨R.membership g.raft, R.committedMembership g.raft, []⟩

/-- The mark with further crossings owed. -/
def MembershipReportMark.owing (mark : MembershipReportMark)
    (crossings : List CommittedConfigurationCrossing) : MembershipReportMark :=
  { mark with crossed := mark.crossed ++ crossings }

/-- The events tell everything owed on `mark`, with further crossings, up to the memberships of
`g`. -/
structure Accounts (mark : MembershipReportMark) (crossings : List CommittedConfigurationCrossing)
    (events : List (MembershipEvent G)) (g : RaftGroup G A R) : Prop where
  crossings_eq : crossingsTold events = mark.crossed ++ crossings
  effective_eq : events.foldl effectiveAfter mark.effective = R.membership g.raft
  committed_eq : events.foldl committedAfter mark.committed = R.committedMembership g.raft

theorem applyOutputs_ends (outputs : List Output) (membershipRequest : Bool) (g : RaftGroup G A R) :
    Ends (applyOutputs outputs membershipRequest) g
      (fun report g' => g'.raft = g.raft ∧ g'.reportedMembership = g'.level ∧
        Accounts g.reportedMembership (outputs.filterMap committedCrossing)
          report.membershipEvents g')
      (fun _ g' => g'.raft = g.raft ∧
        g'.reportedMembership = g.reportedMembership.owing
          (outputs.filterMap committedCrossing)) := by
  let queued := g.queueCommittedConfigurations outputs
  have herror : ∀ g' : RaftGroup G A R, g'.ledger = queued.ledger → g'.raft = g.raft ∧
      g'.reportedMembership = g.reportedMembership.owing (outputs.filterMap committedCrossing) :=
    fun g' h => ⟨congrArg Prod.fst h, congrArg Prod.snd h⟩
  refine ends_current_bind (ends_update_bind ?_)
  have hwalk := Ends.foldlM (e := fun _ g' => g'.ledger = queued.ledger)
    (fun s g' => g'.ledger = queued.ledger ∧ Unmoved s.2)
    (fun s output g' hg' => (recordRaftOutput_ends membershipRequest s output g' hg'.2).mono
      (fun _ _ h => ⟨h.1.trans hg'.1, h.2⟩) (fun _ _ h => h.trans hg'.1))
    outputs (b := (([], { groupId := g.groupId }) : List (ApplyEntry A.Command) × ReportOf G A))
    (s := queued) ⟨rfl, fun _ h => by cases h⟩
  refine Ends.bind (hwalk.mono (fun _ _ h => h) fun _ g' h => herror g' h) ?_
  intro walked g₁ h₁
  refine Ends.bind (((applyEntries_quiet walked.1 walked.2) g₁).mono (fun _ _ h => h)
    fun _ g' h => herror g' (h.trans h₁.1)) ?_
  intro report g₂ h₂
  refine Ends.bind ((completeReadyReads_quiet report g₂).mono (fun _ _ h => h)
    fun _ g' h => herror g' (h.trans (h₂.1.trans h₁.1))) ?_
  intro report' g₃ h₃
  have hledger : g₃.ledger = queued.ledger := h₃.1.trans (h₂.1.trans h₁.1)
  have hunmoved : ∀ event ∈ report'.membershipEvents, isRejection event := by
    rw [h₃.2, h₂.2]
    exact h₁.2
  have hraft : g₃.raft = g.raft := congrArg Prod.fst hledger
  have hmark : g₃.reportedMembership =
    g.reportedMembership.owing (outputs.filterMap committedCrossing) := congrArg Prod.snd hledger
  refine ends_updateWith ⟨hraft, rfl, ?_, ?_, ?_⟩
  · change crossingsTold (report'.membershipEvents ++ g₃.owedMembershipEvents) = _
    rw [crossingsTold_append, crossingsTold_rejections hunmoved, crossingsTold_owed, hmark]
    rfl
  · change (report'.membershipEvents ++ g₃.owedMembershipEvents).foldl _ _ = _
    rw [List.foldl_append, foldl_rejections (by rintro _ ⟨⟩ ⟨⟩; rfl) hunmoved]
    have h := effectiveAfter_owed g₃
    rwa [hmark] at h
  · change (report'.membershipEvents ++ g₃.owedMembershipEvents).foldl _ _ = _
    rw [List.foldl_append, foldl_rejections (by rintro _ ⟨⟩ ⟨⟩; rfl) hunmoved]
    have h := committedAfter_owed g₃
    rwa [hmark] at h

/-! ## A runtime whose releases are on record -/

/-- A runtime and the outputs it has released. -/
structure Recorded (R : PersistedRaftRuntime) where
  runtime : R.State
  released : List Output := []

/-- The outputs of a step go on record when it releases them. -/
def Recorded.step (s : Recorded R) (stepped : Except R.Error (List Output) × R.State) :
    Except R.Error (List Output) × Recorded R :=
  match stepped with
  | (.ok outputs, runtime) => (.ok outputs, ⟨runtime, s.released ++ outputs⟩)
  | (.error error, runtime) => (.error error, ⟨runtime, s.released⟩)

/-- The runtime `R`, with its releases on record. -/
def PersistedRaftRuntime.recording (R : PersistedRaftRuntime) : PersistedRaftRuntime where
  State := Recorded R
  Error := R.Error
  leaderHint s := R.leaderHint s.runtime
  currentTerm s := R.currentTerm s.runtime
  commitIndex s := R.commitIndex s.runtime
  lastLogIndex s := R.lastLogIndex s.runtime
  snapshotIndex s := R.snapshotIndex s.runtime
  snapshot s := R.snapshot s.runtime
  committedApplicationIndexThrough s := R.committedApplicationIndexThrough s.runtime
  membership s := R.membership s.runtime
  committedMembership s := R.committedMembership s.runtime
  termAtIndex s := R.termAtIndex s.runtime
  step s input := s.step (R.step s.runtime input)
  stepProposalBatch s proposals := s.step (R.stepProposalBatch s.runtime proposals)

theorem Recorded.step_ends (step : R.State → Except R.Error (List Output) × R.State)
    (s : Recorded R) :
    Ends (fun s : Recorded R => s.step (step s.runtime)) s
      (fun outputs s' => s'.released = s.released ++ outputs)
      (fun _ s' => s'.released = s.released) := by
  rcases h : step s.runtime with ⟨error | outputs, runtime⟩
  · have hstep : s.step (step s.runtime) = (.error error, ⟨runtime, s.released⟩) := by
      rw [h]
      rfl
    exact ends_of_error hstep rfl
  · have hstep : s.step (step s.runtime) = (.ok outputs, ⟨runtime, s.released ++ outputs⟩) := by
      rw [h]
      rfl
    exact ends_of_ok hstep rfl

/-- The crossings the runtime has released. -/
def RaftGroup.produced (g : RaftGroup G A R.recording) : List CommittedConfigurationCrossing :=
  g.raft.released.filterMap committedCrossing

/-! ## The account of a call -/

/-- A call that reported: everything owed and everything it made the runtime cross is told. -/
def Told (g : RaftGroup G A R.recording) (events : List (MembershipEvent G))
    (g' : RaftGroup G A R.recording) : Prop :=
  ∃ crossings, g'.produced = g.produced ++ crossings ∧ g'.reportedMembership = g'.level ∧
    Accounts g.reportedMembership crossings events g'

/-- A call that did not report: the mark is where it was and owes what the runtime crossed. -/
def Untold (g g' : RaftGroup G A R.recording) : Prop :=
  ∃ crossings, g'.produced = g.produced ++ crossings ∧
    g'.reportedMembership = g.reportedMembership.owing crossings

section Account

variable {g g₁ g' g'' : RaftGroup G A R.recording} {events : List (MembershipEvent G)}

theorem MembershipReportMark.owing_nil (mark : MembershipReportMark) : mark.owing [] = mark := by
  unfold MembershipReportMark.owing
  rw [List.append_nil]

theorem produced_of_ledger (h : g'.ledger = g.ledger) : g'.produced = g.produced := by
  have hraft : g'.raft = g.raft := congrArg Prod.fst h
  unfold RaftGroup.produced
  rw [hraft]

theorem Untold.of_ledger (h : g'.ledger = g.ledger) : Untold g g' := by
  refine ⟨[], ?_, ?_⟩
  · rw [produced_of_ledger h, List.append_nil]
  · rw [MembershipReportMark.owing_nil]
    exact congrArg Prod.snd h

theorem Untold.after (h₁ : g₁.ledger = g.ledger) (h : Untold g₁ g') : Untold g g' := by
  obtain ⟨crossings, hproduced, hmark⟩ := h
  have hmark₁ : g₁.reportedMembership = g.reportedMembership := congrArg Prod.snd h₁
  rw [produced_of_ledger h₁] at hproduced
  rw [hmark₁] at hmark
  exact ⟨crossings, hproduced, hmark⟩

theorem Told.after (h₁ : g₁.ledger = g.ledger) (h : Told g₁ events g') : Told g events g' := by
  obtain ⟨crossings, hproduced, hmark, haccounts⟩ := h
  have hmark₁ : g₁.reportedMembership = g.reportedMembership := congrArg Prod.snd h₁
  rw [produced_of_ledger h₁] at hproduced
  rw [hmark₁] at haccounts
  exact ⟨crossings, hproduced, hmark, haccounts⟩

theorem Told.before (h : Told g events g') (h' : g''.ledger = g'.ledger) : Told g events g'' := by
  obtain ⟨crossings, hproduced, hmark, haccounts⟩ := h
  have hraft : g''.raft = g'.raft := congrArg Prod.fst h'
  have hmark' : g''.reportedMembership = g'.reportedMembership := congrArg Prod.snd h'
  refine ⟨crossings, ?_, ?_, ?_, ?_, ?_⟩
  · rw [produced_of_ledger h', hproduced]
  · unfold RaftGroup.level at hmark ⊢
    rw [hmark', hmark, hraft]
  · exact haccounts.crossings_eq
  · rw [hraft]
    exact haccounts.effective_eq
  · rw [hraft]
    exact haccounts.committed_eq

/-- The report was dropped: restoring the mark owes its crossings again. -/
theorem Told.restored (h : Told g events g') (h' : g''.produced = g'.produced)
    (hmark : g''.reportedMembership =
      { g.reportedMembership with crossed := crossingsTold events }) : Untold g g'' := by
  obtain ⟨crossings, hproduced, -, haccounts⟩ := h
  refine ⟨crossings, h'.trans hproduced, ?_⟩
  rw [hmark, haccounts.crossings_eq]
  rfl

end Account

/-- The computation reports what it returns, and owes it when it fails. -/
def Reports {α : Type} (events : α → List (MembershipEvent G)) (x : GroupM G A R.recording α) :
    Prop :=
  ∀ g, Ends x g (fun a g' => Told g (events a) g') (fun _ g' => Untold g g')

section Reports

variable {α β : Type} {events : α → List (MembershipEvent G)}

theorem Reports.of_leaves {x : GroupM G A R.recording β} {f : β → GroupM G A R.recording α}
    (hx : x.Leaves RaftGroup.ledger) (hf : ∀ b, Reports events (f b)) :
    Reports events (x >>= f) := by
  intro g
  refine Ends.bind ((hx.ends g).mono (fun _ _ h => h) fun _ _ h => Untold.of_ledger h) ?_
  intro b g₁ h₁
  exact (hf b g₁).mono (fun _ _ h => h.after h₁) fun _ _ h => h.after h₁

/-- What follows a report without touching the runtime, the mark or the membership events. -/
theorem Reports.andThen {x : GroupM G A R.recording α} {f : α → GroupM G A R.recording β}
    {events' : β → List (MembershipEvent G)} (hx : Reports events x)
    (hf : ∀ a g, Ends (f a) g (fun b g' => g'.ledger = g.ledger ∧ events' b = events a)
      fun _ _ => False) : Reports events' (x >>= f) := by
  intro g
  refine (hx g).bind fun a g₁ h₁ => ?_
  refine (hf a g₁).mono ?_ fun _ _ h => h.elim
  rintro b g' ⟨hledger, hevents⟩
  rw [hevents]
  exact h₁.before hledger

end Reports

/-- The computation makes the runtime release the outputs it returns. -/
def Releases (x : GroupM G A R.recording (List Output)) : Prop :=
  ∀ g, Ends x g
    (fun outputs g' => g'.raft.released = g.raft.released ++ outputs ∧
      g'.reportedMembership = g.reportedMembership)
    (fun _ g' => Untold g g')

theorem Releases.of_leaves {α : Type} {x : GroupM G A R.recording α}
    {f : α → GroupM G A R.recording (List Output)} (hx : x.Leaves RaftGroup.ledger)
    (hf : ∀ a, Releases (f a)) : Releases (x >>= f) := by
  intro g
  refine Ends.bind ((hx.ends g).mono (fun _ _ h => h) fun _ _ h => Untold.of_ledger h) ?_
  intro a g₁ h₁
  obtain ⟨hraft, hmark⟩ := Prod.ext_iff.1 h₁
  refine (hf a g₁).mono ?_ fun _ _ h => h.after h₁
  rintro outputs g' ⟨hreleased, hmark'⟩
  refine ⟨hreleased.trans ?_, hmark'.trans hmark⟩
  exact congrArg (fun s : Recorded R => s.released ++ outputs) hraft

theorem stepRuntimeOr_releases {undo : RaftGroup G A R.recording → RaftGroup G A R.recording}
    (step : R.State → Except R.Error (List Output) × R.State)
    (hundo : ∀ g, (undo g).ledger = g.ledger) :
    Releases (stepRuntimeOr undo fun s : Recorded R => s.step (step s.runtime) :
      GroupM G A R.recording _) := by
  intro g
  refine stepRuntimeOr_ends ((Recorded.step_ends step g.raft).mono ?_ ?_)
  · exact fun outputs s' hs' => ⟨hs', rfl⟩
  · intro error s' hs'
    obtain ⟨hraft, hmark⟩ := Prod.ext_iff.1 (hundo { g with raft := s' })
    refine ⟨[], ?_, hmark.trans (MembershipReportMark.owing_nil _).symm⟩
    unfold RaftGroup.produced
    rw [List.append_nil, ← hs']
    exact congrArg (fun s => s.released.filterMap committedCrossing) hraft

/-- Pumping what the runtime released. -/
theorem Releases.pump {x : GroupM G A R.recording (List Output)} (hx : Releases x)
    (membershipRequest : Bool) :
    Reports GroupStepReport.membershipEvents
      (x >>= fun outputs => applyOutputs outputs membershipRequest) := by
  intro g
  refine (hx g).bind fun outputs g₁ hg₁ => ?_
  have hproduced : g₁.produced = g.produced ++ outputs.filterMap committedCrossing := by
    unfold RaftGroup.produced
    rw [hg₁.1, List.filterMap_append]
  refine (applyOutputs_ends outputs membershipRequest g₁).mono ?_ ?_
  · rintro report g' ⟨hraft, hlevel, haccounts⟩
    rw [hg₁.2] at haccounts
    refine ⟨_, ?_, hlevel, haccounts⟩
    rw [← hproduced]
    exact congrArg (fun s => s.released.filterMap committedCrossing) hraft
  · rintro error g' ⟨hraft, hmark⟩
    rw [hg₁.2] at hmark
    refine ⟨_, ?_, hmark⟩
    rw [← hproduced]
    exact congrArg (fun s => s.released.filterMap committedCrossing) hraft

end Rafter.App
