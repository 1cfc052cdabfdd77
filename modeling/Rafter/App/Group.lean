import Rafter.App.Types
import Rafter.Fallible
import Rafter.Table

/-!
# The application group

`RaftGroup` of `crates/rafter-app/src/group`: a persisted runtime and a replicated state machine
under one owner. This module is its state (`state.rs`, `read_state.rs`, `membership_mark.rs`), its
poisoning (`poison.rs`) and the path the runtime's outputs take (`output.rs`, `apply.rs`,
`snapshot.rs`, `recovery.rs`, `read_barrier.rs`, `membership.rs`). A method that takes the group by
mutable reference is a computation over it that keeps its writes when it fails.
-/

namespace Rafter.App

open Fallible

/-! ## State -/

/-- `GrantedReadIndex`. -/
structure GrantedReadIndex where
  readIndex : ℕ
  applicationFloor : ℕ
deriving DecidableEq

/-- `PendingRead`. -/
structure PendingRead where
  minAppliedIndex : Option ℕ
  granted : Option GrantedReadIndex
deriving DecidableEq

/-- `PendingQueryRead`. -/
structure PendingQueryRead where
  minAppliedIndex : Option ℕ
  context : Payload
deriving DecidableEq

/-- `CompletedQueryRead`. -/
structure CompletedQueryRead (G : Type) where
  proof : ReadProof G
  minAppliedIndex : Option ℕ
  context : Payload
deriving DecidableEq

/-- `GroupFatalState`. -/
inductive GroupFatalState where
  | healthy
  | poisoned (reason : String)
deriving DecidableEq

/-- `PoisonedWaiters`. -/
structure PoisonedWaiters where
  proposals : List (LocalProposalId × Option ClientRequestId) := []
  reads : List ReadId := []
deriving DecidableEq

/-- A configuration entry the commit index crossed and no report has named yet. -/
structure CommittedConfigurationCrossing where
  index : ℕ
  term : ℕ
  previous : MembershipConfig
  membership : MembershipConfig
deriving DecidableEq

/-- What membership reporting is owed against (`MembershipReportMark`). -/
structure MembershipReportMark where
  effective : MembershipConfig
  committed : MembershipConfig
  crossed : List CommittedConfigurationCrossing := []
deriving DecidableEq

/-- `RaftGroup`: a runtime, a state machine and the requests in flight. -/
structure RaftGroup (G : Type) (A : ReplicatedStateMachine) (R : PersistedRaftRuntime) where
  groupId : G
  nodeId : NodeId
  raft : R.State
  app : A.State
  pendingProposals : Table LocalProposalId (Option ClientRequestId) := []
  lastSeenLocalProposalId : Option LocalProposalId := none
  pendingReads : Table ReadId PendingRead := []
  pendingQueryReads : Table ReadId PendingQueryRead := []
  completedQueryReads : Table ReadId (CompletedQueryRead G) := []
  lastSeenReadId : Option ReadId := none
  lastAppliedIndex : ℕ := 0
  fatalState : GroupFatalState := .healthy
  poisonCause : Option A.Error := none
  poisonedWaiters : PoisonedWaiters := {}
  reportedMembership : MembershipReportMark

/-- A method of a group. -/
abbrev GroupM (G : Type) (A : ReplicatedStateMachine) (R : PersistedRaftRuntime) (α : Type) :=
  Fallible (RaftGroup G A R) (GroupError A.Error R.Error) α

/-- The report of one call of a group. -/
abbrev ReportOf (G : Type) (A : ReplicatedStateMachine) := GroupStepReport G A.CommandResult

variable {G : Type} {A : ReplicatedStateMachine} {R : PersistedRaftRuntime}

/-- `with_applied_index`: the memberships of the runtime are where reporting starts. -/
def RaftGroup.withAppliedIndex (groupId : G) (nodeId : NodeId) (raft : R.State) (app : A.State)
    (appliedIndex : ℕ) : RaftGroup G A R where
  groupId := groupId
  nodeId := nodeId
  raft := raft
  app := app
  lastAppliedIndex := appliedIndex
  reportedMembership := ⟨R.membership raft, R.committedMembership raft, []⟩

/-! ## Poisoning -/

/-- The read IDs of the three read tables, each once and in order. -/
def RaftGroup.readIds (g : RaftGroup G A R) : List ReadId :=
  (g.pendingReads.keys ∪ g.pendingQueryReads.keys ∪ g.completedQueryReads.keys).insertionSort
    (· ≤ ·)

/-- `RaftGroup::enter_poisoned`. -/
def RaftGroup.enterPoisoned (g : RaftGroup G A R) (reason : String) (cause : Option A.Error) :
    RaftGroup G A R :=
  { g with
    fatalState := .poisoned reason
    poisonCause := cause
    poisonedWaiters :=
      { proposals := g.poisonedWaiters.proposals ++ g.pendingProposals
        reads := g.poisonedWaiters.reads ++ g.readIds }
    pendingProposals := []
    pendingReads := []
    pendingQueryReads := []
    completedQueryReads := [] }

/-- `RaftGroup::reject_if_poisoned`. -/
def rejectIfPoisoned : GroupM G A R Unit := do
  let g ← current
  match g.fatalState with
  | .healthy => pure ()
  | .poisoned reason => fail (.poisoned reason g.poisonCause)

theorem rejectIfPoisoned_ends (g : RaftGroup G A R) :
    Ends rejectIfPoisoned g (fun _ g' => g' = g ∧ g.fatalState = .healthy)
      (fun _ g' => g' = g ∧ g.fatalState ≠ .healthy) := by
  refine ends_current_bind ?_
  split
  · rename_i h
    exact ends_pure ⟨rfl, h⟩
  · rename_i reason h
    exact ends_fail ⟨rfl, by rw [h]; exact GroupFatalState.noConfusion⟩

/-- Poison the group and answer with an error. -/
def poisonWith {α : Type} (reason : String) (cause : Option A.Error)
    (error : GroupError A.Error R.Error) : GroupM G A R α := do
  update (·.enterPoisoned reason cause)
  fail error

/-- `RaftGroup::poison_with_state_machine_error`. -/
def poisonWithStateMachineError {α : Type} (operation : StateMachineOperation) (source : A.Error) :
    GroupM G A R α :=
  poisonWith (operation.name ++ " failed") (some source) (.stateMachine operation source)

/-- `RaftGroup::poison_with_malformed_snapshot`. -/
def poisonWithMalformedSnapshot {α : Type} (reason : String) : GroupM G A R α :=
  poisonWith ("malformed snapshot output: " ++ reason) none (.malformedSnapshot reason)

/-! ## Applying committed entries -/

/-- `RaftGroup::app_applied_index`. -/
def appAppliedIndex : GroupM G A R ℕ := do
  let g ← current
  match A.appliedIndex g.app with
  | .ok index => pure index
  | .error source => poisonWithStateMachineError .appliedIndex source

theorem appAppliedIndex_ends (g : RaftGroup G A R) :
    Ends appAppliedIndex g (fun app g' => g' = g ∧ A.appliedIndex g.app = .ok app)
      (fun _ g' => ∃ source, A.appliedIndex g.app = .error source ∧
        g' = g.enterPoisoned "AppliedIndex failed" (some source)) := by
  refine ends_current_bind ?_
  split
  · rename_i h
    exact ends_pure ⟨rfl, h⟩
  · rename_i source h
    exact ends_of_error rfl ⟨source, h, rfl⟩

/-- `RaftGroup::decode_apply_output`. -/
def decodeApplyOutput (index term : ℕ) (payload : Payload)
    (localProposalId : Option LocalProposalId) : GroupM G A R (ApplyEntry A.Command) := do
  let g ← current
  match A.decodeCommand g.app payload with
  | .ok command => pure ⟨index, term, command, localProposalId⟩
  | .error source => poisonWithStateMachineError .decodeCommand source

/-- `RaftGroup::verify_app_applied_index_at_least`. -/
def verifyAppAppliedIndexAtLeast (required : ℕ) : GroupM G A R ℕ := do
  let actual ← appAppliedIndex
  if actual < required then
    poisonWith s!"state machine reported applied index {actual} below required {required}" none
      (.appliedIndexBehind required actual)
  else pure actual

/-- The lowest index of the entries. -/
def lowestIndex {C : Type} (entries : List (ApplyEntry C)) : Option ℕ :=
  (entries.map (·.index)).min?

/-- `RaftGroup::reject_if_snapshot_restore_required`. -/
def rejectIfSnapshotRestoreRequired (appAppliedIndex : ℕ) (entries : List (ApplyEntry A.Command)) :
    GroupM G A R Unit := do
  let g ← current
  let snapshotIndex := R.snapshotIndex g.raft
  if snapshotIndex ≤ appAppliedIndex then pure ()
  else
    match lowestIndex entries with
    | none => pure ()
    | some entryIndex => fail (.snapshotRestoreRequired appAppliedIndex snapshotIndex entryIndex)

/-- No entry at or below what the state machine has applied is handed to it. -/
def refuseReplay (appAppliedIndex : ℕ) (entries : List (ApplyEntry A.Command)) :
    GroupM G A R Unit := do
  let g ← current
  match entries.find? fun entry => entry.index ≤ appAppliedIndex with
  | some entry =>
    let index := entry.index
    poisonWith (s!"refusing to replay committed entry {index} because the state machine already " ++
        s!"reports applied index {appAppliedIndex}") none
      (.applyEntryAlreadyApplied index appAppliedIndex g.lastAppliedIndex)
  | none => pure ()

/-- `RaftGroup::validate_apply_floor`. -/
def validateApplyFloor (entries : List (ApplyEntry A.Command)) : GroupM G A R Unit := do
  let app ← appAppliedIndex
  let g ← current
  let floor := g.lastAppliedIndex
  if app < floor then
    poisonWith s!"state machine reported applied index {app} below group applied floor {floor}" none
      (.appliedIndexBehind floor app)
  else do
    rejectIfSnapshotRestoreRequired app entries
    refuseReplay app entries
    update fun g => { g with lastAppliedIndex := max g.lastAppliedIndex app }

/-- Hand the entries to the state machine (`apply_batch`). -/
def applyBatch (entries : List (ApplyEntry A.Command)) :
    GroupM G A R (List (ApplyResult A.CommandResult)) := do
  let results ← updateWith fun g : RaftGroup G A R =>
    ((A.applyBatch g.app entries).1, { g with app := (A.applyBatch g.app entries).2 })
  match results with
  | .ok results => pure results
  | .error source => poisonWithStateMachineError .applyBatch source

/-- The results answer the entries, one for one. -/
def checkResults (entries : List (ApplyEntry A.Command))
    (results : List (ApplyResult A.CommandResult)) :
    GroupM G A R Unit :=
  let expected := entries.length
  let actual := results.length
  if actual ≠ expected then
    poisonWith s!"state machine returned {actual} apply results for {expected} committed entries"
      none (.applyResultCountMismatch expected actual)
  else
    match (entries.zip results).find? fun p =>
        p.2.index ≠ p.1.index ∨ p.2.term ≠ p.1.term ∨ p.2.localProposalId ≠ p.1.localProposalId with
    | some (entry, result) =>
      poisonWith "state machine returned mismatched apply metadata" none
        (.applyResultMetadataMismatch entry.index result.index entry.term result.term
          entry.localProposalId result.localProposalId)
    | none => pure ()

/-- One applied result: the floor, the proposal it settles, the report. -/
def settleResult (s : ReportOf G A × RaftGroup G A R) (result : ApplyResult A.CommandResult) :
    ReportOf G A × RaftGroup G A R :=
  let g := { s.2 with lastAppliedIndex := max s.2.lastAppliedIndex result.index }
  match result.localProposalId.filter g.pendingProposals.contains with
  | some id =>
    ({ s.1 with
        proposalEvents := s.1.proposalEvents ++ [.applied id result.index result.term result.result]
        applied := s.1.applied ++ [result] },
      { g with pendingProposals := g.pendingProposals.erase id })
  | none => ({ s.1 with applied := s.1.applied ++ [result] }, g)

/-- `RaftGroup::apply_entries`. -/
def applyEntries (entries : List (ApplyEntry A.Command)) (report : ReportOf G A) :
    GroupM G A R (ReportOf G A) :=
  if entries.isEmpty then pure report
  else do
    validateApplyFloor entries
    let results ← applyBatch entries
    checkResults entries results
    match (entries.map (·.index)).max? with
    | none => pure report
    | some required => do
      let _ ← verifyAppAppliedIndexAtLeast required
      updateWith fun g => results.foldl settleResult (report, g)

/-- `RaftGroup::reject_if_below_snapshot_boundary`. -/
def rejectIfBelowSnapshotBoundary : GroupM G A R Unit := do
  let g ← current
  let snapshotIndex := R.snapshotIndex g.raft
  if snapshotIndex ≤ g.lastAppliedIndex then pure ()
  else do
    let app ← appAppliedIndex
    update fun g => { g with lastAppliedIndex := max g.lastAppliedIndex app }
    if snapshotIndex ≤ app then pure ()
    else
      poisonWith (s!"state machine reported applied index {app} below the snapshot boundary " ++
        s!"{snapshotIndex}, whose entries are compacted and can never be applied") none
        (.appliedIndexBelowSnapshotBoundary app snapshotIndex)

/-! ## Installing snapshots -/

/-- `RaftGroup::validate_snapshot_output`. -/
def validateSnapshotOutput (snapshot : RaftSnapshot) : GroupM G A R Unit :=
  if snapshot.metadata.lastIncludedIndex = 0 then
    poisonWithMalformedSnapshot "snapshot last included index is zero"
  else if snapshot.metadata.lastIncludedTerm = 0 then
    poisonWithMalformedSnapshot "snapshot last included term is zero"
  else pure ()

/-- Hand the snapshot to the state machine (`install_snapshot`). -/
def installSnapshot (snapshot : RaftSnapshot) : GroupM G A R Unit := do
  let boundary := snapshot.metadata.lastIncludedIndex
  let installed ← updateWith fun g : RaftGroup G A R =>
    ((A.installSnapshot g.app ⟨boundary, [], some snapshot⟩).1,
      { g with app := (A.installSnapshot g.app ⟨boundary, [], some snapshot⟩).2 })
  match installed with
  | .ok () => pure ()
  | .error .unsupported =>
    poisonWith ("state machine declares application snapshot support but refused the install at " ++
        s!"index {boundary} as unsupported") none
      (.snapshotSupportMisdeclared boundary)
  | .error (.stateMachine source) => poisonWithStateMachineError .installSnapshot source

/-- `RaftGroup::apply_snapshot_output`. -/
def applySnapshotOutput (snapshot : RaftSnapshot) (report : ReportOf G A) :
    GroupM G A R (ReportOf G A) := do
  validateSnapshotOutput snapshot
  let boundary := snapshot.metadata.lastIncludedIndex
  if A.snapshotSupport ≠ .supported then
    poisonWith ("state machine declares no application snapshot support; refused a Raft-driven " ++
        s!"install at index {boundary}") none
      (.snapshotsUnsupported boundary)
  else do
    installSnapshot snapshot
    let _ ← verifyAppAppliedIndexAtLeast boundary
    updateWith fun g =>
      ({ report with snapshotEvents := report.snapshotEvents ++ [.apply g.groupId snapshot] },
        { g with lastAppliedIndex := max g.lastAppliedIndex boundary })

/-! ## Reads -/

/-- Take a read out of every table; whether it was in one. -/
def RaftGroup.removeReadState (g : RaftGroup G A R) (readId : ReadId) : Bool × RaftGroup G A R :=
  (g.pendingReads.contains readId || g.pendingQueryReads.contains readId ||
      g.completedQueryReads.contains readId,
    { g with
      pendingReads := g.pendingReads.erase readId
      pendingQueryReads := g.pendingQueryReads.erase readId
      completedQueryReads := g.completedQueryReads.erase readId })

/-- The read ended by `event`, when it was known (`record_rejected_read`,
`record_canceled_read`). -/
def recordEndedRead (readId : ReadId) (event : Option NodeId → ReadEvent G) (report : ReportOf G A)
    (g : RaftGroup G A R) : ReportOf G A × RaftGroup G A R :=
  if (g.removeReadState readId).1 then
    ({ report with readEvents := report.readEvents ++ [event (R.leaderHint g.raft)] },
      (g.removeReadState readId).2)
  else (report, (g.removeReadState readId).2)

/-- `RaftGroup::record_granted_read_index`. -/
def RaftGroup.recordGrantedReadIndex (g : RaftGroup G A R) (readId : ReadId) (readIndex : ℕ) :
    RaftGroup G A R :=
  match g.pendingReads.get? readId with
  | some pending =>
    { g with
      pendingReads := g.pendingReads.insert readId
        { pending with
          granted := some ⟨readIndex, R.committedApplicationIndexThrough g.raft readIndex⟩ } }
  | none => g

/-- The index a granted read waits for. -/
def requiredAppliedIndex (granted : GrantedReadIndex) (minAppliedIndex : Option ℕ) : ℕ :=
  match minAppliedIndex with
  | some least => max granted.applicationFloor least
  | none => granted.applicationFloor

/-- The reads with a granted index, in order. -/
def RaftGroup.grantedReads (g : RaftGroup G A R) : List (ReadId × GrantedReadIndex × Option ℕ) :=
  g.pendingReads.filterMap fun row => row.2.granted.map fun granted =>
    (row.1, granted, row.2.minAppliedIndex)

/-- The proof under which a read is served. -/
def RaftGroup.readProof (g : RaftGroup G A R) (granted : GrantedReadIndex) (required applied : ℕ) :
    ReadProof G :=
  ⟨g.groupId, g.nodeId, R.currentTerm g.raft, granted.readIndex, required, applied⟩

/-- One granted read against what the state machine has applied. -/
def completeRead (applied : ℕ) (s : ReportOf G A × RaftGroup G A R)
    (read : ReadId × GrantedReadIndex × Option ℕ) : ReportOf G A × RaftGroup G A R :=
  let required := requiredAppliedIndex read.2.1 read.2.2
  if required ≤ applied then
    let g := { s.2 with pendingReads := s.2.pendingReads.erase read.1 }
    let proof := g.readProof read.2.1 required applied
    let report := { s.1 with readEvents := s.1.readEvents ++ [.granted read.1 proof] }
    match g.pendingQueryReads.get? read.1 with
    | some query =>
      (report,
        { g with
          pendingQueryReads := g.pendingQueryReads.erase read.1
          completedQueryReads := g.completedQueryReads.insert read.1
            ⟨proof, query.minAppliedIndex, query.context⟩ })
    | none => (report, g)
  else
    ({ s.1 with
        readEvents := s.1.readEvents ++ [.freshnessUnavailable read.1 required applied] }, s.2)

/-- `complete_ready_reads`; a failed lookup of the applied index does not poison here. -/
def completeReadyReads (report : ReportOf G A) : GroupM G A R (ReportOf G A) := do
  let g ← current
  if g.grantedReads.isEmpty then pure report
  else
    match A.appliedIndex g.app with
    | .error source => fail (.stateMachine .appliedIndex source)
    | .ok applied => updateWith fun g => g.grantedReads.foldl (completeRead applied) (report, g)

/-! ## Membership -/

/-- The crossing an output tells of. -/
def committedCrossing : Output → Option CommittedConfigurationCrossing
  | .configurationCommitted index term previous configuration =>
    some ⟨index, term, previous, configuration.membershipConfig⟩
  | _ => none

/-- `RaftGroup::queue_committed_configurations`. -/
def RaftGroup.queueCommittedConfigurations (g : RaftGroup G A R) (outputs : List Output) :
    RaftGroup G A R :=
  { g with
    reportedMembership :=
      { g.reportedMembership with
        crossed := g.reportedMembership.crossed ++ outputs.filterMap committedCrossing } }

/-- The term of an index, or the current one where the log no longer has it. -/
def RaftGroup.termAt (g : RaftGroup G A R) (index : ℕ) : ℕ :=
  (R.termAtIndex g.raft index).getD (R.currentTerm g.raft)

/-- What is reported of a crossing. -/
def CommittedConfigurationCrossing.event (groupId : G) (c : CommittedConfigurationCrossing) :
    MembershipEvent G :=
  .applied groupId c.index c.term c.previous c.membership

/-- The events of the difference between the runtime and what was last reported. -/
def RaftGroup.owedMembershipEvents (g : RaftGroup G A R) : List (MembershipEvent G) :=
  let mark := g.reportedMembership
  let crossed := mark.crossed.foldl (fun _ crossing => crossing.membership) mark.committed
  (if R.membership g.raft = mark.effective then []
    else [.effectiveChanged g.groupId (R.lastLogIndex g.raft) (g.termAt (R.lastLogIndex g.raft))
      (R.membership g.raft)]) ++
  mark.crossed.map (·.event g.groupId) ++
  (if R.committedMembership g.raft = crossed then []
    else [.committedEndpoint g.groupId (R.commitIndex g.raft) (g.termAt (R.commitIndex g.raft))
      (R.committedMembership g.raft)])

/-- `record_membership_changes`. -/
def recordMembershipChanges (report : ReportOf G A) (g : RaftGroup G A R) :
    ReportOf G A × RaftGroup G A R :=
  ({ report with membershipEvents := report.membershipEvents ++ g.owedMembershipEvents },
    { g with reportedMembership := ⟨R.membership g.raft, R.committedMembership g.raft, []⟩ })

/-- The crossing an event reports. -/
def appliedCrossing : MembershipEvent G → Option CommittedConfigurationCrossing
  | .applied _ index term previous membership => some ⟨index, term, previous, membership⟩
  | _ => none

/-- `restore_membership_report_mark`: the report was dropped, so its crossings are owed again. -/
def RaftGroup.restoreMembershipReportMark (g : RaftGroup G A R) (mark : MembershipReportMark)
    (discarded : ReportOf G A) : RaftGroup G A R :=
  { g with
    reportedMembership :=
      { mark with crossed := discarded.membershipEvents.filterMap appliedCrossing } }

/-! ## The output pump -/

/-- `RaftGroup::record_appended_proposal`. -/
def recordAppendedProposal (proposalId : LocalProposalId) (index term : ℕ) (report : ReportOf G A)
    (g : RaftGroup G A R) : ReportOf G A × RaftGroup G A R :=
  if g.pendingProposals.contains proposalId then
    ({ report with
        proposalEvents := report.proposalEvents ++ [.appended proposalId index term] }, g)
  else (report, g)

/-- A pending proposal ends with `event` (`record_unknown_proposal_outcome`, a rejection). -/
def recordEndedProposal (proposalId : LocalProposalId)
    (event : Option ClientRequestId → ProposalEvent A.CommandResult) (report : ReportOf G A)
    (g : RaftGroup G A R) : ReportOf G A × RaftGroup G A R :=
  match g.pendingProposals.get? proposalId with
  | some clientRequestId =>
    ({ report with proposalEvents := report.proposalEvents ++ [event clientRequestId] },
      { g with pendingProposals := g.pendingProposals.erase proposalId })
  | none => (report, g)

/-- `record_raft_output`: the entries collected so far and the report. -/
def recordRaftOutput (membershipRequest : Bool) (s : List (ApplyEntry A.Command) × ReportOf G A)
    (output : Output) : GroupM G A R (List (ApplyEntry A.Command) × ReportOf G A) := do
  let g ← current
  let report := s.2
  match output with
  | .send recipient message =>
    pure (s.1, { report with
      peerMessages := report.peerMessages ++ [⟨g.groupId, g.nodeId, recipient, message⟩] })
  | .localProposalAppended proposalId index term => do
    let report ← updateWith (recordAppendedProposal proposalId index term report)
    pure (s.1, report)
  | .localProposalDropped proposalId index term reason => do
    let report ← updateWith (recordEndedProposal proposalId
      (.unknownOutcome proposalId · (.localProposalDropped index term reason)) report)
    pure (s.1, report)
  | .rejectProposal (some proposalId) reason => do
    let report ← updateWith (recordEndedProposal proposalId
      (fun _ => .rejected proposalId reason (R.leaderHint g.raft)) report)
    pure (s.1, report)
  | .rejectProposal none reason =>
    if membershipRequest then
      pure (s.1, { report with
        membershipEvents := report.membershipEvents ++
          [.rejected g.groupId reason (R.leaderHint g.raft)] })
    else pure s
  | .leadershipTransferRejected target reason =>
    pure (s.1, { report with
      leadershipTransferEvents := report.leadershipTransferEvents ++
        [.rejected target reason (R.leaderHint g.raft)] })
  | .apply index term payload localProposalId => do
    let entry ← decodeApplyOutput index term payload localProposalId
    pure (s.1 ++ [entry], report)
  | .readIndexGranted readId readIndex => do
    update (·.recordGrantedReadIndex readId readIndex)
    pure s
  | .readIndexRejected readId reason => do
    let report ← updateWith (recordEndedRead readId (.rejected readId reason) report)
    pure (s.1, report)
  | .readIndexCanceled readId reason => do
    let report ← updateWith (recordEndedRead readId (.canceled readId reason) report)
    pure (s.1, report)
  | .applySnapshot snapshot => do
    let report ← applySnapshotOutput snapshot report
    pure (s.1, report)
  | .stageSnapshotChunk chunk =>
    pure (s.1, { report with
      snapshotEvents := report.snapshotEvents ++ [.stageChunk g.groupId chunk] })
  | .sendSnapshotChunk recipient chunk =>
    pure (s.1, { report with
      snapshotEvents := report.snapshotEvents ++ [.sendChunk g.groupId recipient chunk] })
  -- queued before the walk, so that a walk that stops early still owes it
  | .configurationCommitted _ _ _ _ => pure s

/-- `apply_outputs`: snapshots are installed in the walk, the entries it collects applied after
it. -/
def applyOutputs (outputs : List Output) (membershipRequest : Bool) :
    GroupM G A R (ReportOf G A) := do
  let g ← current
  update (·.queueCommittedConfigurations outputs)
  let walked ← outputs.foldlM (recordRaftOutput membershipRequest) ([], { groupId := g.groupId })
  let report ← applyEntries walked.1 walked.2
  let report ← completeReadyReads report
  updateWith (recordMembershipChanges report)

/-- `apply_raft_outputs`. -/
def applyRaftOutputs (outputs : List Output) : GroupM G A R (ReportOf G A) := do
  rejectIfPoisoned
  applyOutputs outputs false

/-! ## Recovery -/

/-- `lowest_application_entry`. -/
def lowestApplicationEntry (outputs : List Output) : Option ℕ :=
  (outputs.filterMap fun output => match output with
    | .apply index _ _ _ => some index
    | _ => none).min?

/-- `installs_through`. -/
def installsThrough (outputs : List Output) (boundary : ℕ) : Bool :=
  outputs.any fun output => match output with
    | .applySnapshot snapshot => boundary ≤ snapshot.metadata.lastIncludedIndex
    | _ => false

/-- The snapshot to install before the outputs are applied, if one is owed. -/
def snapshotRestoreOwedBy (outputs : List Output) : GroupM G A R (Option RaftSnapshot) :=
  match lowestApplicationEntry outputs with
  | none => pure none
  | some entryIndex => do
    let app ← appAppliedIndex
    let g ← current
    let snapshotIndex := R.snapshotIndex g.raft
    if snapshotIndex ≤ app ∨ installsThrough outputs snapshotIndex then pure none
    else
      match R.snapshot g.raft with
      | none => fail (.snapshotRestoreRequired app snapshotIndex entryIndex)
      | some snapshot => pure (some snapshot)

/-- `apply_recovery_outputs`. -/
def applyRecoveryOutputs (outputs : List Output) : GroupM G A R (ReportOf G A) := do
  rejectIfPoisoned
  match ← snapshotRestoreOwedBy outputs with
  | none => applyOutputs outputs false
  | some snapshot => applyOutputs (.applySnapshot snapshot :: outputs) false

/-- `drain_membership_events`. -/
def drainMembershipEvents (g : RaftGroup G A R) : List (MembershipEvent G) × RaftGroup G A R :=
  let drained := recordMembershipChanges ({ groupId := g.groupId } : ReportOf G A) g
  (drained.1.membershipEvents, drained.2)

/-! ## Bookkeeping

Granting and ending what is pending touches the tables and the events of a report only. -/

/-- The group with nothing pending. -/
def RaftGroup.bare (g : RaftGroup G A R) : RaftGroup G A R :=
  { g with
    pendingProposals := []
    pendingReads := []
    pendingQueryReads := []
    completedQueryReads := [] }

/-- The reports and groups differ in what is pending and in the events of proposals and reads. -/
def Books (s s' : ReportOf G A × RaftGroup G A R) : Prop :=
  s'.2.bare = s.2.bare ∧ s'.1.membershipEvents = s.1.membershipEvents

theorem recordAppendedProposal_books (proposalId : LocalProposalId) (index term : ℕ)
    (report : ReportOf G A) (g : RaftGroup G A R) :
    Books (report, g) (recordAppendedProposal proposalId index term report g) := by
  unfold recordAppendedProposal
  split <;> exact ⟨rfl, rfl⟩

theorem recordEndedProposal_books (proposalId : LocalProposalId)
    (event : Option ClientRequestId → ProposalEvent A.CommandResult) (report : ReportOf G A)
    (g : RaftGroup G A R) : Books (report, g) (recordEndedProposal proposalId event report g) := by
  unfold recordEndedProposal
  split <;> exact ⟨rfl, rfl⟩

theorem recordEndedRead_books (readId : ReadId) (event : Option NodeId → ReadEvent G)
    (report : ReportOf G A) (g : RaftGroup G A R) :
    Books (report, g) (recordEndedRead readId event report g) := by
  unfold recordEndedRead
  split <;> exact ⟨rfl, rfl⟩

theorem bare_recordGrantedReadIndex (g : RaftGroup G A R) (readId : ReadId) (readIndex : ℕ) :
    (g.recordGrantedReadIndex readId readIndex).bare = g.bare := by
  unfold RaftGroup.recordGrantedReadIndex
  split <;> rfl

theorem completeRead_books (applied : ℕ) (s : ReportOf G A × RaftGroup G A R)
    (read : ReadId × GrantedReadIndex × Option ℕ) : Books s (completeRead applied s read) := by
  unfold completeRead
  dsimp only
  split
  · split <;> exact ⟨rfl, rfl⟩
  · exact ⟨rfl, rfl⟩

theorem completeReads_books (applied : ℕ) (reads : List (ReadId × GrantedReadIndex × Option ℕ))
    (s : ReportOf G A × RaftGroup G A R) : Books s (reads.foldl (completeRead applied) s) := by
  induction reads generalizing s with
  | nil => exact ⟨rfl, rfl⟩
  | cons read reads ih =>
    obtain ⟨hbare, hevents⟩ := completeRead_books applied s read
    exact ⟨(ih _).1.trans hbare, (ih _).2.trans hevents⟩

end Rafter.App
