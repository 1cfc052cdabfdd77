import Rafter.App.Group

/-!
# The calls of a group

What a caller of `RaftGroup` can do: proposals (`proposal.rs`, `proposal_step.rs`), reads
(`read.rs`, `read_query.rs`, `read_barrier.rs`), `step` (`step.rs`), decomposition (`parts.rs`).
-/

namespace Rafter.App

open Fallible

variable {G : Type} {A : ReplicatedStateMachine} {R : PersistedRaftRuntime}

/-! ## The runtime's steps -/

/-- Step the runtime; `undo` is what the group takes back when the step fails, which then releases
nothing. -/
def stepRuntimeOr (undo : RaftGroup G A R → RaftGroup G A R)
    (step : R.State → Except R.Error (List Output) × R.State) : GroupM G A R (List Output) := do
  let stepped ← updateWith fun g : RaftGroup G A R =>
    ((step g.raft).1, { g with raft := (step g.raft).2 })
  match stepped with
  | .ok outputs => pure outputs
  | .error error => do
    update undo
    fail (.runtime error)

theorem stepRuntimeOr_ends {undo : RaftGroup G A R → RaftGroup G A R}
    {step : R.State → Except R.Error (List Output) × R.State} {g : RaftGroup G A R}
    {q : List Output → RaftGroup G A R → Prop}
    {e : GroupError A.Error R.Error → RaftGroup G A R → Prop}
    (h : Ends step g.raft (fun outputs raft => q outputs { g with raft := raft })
      (fun error raft => e (.runtime error) (undo { g with raft := raft }))) :
    Ends (stepRuntimeOr undo step) g q e := by
  unfold stepRuntimeOr
  refine Ends.bind (q := fun stepped g' => stepped = (step g.raft).1 ∧
    g' = { g with raft := (step g.raft).2 }) (ends_updateWith ⟨rfl, rfl⟩) ?_
  rintro _ _ ⟨rfl, rfl⟩
  rcases hstep : step g.raft with ⟨error | outputs, raft⟩
  · exact ends_update_bind (ends_fail (h.of_error hstep))
  · exact ends_pure (h.of_ok hstep)

/-- The runtime steps an input; its error goes to the caller. -/
def stepRuntime (input : Input) : GroupM G A R (List Output) := stepRuntimeOr id (R.step · input)

/-! ## Proposals -/

/-- The ID of a proposal is above every earlier one's. -/
def rejectNonMonotonicProposal (lastSeen : Option LocalProposalId) (id : LocalProposalId) :
    GroupM G A R Unit :=
  match lastSeen with
  | some last => if id ≤ last then fail (.nonMonotonicLocalProposalId id last) else pure ()
  | none => pure ()

/-- Encode a command; a refusal leaves the group as it is. -/
def encodeCommand (command : A.Command) : GroupM G A R Payload := do
  let g ← current
  match A.encodeCommand g.app command with
  | .ok payload => pure payload
  | .error source => fail (.stateMachine .encodeCommand source)

/-- `step_proposal`. -/
def stepProposal (proposal : Proposal A.Command) : GroupM G A R (List Output) := do
  let g ← current
  let id := proposal.localProposalId
  rejectNonMonotonicProposal g.lastSeenLocalProposalId id
  let payload ← encodeCommand proposal.command
  update fun g =>
    { g with
      lastSeenLocalProposalId := some id
      pendingProposals := g.pendingProposals.insert id proposal.clientRequestId }
  stepRuntimeOr (fun g => { g with pendingProposals := g.pendingProposals.erase id })
    (R.step · (.trackedClientProposal id payload))

/-- The loop of `step_proposals`: the last ID seen, the kernel's batch. -/
def encodeProposals (s : Option LocalProposalId × List ClientProposalInput)
    (proposal : Proposal A.Command) :
    GroupM G A R (Option LocalProposalId × List ClientProposalInput) := do
  rejectNonMonotonicProposal s.1 proposal.localProposalId
  let payload ← encodeCommand proposal.command
  pure (some proposal.localProposalId, s.2 ++ [⟨some proposal.localProposalId, payload⟩])

/-- Note the proposals as pending. -/
def RaftGroup.insertPending (g : RaftGroup G A R) (proposals : List (Proposal A.Command)) :
    RaftGroup G A R :=
  { g with
    pendingProposals := proposals.foldl
      (fun t proposal => t.insert proposal.localProposalId proposal.clientRequestId)
      g.pendingProposals }

/-- Forget the proposals. -/
def RaftGroup.removePending (g : RaftGroup G A R) (proposals : List (Proposal A.Command)) :
    RaftGroup G A R :=
  { g with
    pendingProposals := proposals.foldl (fun t proposal => t.erase proposal.localProposalId)
      g.pendingProposals }

/-- `step_proposals`. -/
def stepProposals (proposals : List (Proposal A.Command)) : GroupM G A R (List Output) :=
  if proposals.isEmpty then pure []
  else do
    let g ← current
    let encoded ← proposals.foldlM encodeProposals (g.lastSeenLocalProposalId, [])
    update fun g => { g.insertPending proposals with lastSeenLocalProposalId := encoded.1 }
    stepRuntimeOr (·.removePending proposals) (R.stepProposalBatch · encoded.2)

/-- The proposal a lifecycle event is about. -/
def ProposalEvent.id {C : Type} : ProposalEvent C → LocalProposalId
  | .appended id _ _ | .applied id _ _ _ | .rejected id _ _ | .unknownOutcome id _ _ => id

/-- One submitted proposal that the report says nothing about. -/
def recordMissingLifecycle (s : ReportOf G A × RaftGroup G A R) (id : LocalProposalId) :
    ReportOf G A × RaftGroup G A R :=
  if s.1.proposalEvents.any fun event => event.id = id then s
  else
    ({ s.1 with
        proposalEvents := s.1.proposalEvents ++
          [.unknownOutcome id (s.2.pendingProposals.get? id).join .lifecycleUnreported] },
      { s.2 with pendingProposals := s.2.pendingProposals.erase id })

/-- `RaftGroup::record_missing_proposal_lifecycles`. -/
def recordMissingProposalLifecycles (ids : List LocalProposalId) (report : ReportOf G A)
    (g : RaftGroup G A R) : ReportOf G A × RaftGroup G A R :=
  ids.foldl recordMissingLifecycle (report, g)

/-- The lifecycle of a proposal in its report: applied before unknown before appended before
rejected. The source has no fifth case. -/
def RaftGroup.proposalBeginFromReport (g : RaftGroup G A R) (id : LocalProposalId)
    (report : ReportOf G A) : Option (ProposalBegin G A.CommandResult) :=
  let events := report.proposalEvents.filter fun event => event.id = id
  (events.findSome? fun event => match event with
    | .applied _ index term result =>
      some (.completed g.groupId id index term result report.peerMessages)
    | _ => none) <|>
  (events.findSome? fun event => match event with
    | .unknownOutcome _ clientRequestId reason =>
      some (.unknownOutcome g.groupId id clientRequestId reason report.peerMessages)
    | _ => none) <|>
  (events.findSome? fun event => match event with
    | .appended _ index term => some (.appended g.groupId id index term report.peerMessages)
    | _ => none) <|>
  (events.findSome? fun event => match event with
    | .rejected _ reason leaderHint => some (.rejected g.groupId id reason leaderHint)
    | _ => none)

/-- The proposals of a step, from the kernel to their lifecycles. -/
def stepProposalInput (proposal : Proposal A.Command) : GroupM G A R (ReportOf G A) := do
  let outputs ← stepProposal proposal
  let report ← applyOutputs outputs false
  updateWith (recordMissingProposalLifecycles [proposal.localProposalId] report)

/-- `RaftGroup::step_proposal_batch_input`. -/
def stepProposalBatchInput (proposals : List (Proposal A.Command)) :
    GroupM G A R (ReportOf G A) := do
  let outputs ← stepProposals proposals
  let report ← applyOutputs outputs false
  updateWith (recordMissingProposalLifecycles (proposals.map (·.localProposalId)) report)

/-- `begin_proposal`: the lifecycle of the proposal and the report of its step. -/
def beginProposal (proposal : Proposal A.Command) :
    GroupM G A R (Option (ProposalBegin G A.CommandResult) × ReportOf G A) := do
  rejectIfPoisoned
  rejectIfBelowSnapshotBoundary
  let report ← stepProposalInput proposal
  let g ← current
  pure (g.proposalBeginFromReport proposal.localProposalId report, report)

/-- `begin_proposal_batch`. -/
def beginProposalBatch (proposals : List (Proposal A.Command)) :
    GroupM G A R (List (Option (ProposalBegin G A.CommandResult)) × ReportOf G A) := do
  rejectIfPoisoned
  rejectIfBelowSnapshotBoundary
  let report ← stepProposalBatchInput proposals
  let g ← current
  pure (proposals.map fun proposal => g.proposalBeginFromReport proposal.localProposalId report,
    report)

/-- An outcome form: the report of the call is dropped, and the mark goes back to where it was. -/
def discardingReport {α : Type} (call : GroupM G A R (α × ReportOf G A)) : GroupM G A R α := do
  let before ← current
  let answer ← call
  update (·.restoreMembershipReportMark before.reportedMembership answer.2)
  pure answer.1

/-- `begin_proposal_outcome`. -/
def beginProposalOutcome (proposal : Proposal A.Command) :
    GroupM G A R (Option (ProposalBegin G A.CommandResult)) :=
  discardingReport (beginProposal proposal)

/-! ## Reads -/

section

variable [DecidableEq G]

/-- `RaftGroup::read_id_is_active`. -/
def RaftGroup.readIdIsActive (g : RaftGroup G A R) (readId : ReadId) : Bool :=
  g.pendingReads.contains readId || g.pendingQueryReads.contains readId ||
    g.completedQueryReads.contains readId

/-- The refusals of `step_read_barrier_input`. -/
def validateReadBarrier (request : ReadBarrierRequest G) : GroupM G A R Unit := do
  let g ← current
  if request.groupId ≠ g.groupId then fail .wrongGroup
  else if g.readIdIsActive request.readId then fail (.duplicateReadId request.readId)
  else
    match g.lastSeenReadId with
    | some last =>
      if request.readId ≤ last then fail (.nonMonotonicReadId request.readId last) else pure ()
    | none => pure ()

/-- `step_read_barrier_input`. -/
def stepReadBarrierInput (request : ReadBarrierRequest G) : GroupM G A R (ReportOf G A) := do
  validateReadBarrier request
  update fun g =>
    { g with
      pendingReads := g.pendingReads.insert request.readId ⟨request.minAppliedIndex, none⟩
      lastSeenReadId := some request.readId }
  let outputs ← stepRuntimeOr
    (fun g => { g with pendingReads := g.pendingReads.erase request.readId })
    (R.step · (.readIndex request.readId))
  applyOutputs outputs false

/-- What the events of a report say about a read (`read_outcome_from_report`). -/
def ReadEvent.outcome (readId : ReadId) : ReadEvent G → Option (ReadProofOutcome G)
  | .granted id proof => if id = readId then some (.granted proof) else none
  | .rejected id reason leaderHint =>
    if id = readId then some (.rejected readId reason leaderHint) else none
  | .canceled id reason leaderHint =>
    if id = readId then some (.canceled readId reason leaderHint) else none
  | .freshnessUnavailable id required applied =>
    if id = readId then some (.freshnessUnavailable readId required applied) else none

/-- `RaftGroup::read_outcome_from_report`. -/
def readOutcomeFromReport (readId : ReadId) (report : ReportOf G A) : ReadProofOutcome G :=
  (report.readEvents.findSome? (ReadEvent.outcome readId)).getD
    (.pending readId report.peerMessages)

/-- `begin_read_barrier`. -/
def beginReadBarrier (request : ReadBarrierRequest G) :
    GroupM G A R (ReadProofOutcome G × ReportOf G A) := do
  rejectIfPoisoned
  rejectIfBelowSnapshotBoundary
  let report ← stepReadBarrierInput request
  pure (readOutcomeFromReport request.readId report, report)

/-- `begin_read_barrier_outcome`. -/
def beginReadBarrierOutcome (request : ReadBarrierRequest G) : GroupM G A R (ReadProofOutcome G) :=
  discardingReport (beginReadBarrier request)

end

/-- `RaftGroup::read_state_machine`. -/
def readStateMachine (query : A.Query) (barrier : ReadBarrier) : GroupM G A R A.QueryResult := do
  let g ← current
  match A.read g.app query barrier with
  | .ok result => pure result
  | .error source => fail (.stateMachine .read source)

/-- `RaftGroup::read_with_proof`. -/
def readWithProof (query : A.Query) (proof : ReadProof G) :
    GroupM G A R (ReadOutcome G A.QueryResult) := do
  let result ← readStateMachine query ⟨proof.requiredAppliedIndex, proof.localAppliedIndex⟩
  pure (.ready result (some proof))

/-- The applied index for a read; a failed lookup does not poison. -/
def readAppliedIndex : GroupM G A R ℕ := do
  let g ← current
  match A.appliedIndex g.app with
  | .ok applied => pure applied
  | .error source => fail (.stateMachine .appliedIndex source)

/-- `read_local`. -/
def readLocal (query : A.Query) (minAppliedIndex : Option ℕ) :
    GroupM G A R (ReadOutcome G A.QueryResult) := do
  let applied ← readAppliedIndex
  let required := max applied (minAppliedIndex.getD applied)
  if applied < required then pure (.localFreshnessUnavailable required applied)
  else do
    let result ← readStateMachine query ⟨required, applied⟩
    pure (.ready result none)

/-- `try_complete_pending_query_read`. -/
def tryCompletePendingQueryRead (readId : ReadId) (query : A.Query) :
    GroupM G A R (ReadOutcome G A.QueryResult) := do
  let g ← current
  match g.pendingReads.get? readId with
  | none => do
    update fun g => { g with pendingQueryReads := g.pendingQueryReads.erase readId }
    pure (.pending readId [])
  | some pending =>
    match pending.granted with
    | none => pure (.pending readId [])
    | some granted => do
      let applied ← readAppliedIndex
      let required := requiredAppliedIndex granted pending.minAppliedIndex
      if applied < required then
        pure (.linearizableFreshnessUnavailable readId required applied)
      else do
        update fun g =>
          { g with
            pendingReads := g.pendingReads.erase readId
            pendingQueryReads := g.pendingQueryReads.erase readId }
        readWithProof query (g.readProof granted required applied)

/-- Forget a query read in the tables of queries. -/
def RaftGroup.forgetQuery (g : RaftGroup G A R) (readId : ReadId) : RaftGroup G A R :=
  { g with
    pendingQueryReads := g.pendingQueryReads.erase readId
    completedQueryReads := g.completedQueryReads.erase readId }

/-- `read_outcome_from_proof_outcome`. -/
def readOutcomeFromProofOutcome (readId : ReadId) (query : A.Query) :
    ReadProofOutcome G → GroupM G A R (ReadOutcome G A.QueryResult)
  | .granted proof => do
    update (·.forgetQuery readId)
    readWithProof query proof
  | .pending id peerMessages => pure (.pending id peerMessages)
  | .rejected id reason leaderHint => do
    update (·.forgetQuery id)
    pure (.rejected id reason leaderHint)
  | .canceled id reason leaderHint => do
    update (·.forgetQuery id)
    pure (.canceled id reason leaderHint)
  | .freshnessUnavailable id required applied =>
    pure (.linearizableFreshnessUnavailable id required applied)

/-- The read goes on after the call that began it. -/
def ReadProofOutcome.isOpen : ReadProofOutcome G → Bool
  | .pending _ _ | .freshnessUnavailable _ _ _ => true
  | _ => false

/-- Run a step of a read; a failure gives the crossings of `report` back to the mark. -/
def restoringOnError {α : Type} (mark : MembershipReportMark) (report : ReportOf G A)
    (x : GroupM G A R α) : GroupM G A R α := fun g =>
  match x g with
  | (.ok a, g') => (.ok a, g')
  | (.error e, g') => (.error e, g'.restoreMembershipReportMark mark report)

section

variable [DecidableEq G]

/-- `read_linearizable`. -/
def readLinearizable (readId : ReadId) (query : A.Query) (minAppliedIndex : Option ℕ)
    (context : Payload) : GroupM G A R (ReadOutcome G A.QueryResult × ReportOf G A) := do
  let g ← current
  match g.completedQueryReads.get? readId, g.pendingQueryReads.get? readId with
  | some completed, _ =>
    if completed.minAppliedIndex ≠ minAppliedIndex ∨ completed.context ≠ context then
      fail (.duplicateReadId readId)
    else do
      update (·.forgetQuery readId)
      let outcome ← readWithProof query completed.proof
      pure (outcome, { groupId := g.groupId })
  | none, some pending =>
    if pending.minAppliedIndex ≠ minAppliedIndex ∨ pending.context ≠ context then
      fail (.duplicateReadId readId)
    else do
      let outcome ← tryCompletePendingQueryRead readId query
      pure (outcome, { groupId := g.groupId })
  | none, none => do
    let begun ← beginReadBarrier ⟨g.groupId, readId, minAppliedIndex, context⟩
    update fun g =>
      if begun.1.isOpen then
        { g with
          pendingQueryReads := g.pendingQueryReads.insert readId ⟨minAppliedIndex, context⟩ }
      else g
    let outcome ← restoringOnError g.reportedMembership begun.2
      (readOutcomeFromProofOutcome readId query begun.1)
    pure (outcome, begun.2)

/-- `read`. -/
def read (request : ReadRequest G A.Query) :
    GroupM G A R (ReadOutcome G A.QueryResult × ReportOf G A) := do
  rejectIfPoisoned
  rejectIfBelowSnapshotBoundary
  let g ← current
  match request with
  | .localRead groupId query minAppliedIndex =>
    if groupId ≠ g.groupId then fail .wrongGroup
    else do
      let outcome ← readLocal query minAppliedIndex
      pure (outcome, { groupId := g.groupId })
  | .linearizable groupId readId query minAppliedIndex context =>
    if groupId ≠ g.groupId then fail .wrongGroup
    else readLinearizable readId query minAppliedIndex context
  | .lease groupId _ _ =>
    if groupId ≠ g.groupId then fail .wrongGroup
    else fail (.unsupportedReadConsistency .leaseRead)

/-- `read_outcome`. -/
def readOutcome (request : ReadRequest G A.Query) : GroupM G A R (ReadOutcome G A.QueryResult) :=
  discardingReport (read request)

/-! ## Steps -/

/-- `validate_peer_envelope`. -/
def validatePeerEnvelope (envelope : PeerEnvelope G) : GroupM G A R Unit := do
  let g ← current
  if envelope.groupId ≠ g.groupId then fail .wrongGroup
  else if envelope.recipient ≠ g.nodeId then fail (.wrongRecipient g.nodeId envelope.recipient)
  else pure ()

/-- `membership_change_input`. -/
def MembershipChange.input : MembershipChange → Input
  | .addLearner nodeId => .addLearner nodeId
  | .promoteLearner nodeId barrier => .promoteLearner nodeId barrier
  | .removeNode nodeId => .removeVoter nodeId
  | .enterJoint target promotionBarriers => .enterJoint target promotionBarriers
  | .leaveJoint => .leaveJoint
  | .changeVoters target => .changeMembership target []

/-- A transfer that was not refused has started. -/
def startTransfer (target : NodeId) (report : ReportOf G A) : ReportOf G A :=
  if report.leadershipTransferEvents.any fun event => match event with
      | .rejected rejected _ _ => rejected = target
      | .started _ => false
  then report
  else { report with
    leadershipTransferEvents := report.leadershipTransferEvents ++ [.started target] }

/-- The dispatch of `step`. -/
def stepInput : GroupInput G A.Command → GroupM G A R (ReportOf G A)
  | .tick => do
    let outputs ← stepRuntime .tick
    applyOutputs outputs false
  | .peerMessage envelope => do
    validatePeerEnvelope envelope
    let outputs ← stepRuntime (.message envelope.sender envelope.message)
    applyOutputs outputs false
  | .proposal proposal => stepProposalInput proposal
  | .proposalBatch proposals => stepProposalBatchInput proposals
  | .readBarrier request => stepReadBarrierInput request
  | .transferLeadership target => do
    let outputs ← stepRuntime (.transferLeadership target)
    let report ← applyOutputs outputs false
    pure (startTransfer target report)
  | .membership change => do
    let outputs ← stepRuntime change.input
    applyOutputs outputs true

/-- `step`. -/
def step (input : GroupInput G A.Command) : GroupM G A R (ReportOf G A) := do
  rejectIfPoisoned
  rejectIfBelowSnapshotBoundary
  stepInput input

end

/-! ## Decomposition -/

/-- `from_parts` over what `into_parts` gave back: waiters are gone, the mark, the watermarks and
the poison travel. The caller may have driven the runtime and the state machine in between. -/
def RaftGroup.rebuild (g : RaftGroup G A R) (raft : R.State) (app : A.State) (appliedIndex : ℕ) :
    RaftGroup G A R :=
  { g with
    raft := raft
    app := app
    pendingProposals := []
    pendingReads := []
    pendingQueryReads := []
    completedQueryReads := []
    lastAppliedIndex := appliedIndex }

end Rafter.App
