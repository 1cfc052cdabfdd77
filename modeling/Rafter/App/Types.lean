import Rafter.App.Event
import Rafter.Node.Batch

/-!
# The interfaces of a group

The two sides a group is built over, as `crates/rafter-app` sees them: the application
(`state_machine.rs`) and the persisted runtime (`rafter-runtime`'s `PersistedRaftRuntime`). The
values that cross them, and what a group hands its caller (`proposal.rs`, `read.rs`, `snapshot.rs`,
`error/group_error.rs`, `group/state.rs`). The metrics of a report are left out.
-/

namespace Rafter.App

/-! ## The application -/

/-- A committed command on its way to the application (`ApplyEntry`). -/
structure ApplyEntry (C : Type) where
  index : ℕ
  term : ℕ
  command : C
  localProposalId : Option LocalProposalId
deriving DecidableEq

/-- `ApplyResult`. -/
structure ApplyResult (R : Type) where
  index : ℕ
  term : ℕ
  result : R
  localProposalId : Option LocalProposalId
deriving DecidableEq

/-- `ReadBarrier`. -/
structure ReadBarrier where
  requiredAppliedIndex : ℕ
  localAppliedIndex : ℕ
deriving DecidableEq

/-- `ApplicationSnapshot`. -/
structure ApplicationSnapshot where
  appliedIndex : ℕ
  payload : Payload
  raftSnapshot : Option RaftSnapshot
deriving DecidableEq

/-- `SnapshotSupport`. -/
inductive SnapshotSupport where
  | supported
  | unsupported
deriving DecidableEq

/-- `ApplicationSnapshotError`. -/
inductive ApplicationSnapshotError (E : Type) where
  | unsupported
  | stateMachine (source : E)

/-- The application of a group (`ReplicatedStateMachine`). -/
structure ReplicatedStateMachine where
  State : Type
  Command : Type
  CommandResult : Type
  Query : Type
  QueryResult : Type
  Error : Type
  snapshotSupport : SnapshotSupport
  appliedIndex : State → Except Error ℕ
  encodeCommand : State → Command → Except Error Payload
  decodeCommand : State → Payload → Except Error Command
  applyBatch : State → List (ApplyEntry Command) →
    Except Error (List (ApplyResult CommandResult)) × State
  read : State → Query → ReadBarrier → Except Error QueryResult
  installSnapshot : State → ApplicationSnapshot → Except
    (ApplicationSnapshotError Error) Unit × State

/-! ## The runtime -/

/-- The runtime of a group (`PersistedRaftRuntime`): what a group reads of it and how it steps
it. -/
structure PersistedRaftRuntime where
  State : Type
  Error : Type
  leaderHint : State → Option NodeId
  currentTerm : State → ℕ
  commitIndex : State → ℕ
  lastLogIndex : State → ℕ
  snapshotIndex : State → ℕ
  snapshot : State → Option RaftSnapshot
  committedApplicationIndexThrough : State → ℕ → ℕ
  membership : State → MembershipConfig
  committedMembership : State → MembershipConfig
  termAtIndex : State → ℕ → Option ℕ
  step : State → Input → Except Error (List Output) × State
  stepProposalBatch : State → List ClientProposalInput → Except Error (List Output) × State

/-! ## Requests -/

/-- `ClientRequestId`. -/
structure ClientRequestId where
  clientId : ℕ
  sequence : ℕ
deriving DecidableEq

/-- `Proposal`. -/
structure Proposal (C : Type) where
  localProposalId : LocalProposalId
  clientRequestId : Option ClientRequestId
  command : C

/-- `ReadConsistency`. -/
inductive ReadConsistency where
  | linearizable
  | leaseRead
  | localRead
deriving DecidableEq

/-- `ReadRequest`. -/
inductive ReadRequest (G Q : Type) where
  | localRead (groupId : G) (query : Q) (minAppliedIndex : Option ℕ)
  | linearizable (groupId : G) (readId : ReadId) (query : Q) (minAppliedIndex : Option ℕ)
      (context : Payload)
  | lease (groupId : G) (query : Q) (minAppliedIndex : Option ℕ)

/-- `ReadBarrierRequest`. -/
structure ReadBarrierRequest (G : Type) where
  groupId : G
  readId : ReadId
  minAppliedIndex : Option ℕ
  context : Payload

/-- `PeerEnvelope`. -/
structure PeerEnvelope (G : Type) where
  groupId : G
  sender : NodeId
  recipient : NodeId
  message : Message
deriving DecidableEq

/-- `MembershipChange`; the metadata of a learner's `NodeInfo` never reaches the kernel. -/
inductive MembershipChange where
  | addLearner (nodeId : NodeId)
  | promoteLearner (nodeId : NodeId) (barrier : PromotionBarrier)
  | removeNode (nodeId : NodeId)
  | enterJoint (target : MembershipSet) (promotionBarriers : List PromotionBarrier)
  | leaveJoint
  | changeVoters (target : MembershipSet)

/-- `GroupInput`. -/
inductive GroupInput (G C : Type) where
  | tick
  | peerMessage (envelope : PeerEnvelope G)
  | proposal (proposal : Proposal C)
  | proposalBatch (proposals : List (Proposal C))
  | readBarrier (request : ReadBarrierRequest G)
  | transferLeadership (target : NodeId)
  | membership (change : MembershipChange)

/-! ## Events and outcomes -/

/-- `ProposalUnknownOutcomeReason`. -/
inductive ProposalUnknownOutcomeReason where
  | localProposalDropped (index term : ℕ) (reason : LocalProposalDropReason)
  | groupPoisoned
  | lifecycleUnreported
deriving DecidableEq

/-- `ProposalEvent`. -/
inductive ProposalEvent (R : Type) where
  | appended (localProposalId : LocalProposalId) (index term : ℕ)
  | applied (localProposalId : LocalProposalId) (index term : ℕ) (result : R)
  | rejected (localProposalId : LocalProposalId) (reason : ProposalRejection)
      (leaderHint : Option NodeId)
  | unknownOutcome (localProposalId : LocalProposalId) (clientRequestId : Option ClientRequestId)
      (reason : ProposalUnknownOutcomeReason)
deriving DecidableEq

/-- `ProposalBegin`. -/
inductive ProposalBegin (G R : Type) where
  | appended (groupId : G) (localProposalId : LocalProposalId) (index term : ℕ)
      (peerMessages : List (PeerEnvelope G))
  | completed (groupId : G) (localProposalId : LocalProposalId) (index term : ℕ) (result : R)
      (peerMessages : List (PeerEnvelope G))
  | rejected (groupId : G) (localProposalId : LocalProposalId) (reason : ProposalRejection)
      (leaderHint : Option NodeId)
  | unknownOutcome (groupId : G) (localProposalId : LocalProposalId)
      (clientRequestId : Option ClientRequestId) (reason : ProposalUnknownOutcomeReason)
      (peerMessages : List (PeerEnvelope G))

/-- `ReadProof`. -/
structure ReadProof (G : Type) where
  groupId : G
  issuedBy : NodeId
  term : ℕ
  readIndex : ℕ
  requiredAppliedIndex : ℕ
  localAppliedIndex : ℕ
deriving DecidableEq

/-- `ReadEvent`. -/
inductive ReadEvent (G : Type) where
  | granted (readId : ReadId) (proof : ReadProof G)
  | rejected (readId : ReadId) (reason : ReadIndexRejection) (leaderHint : Option NodeId)
  | canceled (readId : ReadId) (reason : ReadIndexCancelReason) (leaderHint : Option NodeId)
  | freshnessUnavailable (readId : ReadId) (requiredAppliedIndex localAppliedIndex : ℕ)
deriving DecidableEq

/-- `ReadProofOutcome`. -/
inductive ReadProofOutcome (G : Type) where
  | granted (proof : ReadProof G)
  | pending (readId : ReadId) (peerMessages : List (PeerEnvelope G))
  | rejected (readId : ReadId) (reason : ReadIndexRejection) (leaderHint : Option NodeId)
  | canceled (readId : ReadId) (reason : ReadIndexCancelReason) (leaderHint : Option NodeId)
  | freshnessUnavailable (readId : ReadId) (requiredAppliedIndex localAppliedIndex : ℕ)

/-- `ReadOutcome`. -/
inductive ReadOutcome (G R : Type) where
  | ready (result : R) (proof : Option (ReadProof G))
  | pending (readId : ReadId) (peerMessages : List (PeerEnvelope G))
  | rejected (readId : ReadId) (reason : ReadIndexRejection) (leaderHint : Option NodeId)
  | canceled (readId : ReadId) (reason : ReadIndexCancelReason) (leaderHint : Option NodeId)
  | linearizableFreshnessUnavailable (readId : ReadId)
      (requiredAppliedIndex localAppliedIndex : ℕ)
  | localFreshnessUnavailable (requiredAppliedIndex localAppliedIndex : ℕ)

/-- `LeadershipTransferEvent`. -/
inductive LeadershipTransferEvent where
  | started (target : NodeId)
  | rejected (target : NodeId) (reason : LeadershipTransferRejection) (leaderHint : Option NodeId)
deriving DecidableEq

/-- `SnapshotEvent`. -/
inductive SnapshotEvent (G : Type) where
  | apply (groupId : G) (snapshot : RaftSnapshot)
  | stageChunk (groupId : G) (chunk : StagedSnapshotChunk)
  | sendChunk (groupId : G) (recipient : NodeId) (chunk : SnapshotChunkSend)
deriving DecidableEq

/-- What one call tells its caller (`GroupStepReport`). -/
structure GroupStepReport (G R : Type) where
  groupId : G
  peerMessages : List (PeerEnvelope G) := []
  applied : List (ApplyResult R) := []
  proposalEvents : List (ProposalEvent R) := []
  readEvents : List (ReadEvent G) := []
  leadershipTransferEvents : List LeadershipTransferEvent := []
  snapshotEvents : List (SnapshotEvent G) := []
  membershipEvents : List (MembershipEvent G) := []
deriving DecidableEq

/-! ## Errors -/

/-- `StateMachineOperation`. -/
inductive StateMachineOperation where
  | appliedIndex
  | encodeCommand
  | decodeCommand
  | applyBatch
  | read
  | installSnapshot
deriving DecidableEq

/-- The name an operation has in a poison reason. -/
def StateMachineOperation.name : StateMachineOperation → String
  | .appliedIndex => "AppliedIndex"
  | .encodeCommand => "EncodeCommand"
  | .decodeCommand => "DecodeCommand"
  | .applyBatch => "ApplyBatch"
  | .read => "Read"
  | .installSnapshot => "InstallSnapshot"

/-- `GroupError`. -/
inductive GroupError (E R : Type) where
  | runtime (error : R)
  | stateMachine (operation : StateMachineOperation) (source : E)
  | applyResultCountMismatch (expected actual : ℕ)
  | applyResultMetadataMismatch (expectedIndex actualIndex expectedTerm actualTerm : ℕ)
      (expectedLocalProposalId actualLocalProposalId : Option LocalProposalId)
  | applyEntryAlreadyApplied (entryIndex appAppliedIndex groupAppliedIndex : ℕ)
  | appliedIndexBehind (required actual : ℕ)
  | appliedIndexBelowSnapshotBoundary (appAppliedIndex snapshotIndex : ℕ)
  | snapshotRestoreRequired (appAppliedIndex snapshotIndex entryIndex : ℕ)
  | malformedSnapshot (reason : String)
  | snapshotsUnsupported (snapshotIndex : ℕ)
  | snapshotSupportMisdeclared (snapshotIndex : ℕ)
  | poisoned (reason : String) (cause : Option E)
  | wrongGroup
  | wrongRecipient (expected actual : NodeId)
  | nonMonotonicLocalProposalId (localProposalId lastSeenLocalProposalId : LocalProposalId)
  | duplicateReadId (readId : ReadId)
  | nonMonotonicReadId (readId lastSeenReadId : ReadId)
  | unsupportedReadConsistency (consistency : ReadConsistency)

end Rafter.App
