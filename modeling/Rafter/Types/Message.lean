import Rafter.Types.Snapshot

/-!
# Peer messages, node inputs and node outputs

`crates/rafter/src/message/` and `crates/rafter/src/node/event/`. Shared entry slices and shared
payloads are lists: sharing an allocation is invisible to the protocol.
-/

namespace Rafter

/-! ## Messages -/

/-- `AppendEntries`. -/
structure AppendEntries where
  term : ℕ
  leaderId : NodeId
  prevLogIndex : ℕ
  prevLogTerm : ℕ
  sequence : ℕ
  entries : List LogEntry
  leaderCommit : ℕ
deriving DecidableEq

/-- `AppendEntriesResponse`. -/
structure AppendEntriesResponse where
  term : ℕ
  followerId : NodeId
  success : Bool
  matchIndex : ℕ
  sequence : ℕ
deriving DecidableEq

/-- `InstallSnapshot`. -/
structure InstallSnapshot where
  term : ℕ
  leaderId : NodeId
  metadata : RaftSnapshotMetadata
  applicationPayload : Payload
deriving DecidableEq

/-- `InstallSnapshotChunk`. -/
structure InstallSnapshotChunk where
  term : ℕ
  leaderId : NodeId
  transferId : SnapshotTransferId
  metadata : RaftSnapshotMetadata
  totalPayloadLen : ℕ
  applicationPayloadCrc32 : ℕ
  offset : ℕ
  chunk : Payload
  done : Bool
deriving DecidableEq

/-- `InstallSnapshotResponse`. -/
structure InstallSnapshotResponse where
  term : ℕ
  followerId : NodeId
  success : Bool
  lastIncludedIndex : ℕ
  transferId : Option SnapshotTransferId
  nextOffset : ℕ
deriving DecidableEq

/-- A vote request. `PreVote` and `RequestVote` have the same fields. -/
structure VoteRequest where
  term : ℕ
  candidateId : NodeId
  lastLogIndex : ℕ
  lastLogTerm : ℕ
deriving DecidableEq

/-- A vote answer. `PreVoteResponse` and `RequestVoteResponse` have the same fields. -/
structure VoteResponse where
  term : ℕ
  voterId : NodeId
  voteGranted : Bool
deriving DecidableEq

/-- `TimeoutNow`. -/
structure TimeoutNow where
  term : ℕ
  leaderId : NodeId
deriving DecidableEq

/-- `Message`. -/
inductive Message where
  | appendEntries (m : AppendEntries)
  | appendEntriesResponse (m : AppendEntriesResponse)
  | installSnapshot (m : InstallSnapshot)
  | installSnapshotChunk (m : InstallSnapshotChunk)
  | installSnapshotResponse (m : InstallSnapshotResponse)
  | preVote (m : VoteRequest)
  | preVoteResponse (m : VoteResponse)
  | timeoutNow (m : TimeoutNow)
  | requestVote (m : VoteRequest)
  | requestVoteResponse (m : VoteResponse)
deriving DecidableEq

/-- `SnapshotChunkSend::resolve` with a source that answers the directive with `bytes`: a source
answer of another length resolves to nothing. -/
def SnapshotChunkSend.resolve (c : SnapshotChunkSend) (bytes : Payload) :
    Option InstallSnapshotChunk :=
  if bytes.length ≠ c.len then none
  else some
    { term := c.term
      leaderId := c.leaderId
      transferId := c.transferId
      metadata := c.metadata
      totalPayloadLen := c.totalPayloadLen
      applicationPayloadCrc32 := c.applicationPayloadCrc32
      offset := c.offset
      chunk := bytes
      done := c.done }

/-! ## Roles and rejections -/

/-- `Role`. -/
inductive Role where
  | follower
  | preCandidate
  | candidate
  | leader
deriving DecidableEq

/-- `LocalProposalDropReason`. -/
inductive LocalProposalDropReason where
  | logOverwritten
  | leadershipLost
deriving DecidableEq

/-- `ReadIndexCancelReason`. -/
inductive ReadIndexCancelReason where
  | leadershipLost
  | leaderStateReset
  | leadershipTransfer (target : NodeId)
deriving DecidableEq

/-- `ReadIndexRejection`. -/
inductive ReadIndexRejection where
  | notLeader (role : Role) (term : ℕ)
  | noCommitInCurrentTerm
  | leadershipTransferInProgress (target : NodeId)
  | tooManyPendingReads
deriving DecidableEq

/-- `LeadershipTransferRejection`. -/
inductive LeadershipTransferRejection where
  | notLeader
  | targetIsSelf
  | targetNotVoter
  | transferAlreadyInProgress
deriving DecidableEq

/-- `ConfigurationProposalRejection`. -/
inductive ConfigurationProposalRejection where
  | stableConfigurationRequired (phase : ConfigurationPhase)
  | jointConfigurationRequired (phase : ConfigurationPhase)
  | uncommittedConfiguration (index : ℕ)
  | nodeAlreadyMember (nodeId : NodeId)
  | voterNotFound (nodeId : NodeId)
  | cannotRemoveLastVoter (nodeId : NodeId)
  | invalidMembership (error : MembershipValidationError)
  | targetMembershipUnchanged
  | targetMembershipDoesNotMatchJointNewSide
  | promotionTargetNotLearner (nodeId : NodeId)
  | duplicatePromotionBarrier (learnerId : NodeId)
  | unusedPromotionBarrier (learnerId : NodeId)
  | missingPromotionBarrier (learnerId : NodeId)
  | stalePromotionBarrier (learnerId : NodeId) (requiredMatchIndex suppliedMatchIndex : ℕ)
  | promotionBarrierNotReached (learnerId : NodeId) (requiredMatchIndex actualMatchIndex : ℕ)
deriving DecidableEq

/-- `ProposalRejection`. -/
inductive ProposalRejection where
  | notLeader (role : Role) (term : ℕ) (payloadLen : ℕ)
  | leadershipTransferInProgress (target : NodeId)
  | payloadTooLarge (payloadLen maxPayloadLen : ℕ)
  | configuration (rejection : ConfigurationProposalRejection)
deriving DecidableEq

/-! ## Inputs and outputs -/

/-- `Input`: what a node is stepped with. -/
inductive Input where
  | tick
  | message (sender : NodeId) (message : Message)
  | clientProposal (payload : Payload)
  | trackedClientProposal (proposalId : LocalProposalId) (payload : Payload)
  | addLearner (learnerId : NodeId)
  | promoteLearner (learnerId : NodeId) (promotionBarrier : PromotionBarrier)
  | removeVoter (voterId : NodeId)
  | enterJoint (target : MembershipSet) (promotionBarriers : List PromotionBarrier)
  | leaveJoint
  | changeMembership (target : MembershipSet) (promotionBarriers : List PromotionBarrier)
  | dangerousRawConfigurationProposal (configuration : ConfigurationEntry)
      (promotionBarriers : List PromotionBarrier)
  | transferLeadership (target : NodeId)
  | readIndex (readId : ReadId)
deriving DecidableEq

/-- `Output`: what a step asks of its caller. -/
inductive Output where
  | localProposalAppended (proposalId : LocalProposalId) (index term : ℕ)
  | localProposalDropped (proposalId : LocalProposalId) (index term : ℕ)
      (reason : LocalProposalDropReason)
  | apply (index term : ℕ) (payload : Payload) (localProposalId : Option LocalProposalId)
  | configurationCommitted (index term : ℕ) (previous : MembershipConfig)
      (configuration : ConfigurationEntry)
  | applySnapshot (snapshot : RaftSnapshot)
  | sendSnapshotChunk (recipient : NodeId) (chunk : SnapshotChunkSend)
  | stageSnapshotChunk (chunk : StagedSnapshotChunk)
  | rejectProposal (proposalId : Option LocalProposalId) (reason : ProposalRejection)
  | leadershipTransferRejected (target : NodeId) (reason : LeadershipTransferRejection)
  | readIndexGranted (readId : ReadId) (readIndex : ℕ)
  | readIndexRejected (readId : ReadId) (reason : ReadIndexRejection)
  | readIndexCanceled (readId : ReadId) (reason : ReadIndexCancelReason)
  | send (recipient : NodeId) (message : Message)
deriving DecidableEq

end Rafter
