import Rafter.Node.Election
import Rafter.Node.Proposal
import Rafter.Node.Receive
import Rafter.Node.SnapshotReceive

/-!
# The input boundary

`crates/rafter/src/node/dispatch.rs`: every input of a node passes through `Node.step`.
-/

namespace Rafter

/-- The sender a message names, as `message_sender_matches` reads it. -/
def Message.senderId : Message → NodeId
  | .appendEntries m => m.leaderId
  | .appendEntriesResponse m => m.followerId
  | .installSnapshot m => m.leaderId
  | .installSnapshotChunk m => m.leaderId
  | .installSnapshotResponse m => m.followerId
  | .preVote m => m.candidateId
  | .preVoteResponse m => m.voterId
  | .timeoutNow m => m.leaderId
  | .requestVote m => m.candidateId
  | .requestVoteResponse m => m.voterId

namespace Node

/-- `Node::receive`, once the sender is known to match. -/
def receiveMatched (n : Node) (sender : NodeId) : Message → Outcome
  | .appendEntries request => n.handleAppendEntries sender request
  | .appendEntriesResponse response => n.handleAppendEntriesResponse sender response
  | .installSnapshot request => n.handleInstallSnapshot sender request
  | .installSnapshotChunk request => n.handleInstallSnapshotChunk sender request
  | .installSnapshotResponse response => n.handleInstallSnapshotResponse sender response
  | .preVote request => n.handlePreVote sender request
  | .preVoteResponse response => n.handlePreVoteResponse sender response
  | .timeoutNow request => n.handleTimeoutNow request.term
  | .requestVote request => n.handleRequestVote sender request
  | .requestVoteResponse response => n.handleRequestVoteResponse sender response

/-- `Node::receive`. -/
def receive (n : Node) (sender : NodeId) (message : Message) : Outcome :=
  if message.senderId = sender then n.receiveMatched sender message
  else { node := n, outputs := [] }

/-- `Node::step`. -/
def step (n : Node) : Input → Outcome
  | .tick => n.tick
  | .message sender message => n.receive sender message
  | .clientProposal payload => n.stepClientProposal ⟨none, payload⟩
  | .trackedClientProposal proposalId payload => n.stepClientProposal ⟨some proposalId, payload⟩
  | .addLearner learnerId => n.addLearner learnerId
  | .promoteLearner learnerId barrier => n.promoteLearner learnerId barrier
  | .removeVoter voterId => n.removeVoter voterId
  | .enterJoint target barriers => n.enterJoint target barriers
  | .leaveJoint => n.leaveJoint
  | .changeMembership target barriers => n.changeMembership target barriers
  | .dangerousRawConfigurationProposal configuration barriers =>
    n.dangerousRawConfigurationProposal configuration barriers
  | .transferLeadership target => n.transferLeadership target
  | .readIndex readId => n.readIndex readId

end Node

end Rafter
