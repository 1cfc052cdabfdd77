import Rafter.Node.Log

/-!
# Role transitions and commitment

`crates/rafter/src/node/lifecycle.rs`, `node/replication/progress.rs`, `node/commit/advance.rs`
and `node/commit/emit.rs`.
-/

namespace Rafter

namespace Node

/-! ## Losing leadership -/

/-- `Node::drain_local_proposals`. -/
def drainLocalProposals (n : Node) (reason : LocalProposalDropReason) : Outcome where
  node := { n with volatile.localProposals := [] }
  outputs := dropOutputs reason n.volatile.localProposals

/-- `Node::drain_pending_reads`. -/
def drainPendingReads (n : Node) (reason : ReadIndexCancelReason) : Outcome where
  node := { n with leader.pendingReads := [] }
  outputs := n.leader.pendingReads.flatMap fun pending =>
    pending.readIds.map fun readId => .readIndexCanceled readId reason

/-- The state changes of `Node::become_follower` after its two drains. -/
def followerState (n : Node) (term : ℕ) : Node :=
  { n with
    persistent.votedFor := if n.currentTerm < term then none else n.persistent.votedFor
    persistent.currentTerm := max n.currentTerm term
    volatile.leaderHint := if n.currentTerm < term then none else n.volatile.leaderHint
    volatile.role := .follower
    election := {}
    leader := {} }

/-- `Node::become_follower`. -/
def becomeFollower (n : Node) (term : ℕ) : Outcome :=
  ((n.drainLocalProposals .leadershipLost).andThen
    (·.drainPendingReads .leadershipLost)).andThen
    fun n => { node := n.followerState term, outputs := [] }

/-! ## Committed outputs -/

/-- `Node::membership_before`. -/
def membershipBefore (n : Node) (index : ℕ) : MembershipConfig := n.membershipAtIndex (index - 1)

/-- `Node::step_down_if_removed`. -/
def stepDownIfRemoved (n : Node) (committedMembership : MembershipConfig) : Outcome :=
  if n.role = .leader ∧ !committedMembership.containsVoter n.id then
    n.becomeFollower n.currentTerm
  else { node := n, outputs := [] }

/-- The body of the loop of `emit_committed_outputs` for the entry at `index`. -/
def emitEntry (n : Node) (index : ℕ) (entry : LogEntry) : Outcome :=
  let (proposal, rest) := LocalProposalTracker.remove n.volatile.localProposals index
  let n := { n with volatile.dispatchedIndex := index, volatile.localProposals := rest }
  match entry.kind with
  | .application payload =>
    let localProposalId := proposal.bind fun p => if p.term = entry.term then some p.id else none
    { node := n, outputs := [.apply index entry.term payload localProposalId] }
  | .configuration configuration =>
    Outcome.andThen
      { node := n
        outputs := [.configurationCommitted index entry.term (n.membershipBefore index)
          configuration] }
      (·.stepDownIfRemoved configuration.membershipConfig)
  | .noop => { node := n, outputs := [] }

/-- The loop of `emit_committed_outputs`; each turn moves the dispatch cursor by one. -/
def emitLoop : ℕ → Node → Outcome
  | 0, n => { node := n, outputs := [] }
  | fuel + 1, n =>
    if n.dispatchedIndex < n.commitIndex then
      match n.entryAt (n.dispatchedIndex + 1) with
      | none => { node := n, outputs := [] }
      | some entry => (n.emitEntry (n.dispatchedIndex + 1) entry).andThen (emitLoop fuel)
    else { node := n, outputs := [] }

/-- `Node::emit_committed_outputs`. -/
def emitCommittedOutputs (n : Node) : Outcome := emitLoop (n.commitIndex - n.dispatchedIndex) n

/-! ## Leader progress and commitment -/

/-- `Node::reconcile_replication_progress`. -/
def reconcileReplicationProgress (n : Node) : Node :=
  if n.role ≠ .leader then n
  else { n with
    leader.progress := n.leader.progress.reconcileMembership n.effectiveMembershipShortcut n.id
      (n.snapshotIndex + 1) n.lastLogIndex }

/-- `Node::record_local_progress`. -/
def recordLocalProgress (n : Node) : Node :=
  let n := n.reconcileReplicationProgress
  { n with
    leader.progress := n.leader.progress.modify n.id fun row =>
      { row with matchIndex := n.lastLogIndex, nextIndex := n.lastLogIndex + 1 } }

/-- `Node::advance_commit_index_into`. -/
def advanceCommitIndex (n : Node) : Outcome :=
  let n := n.reconcileReplicationProgress
  match quorumReplicatedIndex n.leader.progress with
  | none => { node := n, outputs := [] }
  | some candidate =>
    if candidate ≤ n.commitIndex then { node := n, outputs := [] }
    else if n.termAt candidate ≠ some n.currentTerm then { node := n, outputs := [] }
    else emitCommittedOutputs { n with volatile.commitIndex := candidate }

/-! ## Gaining leadership -/

/-- `Node::become_leader` up to its commit attempt: the leader's state and its first entry. -/
def leaderState (n : Node) : Node :=
  let n := { n with
    volatile.role := .leader
    volatile.leaderHint := some n.id
    volatile.incomingSnapshot := none
    election.elapsed := 0
    election.preVotes := []
    leader := {} }
  let n := n.appendLogEntry { term := n.currentTerm, kind := .noop }
  { n with
    leader.progress :=
      ProgressSet.reset n.effectiveMembership n.id n.lastLogIndex n.lastLogIndex }

/-- `Node::become_leader`. -/
def becomeLeader (n : Node) : Outcome := n.leaderState.advanceCommitIndex

end Node

end Rafter
