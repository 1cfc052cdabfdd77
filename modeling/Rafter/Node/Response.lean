import Rafter.Node.Send

/-!
# Leader authority, reads, transfers and responses

`crates/rafter/src/node/replication/authority.rs`, `node/read_index.rs`, `node/transfer.rs`,
`node/replication/response.rs` and `node/replication/snapshot/response.rs`.
-/

namespace Rafter

namespace LeaderLease

/-- `LeaderLease::rearm`. -/
def rearm (l : LeaderLease) (nowTick nextSequence : ℕ) : LeaderLease :=
  { l with pendingBasisTick := nowTick, pendingSequence := nextSequence, acks := l.acks.clear }

/-- `LeaderLease::confirm_and_rearm`. -/
def confirmAndRearm (l : LeaderLease) (nowTick nextSequence : ℕ) : LeaderLease :=
  rearm { l with confirmedBasisTick := some l.pendingBasisTick } nowTick nextSequence

/-- `LeaderLease::holds`. -/
def holds (l : LeaderLease) (nowTick windowTicks : ℕ) : Bool :=
  l.confirmedBasisTick.any fun basis => decide (nowTick - basis < windowTicks)

end LeaderLease

namespace Node

/-! ## Authority evidence -/

/-- `Node::record_quorum_ack`. -/
def recordQuorumAck (n : Node) (followerId : NodeId) : Node :=
  { n with
    leader.quorumAcks := n.leader.quorumAcks.insert followerId n.effectiveMembershipShortcut n.id }

/-- `Node::acknowledge_read_lease`, with `LeaderLease::record_ack`. -/
def acknowledgeReadLease (n : Node) (followerId : NodeId) (sequence : ℕ) : Node :=
  if !n.config.leaseReads then n
  else if sequence < n.leader.lease.pendingSequence then n
  else
    let acks := n.leader.lease.acks.insert followerId n.effectiveMembership n.id
    let (confirmed, acks) := acks.hasQuorumWithSelf n.effectiveMembership n.id
    let lease := { n.leader.lease with acks := acks }
    if confirmed then
      { n with
        leader.lease := lease.confirmAndRearm n.leader.ticks (n.leader.heartbeatSequence + 1) }
    else { n with leader.lease := lease }

/-- `Node::tick_read_lease`. -/
def tickReadLease (n : Node) : Node :=
  if !n.config.leaseReads then n
  else if n.leader.ticks - n.leader.lease.pendingBasisTick < n.config.readLeaseTicks then n
  else
    { n with
      leader.lease := n.leader.lease.rearm n.leader.ticks (n.leader.heartbeatSequence + 1) }

/-- `Node::tick_check_quorum`: the node, and the outputs when it steps down. -/
def tickCheckQuorum (n : Node) : Node × Option (List Output) :=
  if !n.config.checkQuorum then (n, none)
  else
    let n := { n with leader.quorumCheckElapsed := n.leader.quorumCheckElapsed + 1 }
    if n.leader.quorumCheckElapsed < n.config.electionTimeoutTicks then (n, none)
    else
      let (held, acks) := n.leader.quorumAcks.hasQuorumWithSelf n.effectiveMembership n.id
      let n := { n with leader.quorumAcks := acks }
      if held then
        ({ n with leader.quorumAcks := n.leader.quorumAcks.clear, leader.quorumCheckElapsed := 0 },
          none)
      else
        let o := n.becomeFollower n.currentTerm
        ({ o.node with volatile.leaderHint := none }, some o.outputs)

/-! ## Read barriers -/

/-- `MAX_PENDING_READS`. -/
def maxPendingReads : ℕ := 1024

/-- `grant_reads`. -/
def grantReads (readIds : List ReadId) (readIndex : ℕ) : List Output :=
  readIds.map fun readId => .readIndexGranted readId readIndex

/-- `reject_reads`. -/
def rejectReads (readIds : List ReadId) (reason : ReadIndexRejection) : List Output :=
  readIds.map fun readId => .readIndexRejected readId reason

/-- `Node::has_committed_in_current_term`. -/
def hasCommittedInCurrentTerm (n : Node) : Bool :=
  decide (0 < n.commitIndex) && decide (n.termAt n.commitIndex = some n.currentTerm)

/-- `Node::lease_grant_available`. -/
def leaseGrantAvailable (n : Node) : Bool :=
  decide (n.role = .leader) && n.config.leaseReads && n.leader.pendingTransfer.isNone
    && !n.leader.depositionAuthorized && n.hasCommittedInCurrentTerm
    && n.leader.lease.holds n.leader.ticks n.config.readLeaseTicks

/-- `Node::pending_read_count`. -/
def pendingReadCount (n : Node) : ℕ := (n.leader.pendingReads.map (·.readIds.length)).sum

/-- `Node::read_index_batch` once a round of messages is needed: register the reads that fit and
start a contact round. -/
def registerReads (n : Node) (readIds : List ReadId) (acks : AcknowledgementSet) : Outcome :=
  let available := maxPendingReads - n.pendingReadCount
  if available = 0 then { node := n, outputs := rejectReads readIds .tooManyPendingReads }
  else
    let pending : PendingReadRound :=
      { readIds := readIds.take available
        readIndex := n.commitIndex
        registeredSequence := n.leader.heartbeatSequence + 1
        acks := acks }
    (broadcastAppendEntries { n with leader.pendingReads := n.leader.pendingReads ++ [pending] }
      ).andThen fun n =>
        { node := n, outputs := rejectReads (readIds.drop available) .tooManyPendingReads }

/-- `Node::read_index_batch`. -/
def readIndexBatch (n : Node) (readIds : List ReadId) : Outcome :=
  if readIds.isEmpty then { node := n, outputs := [] }
  else if n.role ≠ .leader then
    { node := n, outputs := rejectReads readIds (.notLeader n.role n.currentTerm) }
  else
    match n.leader.pendingTransfer with
    | some transfer =>
      { node := n, outputs := rejectReads readIds (.leadershipTransferInProgress transfer.target) }
    | none =>
      if !n.hasCommittedInCurrentTerm then
        { node := n, outputs := rejectReads readIds .noCommitInCurrentTerm }
      else if n.leaseGrantAvailable then
        { node := n, outputs := grantReads readIds n.commitIndex }
      else
        let (confirmed, acks) :=
          (AcknowledgementSet.new n.effectiveMembership n.id).hasQuorumWithSelf
            n.effectiveMembership n.id
        if confirmed then { node := n, outputs := grantReads readIds n.commitIndex }
        else n.registerReads readIds acks

/-- `Node::read_index`. -/
def readIndex (n : Node) (readId : ReadId) : Outcome := n.readIndexBatch [readId]

/-- Record a follower's echo on one pending round. -/
def acknowledgeRound (followerId : NodeId) (sequence : ℕ) (membership : MembershipConfig)
    (selfId : NodeId) (pending : PendingReadRound) : PendingReadRound :=
  if pending.registeredSequence ≤ sequence then
    { pending with acks := pending.acks.insert followerId membership selfId }
  else pending

/-- The `retain_mut` pass of `acknowledge_read_barriers`: the rounds kept and the grants. -/
def confirmRounds (membership : MembershipConfig) (selfId : NodeId) :
    List PendingReadRound → List PendingReadRound × List Output
  | [] => ([], [])
  | pending :: rest =>
    let (confirmed, acks) := pending.acks.hasQuorumWithSelf membership selfId
    let (kept, outputs) := confirmRounds membership selfId rest
    if confirmed then (kept, grantReads pending.readIds pending.readIndex ++ outputs)
    else ({ pending with acks := acks } :: kept, outputs)

/-- `Node::acknowledge_read_barriers`. -/
def acknowledgeReadBarriers (n : Node) (followerId : NodeId) (sequence : ℕ) : Outcome :=
  if n.leader.pendingReads.isEmpty then { node := n, outputs := [] }
  else
    let (kept, outputs) := confirmRounds n.effectiveMembership n.id
      (n.leader.pendingReads.map
        (acknowledgeRound followerId sequence n.effectiveMembership n.id))
    { node := { n with leader.pendingReads := kept }, outputs := outputs }

/-! ## Leadership transfer -/

/-- `Node::target_is_caught_up`. -/
def targetIsCaughtUp (n : Node) (target : NodeId) : Bool :=
  decide (((n.leader.progress.get target).map (·.matchIndex)).getD 0 = n.lastLogIndex)

/-- `Node::send_timeout_now`. -/
def sendTimeoutNow (n : Node) (target : NodeId) : Outcome where
  node := { n with
    leader.depositionAuthorized := true
    leader.pendingTransfer :=
      n.leader.pendingTransfer.map fun transfer => { transfer with timeoutNowSent := true } }
  outputs := [.send target (.timeoutNow { term := n.currentTerm, leaderId := n.id })]

/-- `Node::transfer_leadership`. -/
def transferLeadership (n : Node) (target : NodeId) : Outcome :=
  let rejection := fun reason : LeadershipTransferRejection =>
    ({ node := n, outputs := [.leadershipTransferRejected target reason] } : Outcome)
  if n.role ≠ .leader then rejection .notLeader
  else if target = n.id then rejection .targetIsSelf
  else if !n.isEffectiveVoter target then rejection .targetNotVoter
  else if n.leader.pendingTransfer.isSome then rejection .transferAlreadyInProgress
  else
    let n := { n with
      leader.pendingTransfer := some
        { target := target
          ticksRemaining := n.config.electionTimeoutTicks
          timeoutNowSent := false } }
    (n.drainPendingReads (.leadershipTransfer target)).andThen fun n =>
      if n.targetIsCaughtUp target then n.sendTimeoutNow target
      else n.replicateToFollower target .ensureContact

/-- `Node::tick_leadership_transfer`. -/
def tickLeadershipTransfer (n : Node) : Node :=
  match n.leader.pendingTransfer with
  | none => n
  | some transfer =>
    let transfer := { transfer with ticksRemaining := transfer.ticksRemaining - 1 }
    { n with
      leader.pendingTransfer := if transfer.ticksRemaining = 0 then none else some transfer }

/-- `Node::maybe_complete_leadership_transfer`. -/
def maybeCompleteLeadershipTransfer (n : Node) (followerId : NodeId) : Outcome :=
  match n.leader.pendingTransfer with
  | none => { node := n, outputs := [] }
  | some transfer =>
    if transfer.timeoutNowSent || decide (transfer.target ≠ followerId)
        || !n.targetIsCaughtUp followerId then { node := n, outputs := [] }
    else n.sendTimeoutNow followerId

/-! ## Append responses -/

/-- The progress update of `accept_append_response`. -/
def acceptRow (reportedMatchIndex snapshotIndex : ℕ) (row : Progress) : Progress :=
  let acknowledged := max row.matchIndex reportedMatchIndex
  let row := { row with
    matchIndex := acknowledged
    inflights := row.inflights.freeThrough acknowledged }
  let row := match row.mode with
    | .snapshot _ => if snapshotIndex ≤ acknowledged then row.confirmReplicating else row
    | _ => row.confirmReplicating
  { row with nextIndex := max row.nextIndex (acknowledged + 1) }

theorem matchIndex_acceptRow (reported k : ℕ) (row : Progress) :
    (acceptRow reported k row).matchIndex = max row.matchIndex reported := by
  unfold acceptRow
  dsimp only
  split
  · split_ifs
    · rw [Progress.matchIndex_confirmReplicating]
    · rfl
  · rw [Progress.matchIndex_confirmReplicating]

/-- `successful_ack_can_advance_commit`. -/
def successfulAckCanAdvanceCommit (oldMatchIndex acknowledged commitIndex : ℕ) : Bool :=
  decide (oldMatchIndex < acknowledged) && decide (commitIndex < acknowledged)

/-- `Node::accept_append_response`. -/
def acceptAppendResponse (n : Node) (followerId : NodeId) (reportedMatchIndex : ℕ) : Outcome :=
  let reported := min reportedMatchIndex n.lastLogIndex
  let commitIndex := n.commitIndex
  let n := n.reconcileReplicationProgress
  match n.leader.progress.get followerId with
  | none => { node := n, outputs := [] }
  | some row =>
    let canAdvance := successfulAckCanAdvanceCommit row.matchIndex (max row.matchIndex reported)
      commitIndex
    let n := n.modifyProgress followerId (acceptRow reported n.snapshotIndex)
    ((n.maybeCompleteLeadershipTransfer followerId).andThen fun n =>
      if canAdvance then n.advanceCommitIndex else { node := n, outputs := [] }).andThen
      (·.replicateToFollower followerId .progressOnly)

/-- `Node::reject_append_response`. -/
def rejectAppendResponse (n : Node) (followerId : NodeId) : Outcome :=
  let n := n.reconcileReplicationProgress
  match n.leader.progress.get followerId with
  | none => { node := n, outputs := [] }
  | some row =>
    let n := match row.mode with
      | .snapshot _ => n
      | _ => n.modifyProgress followerId (·.collapseIntoProbe n.snapshotIndex)
    n.replicateToFollower followerId .ensureContact

/-- `Node::handle_append_entries_response`. -/
def handleAppendEntriesResponse (n : Node) (followerId : NodeId)
    (response : AppendEntriesResponse) : Outcome :=
  if n.currentTerm < response.term then n.becomeFollower response.term
  else if n.role ≠ .leader ∨ response.term ≠ n.currentTerm then { node := n, outputs := [] }
  else
    let n := n.recordQuorumAck followerId
    let n := n.acknowledgeReadLease followerId response.sequence
    (n.acknowledgeReadBarriers followerId response.sequence).andThen fun n =>
      if response.success then n.acceptAppendResponse followerId response.matchIndex
      else n.rejectAppendResponse followerId

/-! ## Snapshot responses -/

/-- The offset a response acknowledges for the transfer of `snapshot`. -/
def acknowledgedOffset (snapshot : RaftSnapshot) (response : InstallSnapshotResponse) : ℕ :=
  if response.transferId = some snapshot.transferId then
    min response.nextOffset snapshot.applicationPayloadLen
  else 0

/-- The row update for an acknowledged, unfinished transfer. -/
def continueTransferRow (ackedOffset snapshotIndex : ℕ) (row : Progress) : Progress :=
  let currentOffset := match row.mode with
    | .snapshot nextOffset => nextOffset
    | _ => 0
  { row with
    mode := .snapshot (max ackedOffset currentOffset)
    inflights := {}
    nextIndex := snapshotIndex }

/-- The row update for an installed snapshot. -/
def installedRow (reportedSnapshotIndex : ℕ) (row : Progress) : Progress :=
  let acknowledged := max row.matchIndex reportedSnapshotIndex
  let row := Progress.confirmReplicating { row with matchIndex := acknowledged }
  { row with nextIndex := max row.nextIndex (acknowledged + 1) }

theorem matchIndex_installedRow (k : ℕ) (row : Progress) :
    (installedRow k row).matchIndex = max row.matchIndex k := by
  unfold installedRow
  dsimp only
  rw [Progress.matchIndex_confirmReplicating]

/-- The row update for a refused transfer. -/
def rewoundRow (rewoundOffset : Option ℕ) (snapshotIndex : ℕ) (row : Progress) : Progress :=
  let row := match rewoundOffset with
    | some nextOffset => { row with mode := .snapshot nextOffset, inflights := {} }
    | none => row
  { row with nextIndex := snapshotIndex }

/-- Update the follower's row, if it has one after reconciliation, and continue. -/
def withReconciledRow (n : Node) (followerId : NodeId) (f : Progress → Progress)
    (continuation : Node → Outcome) : Outcome :=
  let n := n.reconcileReplicationProgress
  if n.leader.progress.contains followerId then continuation (n.modifyProgress followerId f)
  else { node := n, outputs := [] }

/-- A successful response to a transfer that is still running: a boundary below the leader's, or
bytes still missing. -/
def transferUnfinished (n : Node) (response : InstallSnapshotResponse) : Option RaftSnapshot :=
  n.persistent.snapshot.filter fun snapshot =>
    decide (response.lastIncludedIndex < snapshot.metadata.lastIncludedIndex)
      || decide (response.nextOffset < snapshot.applicationPayloadLen)

/-- `Node::handle_install_snapshot_response` on a response of the leader's own term that concerns
its present snapshot. -/
def applySnapshotResponse (n : Node) (followerId : NodeId) (response : InstallSnapshotResponse) :
    Outcome :=
  if response.success then
    match n.transferUnfinished response with
    | some snapshot =>
      n.withReconciledRow followerId
        (continueTransferRow (acknowledgedOffset snapshot response)
          snapshot.metadata.lastIncludedIndex)
        (·.replicateToFollower followerId .ensureContact)
    | none =>
      n.withReconciledRow followerId
        (installedRow (min response.lastIncludedIndex n.lastLogIndex)) fun n =>
          ((n.maybeCompleteLeadershipTransfer followerId).andThen advanceCommitIndex).andThen
            (·.replicateToFollower followerId .progressOnly)
  else
    n.withReconciledRow followerId
      (rewoundRow (n.persistent.snapshot.map (acknowledgedOffset · response)) n.snapshotIndex)
      (·.replicateToFollower followerId .ensureContact)

/-- `Node::handle_install_snapshot_response`. -/
def handleInstallSnapshotResponse (n : Node) (followerId : NodeId)
    (response : InstallSnapshotResponse) : Outcome :=
  if n.currentTerm < response.term then n.becomeFollower response.term
  else if n.role ≠ .leader ∨ response.term ≠ n.currentTerm then { node := n, outputs := [] }
  else
    let n := n.recordQuorumAck followerId
    if response.transferId.isSome ∧
        n.persistent.snapshot.map RaftSnapshot.transferId ≠ response.transferId then
      { node := n, outputs := [] }
    else n.applySnapshotResponse followerId response

end Node

end Rafter
