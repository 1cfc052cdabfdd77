import Rafter.Node.Progress
import Rafter.Types.Message

/-!
# Node configuration and state

`crates/rafter/src/node/config/`, `node/state/` and `node/mod.rs`.

`NodeConfig` carries that the election timeout is at least one tick, which both constructors
check. The configured peer and voter lists are left out: no transition reads them beyond the
static membership they determine.
-/

namespace Rafter

/-! ## Configuration -/

/-- `DEFAULT_MAX_APPEND_ENTRIES_BYTES`. -/
def defaultMaxAppendEntriesBytes : ℕ := 512 * 1024

/-- `DEFAULT_MAX_INFLIGHT_APPENDS`. -/
def defaultMaxInflightAppends : ℕ := 8

/-- `DEFAULT_MAX_INFLIGHT_BYTES`. -/
def defaultMaxInflightBytes : ℕ := defaultMaxInflightAppends * defaultMaxAppendEntriesBytes

/-- `NodeConfig`. -/
structure NodeConfig where
  id : NodeId
  staticMembership : MembershipConfig
  electionTimeoutTicks : ℕ
  electionTimeoutTicks_pos : 0 < electionTimeoutTicks
  electionJitterTicks : ℕ := 0
  requestedHeartbeatIntervalTicks : ℕ := 1
  maxAppendEntriesBytes : ℕ := defaultMaxAppendEntriesBytes
  maxInflightAppends : ℕ := defaultMaxInflightAppends
  maxInflightBytes : ℕ := defaultMaxInflightBytes
  requestedPreVote : Bool := true
  requestedCheckQuorum : Bool := true
  requestedLeaseReads : Bool := false
deriving DecidableEq

namespace NodeConfig

/-- `NodeConfig::pre_vote`. -/
def preVote (c : NodeConfig) : Bool := c.requestedPreVote

/-- `NodeConfig::check_quorum`. -/
def checkQuorum (c : NodeConfig) : Bool :=
  c.requestedCheckQuorum && decide (2 ≤ c.electionTimeoutTicks)

/-- `NodeConfig::lease_reads`. -/
def leaseReads (c : NodeConfig) : Bool := c.requestedLeaseReads && c.preVote && c.checkQuorum

/-- `NodeConfig::heartbeat_interval_ticks`. -/
def heartbeatIntervalTicks (c : NodeConfig) : ℕ :=
  let requested := max c.requestedHeartbeatIntervalTicks 1
  if c.checkQuorum then min requested (max (c.electionTimeoutTicks - 1) 1) else requested

/-- `NodeConfig::read_lease_ticks`. -/
def readLeaseTicks (c : NodeConfig) : ℕ := c.electionTimeoutTicks / 2

end NodeConfig

/-! ## Local proposals -/

/-- `LocalProposal`. -/
structure LocalProposal where
  term : ℕ
  id : LocalProposalId
deriving DecidableEq

/-- `LocalProposalTracker`: proposals in log order. -/
abbrev LocalProposalTracker := List (ℕ × LocalProposal)

namespace LocalProposalTracker

/-- `LocalProposalTracker::insert_out_of_order`. -/
def insertOutOfOrder (index : ℕ) (p : LocalProposal) : LocalProposalTracker → LocalProposalTracker
  | [] => [(index, p)]
  | (i, q) :: rest =>
    if i = index then (index, p) :: rest
    else if index < i then (index, p) :: (i, q) :: rest
    else (i, q) :: insertOutOfOrder index p rest

/-- `LocalProposalTracker::insert`. -/
def insert (t : LocalProposalTracker) (index : ℕ) (p : LocalProposal) : LocalProposalTracker :=
  match t.getLast? with
  | none => [(index, p)]
  | some (lastIndex, _) =>
    if lastIndex = index then t.dropLast ++ [(index, p)]
    else if lastIndex < index then t ++ [(index, p)]
    else insertOutOfOrder index p t

/-- `LocalProposalTracker::remove`: the removed proposal and the rest. -/
def remove (t : LocalProposalTracker) (index : ℕ) : Option LocalProposal × LocalProposalTracker :=
  ((t.find? fun e => e.1 = index).map (·.2), t.eraseP fun e => e.1 = index)

/-- `LocalProposalTracker::split_off`: the kept head and the split tail. -/
def splitOff (t : LocalProposalTracker) (index : ℕ) : LocalProposalTracker × LocalProposalTracker :=
  (t.takeWhile fun e => e.1 < index, t.dropWhile fun e => e.1 < index)

end LocalProposalTracker

/-! ## Configuration index -/

/-- Offsets of the configuration entries of the retained log. -/
abbrev ConfigurationIndex := List ℕ

namespace ConfigurationIndex

/-- `ConfigurationIndex::from_log`. -/
def fromLog (log : List LogEntry) : ConfigurationIndex :=
  log.zipIdx.filterMap fun (entry, offset) => if entry.isConfiguration then some offset else none

/-- `ConfigurationIndex::record_append`. -/
def recordAppend (c : ConfigurationIndex) (offset : ℕ) (entry : LogEntry) : ConfigurationIndex :=
  if entry.isConfiguration then c ++ [offset] else c

/-- `ConfigurationIndex::truncate`. -/
def truncate (c : ConfigurationIndex) (retainedLogLen : ℕ) : ConfigurationIndex :=
  c.filter (· < retainedLogLen)

/-- `ConfigurationIndex::compact_prefix`: the offsets are sorted, so the partition point ends the
leading run below `retiredLogLen`. -/
def compactPrefix (c : ConfigurationIndex) (retiredLogLen : ℕ) : ConfigurationIndex :=
  (c.dropWhile (· < retiredLogLen)).map (· - retiredLogLen)

/-- `configuration_entry_at`. -/
def entryAt (log : List LogEntry) (offset : ℕ) : Option ConfigurationEntry :=
  log[offset]?.bind (·.configurationEntry)

/-- `ConfigurationIndex::effective_entry`. -/
def effectiveEntry (c : ConfigurationIndex) (log : List LogEntry) : Option ConfigurationEntry :=
  c.getLast?.bind (entryAt log)

/-- `ConfigurationIndex::entry_at_or_before`. -/
def entryAtOrBefore (c : ConfigurationIndex) (firstLogIndex : ℕ) (log : List LogEntry)
    (index : ℕ) : Option ConfigurationEntry :=
  c.reverse.findSome? fun offset =>
    if firstLogIndex + offset ≤ index then entryAt log offset else none

/-- `ConfigurationIndex::committed_entry`. -/
def committedEntry (c : ConfigurationIndex) (firstLogIndex : ℕ) (log : List LogEntry)
    (commitIndex : ℕ) : Option ConfigurationEntry :=
  (c.reverse.find? fun offset => firstLogIndex + offset ≤ commitIndex).bind (entryAt log)

/-- `ConfigurationIndex::committed_state_at`. -/
def committedStateAt (c : ConfigurationIndex) (firstLogIndex : ℕ) (log : List LogEntry)
    (commitIndex : ℕ) : Option CommittedConfiguration :=
  c.reverse.findSome? fun offset =>
    if commitIndex < firstLogIndex + offset then none
    else (entryAt log offset).map fun entry =>
      { index := firstLogIndex + offset, configId := entry.configId }

/-- `ConfigurationIndex::indexes_after`. -/
def indexesAfter (c : ConfigurationIndex) (firstLogIndex floor : ℕ) : List ℕ :=
  (c.map (firstLogIndex + ·)).filter (floor < ·)

/-- `ConfigurationIndex::count_between`. -/
def countBetween (c : ConfigurationIndex) (firstLogIndex lowerExclusive upperExclusive : ℕ) : ℕ :=
  ((c.map (firstLogIndex + ·)).filter fun i =>
    decide (lowerExclusive < i) && decide (i < upperExclusive)).length

end ConfigurationIndex

/-! ## Node state -/

/-- State that survives a restart. -/
structure PersistentState where
  currentTerm : ℕ := 0
  votedFor : Option NodeId := none
  committedConfiguration : Option CommittedConfiguration := none
  snapshot : Option RaftSnapshot := none
  log : List LogEntry := []
deriving DecidableEq

/-- `IncomingSnapshotTransfer`: the fields of a pending transfer. -/
abbrev IncomingSnapshotTransfer := PendingSnapshotTransfer

/-- `VolatileState`. -/
structure VolatileState where
  role : Role := .follower
  commitIndex : ℕ := 0
  dispatchedIndex : ℕ := 0
  localProposals : LocalProposalTracker := []
  incomingSnapshot : Option IncomingSnapshotTransfer := none
  leaderHint : Option NodeId := none
  snapshotChunkRejections : SnapshotChunkRejectionCounters := {}
deriving DecidableEq

/-- `ElectionState`. -/
structure ElectionState where
  elapsed : ℕ := 0
  votes : List NodeId := []
  preVotes : List NodeId := []
deriving DecidableEq

/-- `LeaderLease`. -/
structure LeaderLease where
  pendingBasisTick : ℕ := 0
  pendingSequence : ℕ := 0
  acks : AcknowledgementSet := {}
  confirmedBasisTick : Option ℕ := none
deriving DecidableEq

/-- `PendingReadRound`. -/
structure PendingReadRound where
  readIds : List ReadId
  readIndex : ℕ
  registeredSequence : ℕ
  acks : AcknowledgementSet
deriving DecidableEq

/-- `PendingLeadershipTransfer`. -/
structure PendingLeadershipTransfer where
  target : NodeId
  ticksRemaining : ℕ
  timeoutNowSent : Bool
deriving DecidableEq

/-- State meaningful only while this node is leader. -/
structure LeaderState where
  progress : ProgressSet := default
  ticks : ℕ := 0
  lease : LeaderLease := {}
  pendingTransfer : Option PendingLeadershipTransfer := none
  depositionAuthorized : Bool := false
  heartbeatSequence : ℕ := 0
  heartbeatElapsed : ℕ := 0
  quorumAcks : AcknowledgementSet := {}
  quorumCheckElapsed : ℕ := 0
  pendingReads : List PendingReadRound := []
deriving DecidableEq

/-- `Node`: configuration, durable and volatile state. -/
structure Node where
  config : NodeConfig
  persistent : PersistentState := {}
  volatile : VolatileState := {}
  election : ElectionState := {}
  leader : LeaderState := {}
  configuration : ConfigurationIndex := []
deriving DecidableEq

/-- `Node::new`. -/
def Node.new (config : NodeConfig) : Node := { config := config }

/-- What a transition leaves behind: the node and its outputs in order. -/
structure Outcome where
  node : Node
  outputs : List Output

/-- Run a second transition on the node a first one left, appending its outputs. -/
def Outcome.andThen (o : Outcome) (f : Node → Outcome) : Outcome where
  node := (f o.node).node
  outputs := o.outputs ++ (f o.node).outputs

@[simp] theorem Outcome.andThen_node (o : Outcome) (f : Node → Outcome) :
    (o.andThen f).node = (f o.node).node := rfl

@[simp] theorem Outcome.andThen_outputs (o : Outcome) (f : Node → Outcome) :
    (o.andThen f).outputs = o.outputs ++ (f o.node).outputs := rfl

end Rafter
