import Rafter.Node.Commit

/-!
# Follower-side `AppendEntries`

`crates/rafter/src/node/replication/receive.rs`.
-/

namespace Rafter

/-- `AppendRejection`. -/
inductive AppendRejection where
  | committedEntryConflict (index : ℕ)
  | overlappingConfigurationChanges
deriving DecidableEq

namespace Node

/-- `Node::append_entries_response`. -/
def appendEntriesResponse (n : Node) (leaderId : NodeId) (success : Bool)
    (matchIndex sequence : ℕ) : Output :=
  .send leaderId (.appendEntriesResponse
    { term := n.currentTerm
      followerId := n.id
      success := success
      matchIndex := matchIndex
      sequence := sequence })

/-- `Node::accept_append_entries`. -/
def acceptAppendEntries (n : Node) (leaderId : NodeId) (matchIndex sequence : ℕ) : Output :=
  n.appendEntriesResponse leaderId true matchIndex sequence

/-- `Node::reject_append_entries`. -/
def rejectAppendEntries (n : Node) (leaderId : NodeId) (sequence : ℕ) : Output :=
  n.appendEntriesResponse leaderId false 0 sequence

/-- `request_match_index`, a sum without the bound of `u64`. -/
def requestMatchIndex (prevLogIndex entryCount : ℕ) : ℕ := prevLogIndex + entryCount

/-- `Node::confirmed_commit_index`. -/
def confirmedCommitIndex (n : Node) (request : AppendEntries) (matchIndex : ℕ) : ℕ :=
  max n.commitIndex (min request.leaderCommit matchIndex)

/-- The first loop of `splice_entries_after`, with the index of the next entry: the entries from
the first divergence on and its index, nothing when the whole batch matches, or the conflict with
a committed entry. -/
def findDivergence (n : Node) :
    List LogEntry → ℕ → Except AppendRejection (Option (List LogEntry × ℕ))
  | [], _ => .ok none
  | entry :: rest, index =>
    match n.termAt index with
    | some existingTerm =>
      if existingTerm = entry.term then n.findDivergence rest (index + 1)
      else if index ≤ n.commitIndex then .error (.committedEntryConflict index)
      else .ok (some (entry :: rest, index))
    | none => .ok (some (entry :: rest, index))

/-- The incoming configuration entries above the floor, when the first entry is at `firstIndex`. -/
def incomingConfigurations (entries : List LogEntry) (firstIndex floor : ℕ) : List LogEntry :=
  (entries.zipIdx firstIndex).filterMap fun (entry, index) =>
    if floor < index ∧ entry.isConfiguration then some entry else none

/-- `Node::splice_entries_after` after its first loop, with the sums it makes. -/
def spliceFrom (n : Node) (divergence : Except AppendRejection (Option (List LogEntry × ℕ)))
    (incomingOf : List LogEntry → ℕ → ℕ → List LogEntry) (firstRetained lastIndex : ℕ)
    (configurationCommitFloor : ℕ) : Except AppendRejection Outcome :=
  match divergence with
  | .error rejection => .error rejection
  | .ok none => .ok { node := n, outputs := [] }
  | .ok (some (entries, firstIndex)) =>
    let surviving := n.configuration.countBetween firstRetained configurationCommitFloor firstIndex
    let incoming := incomingOf entries firstIndex configurationCommitFloor
    if incoming.any (·.term = n.currentTerm) && decide (1 < surviving + incoming.length) then
      .error .overlappingConfigurationChanges
    else
      let truncated := if firstIndex ≤ lastIndex then n.truncateFrom firstIndex .logOverwritten
        else { node := n, outputs := [] }
      .ok { truncated with node := entries.foldl appendLogEntry truncated.node }

/-- `Node::splice_entries_after`. -/
def spliceEntriesAfter (n : Node) (prevLogIndex : ℕ) (entries : List LogEntry)
    (configurationCommitFloor : ℕ) : Except AppendRejection Outcome :=
  n.spliceFrom (n.findDivergence entries (prevLogIndex + 1)) incomingConfigurations
    (n.snapshotIndex + 1) n.lastLogIndex configurationCommitFloor

/-- The commit part of `handle_append_entries`. -/
def adoptLeaderCommit (n : Node) (leaderCommit confirmedCommitIndex : ℕ) : Outcome :=
  if n.commitIndex < leaderCommit then
    emitCommittedOutputs { n with volatile.commitIndex := confirmedCommitIndex }
  else { node := n, outputs := [] }

/-- `Node::handle_append_entries` on a request of the node's own term, after the role change. -/
def appendAsFollowerBy
    (splice : Node → ℕ → List LogEntry → ℕ → Except AppendRejection Outcome) (matchIndex : ℕ)
    (n : Node) (leaderId : NodeId) (request : AppendEntries) : Outcome :=
  let n := { n with election.elapsed := 0, volatile.leaderHint := some leaderId }
  if n.termAt request.prevLogIndex ≠ some request.prevLogTerm then
    { node := n, outputs := [n.rejectAppendEntries leaderId request.sequence] }
  else
    let confirmed := n.confirmedCommitIndex request matchIndex
    match splice n request.prevLogIndex request.entries confirmed with
    | .error _ => { node := n, outputs := [n.rejectAppendEntries leaderId request.sequence] }
    | .ok spliced =>
      (spliced.andThen (·.adoptLeaderCommit request.leaderCommit confirmed)).andThen fun n =>
        { node := n, outputs := [n.acceptAppendEntries leaderId matchIndex request.sequence] }

/-- The same with the splice of unbounded sums. -/
def appendAsFollower (n : Node) (leaderId : NodeId) (request : AppendEntries) : Outcome :=
  appendAsFollowerBy spliceEntriesAfter
    (requestMatchIndex request.prevLogIndex request.entries.length) n leaderId request

/-- `Node::handle_append_entries` up to the role change. -/
def handleAppendEntriesBy (append : Node → NodeId → AppendEntries → Outcome) (n : Node)
    (leaderId : NodeId) (request : AppendEntries) : Outcome :=
  if request.term < n.currentTerm then
    { node := n, outputs := [n.rejectAppendEntries leaderId request.sequence] }
  else
    let adopted := if n.currentTerm < request.term ∨ n.role ≠ .follower then
        n.becomeFollower request.term
      else { node := n, outputs := [] }
    adopted.andThen (append · leaderId request)

/-- `Node::handle_append_entries`. -/
def handleAppendEntries (n : Node) (leaderId : NodeId) (request : AppendEntries) : Outcome :=
  n.handleAppendEntriesBy appendAsFollower leaderId request

/-! ## The sums of a release build

The definitions above add indexes without the bound of `u64`. In a release build the sums wrap
around, here for a node whose own log ends within the range. -/

/-- The first loop of `splice_entries_after`; `sum` is the index of the next entry before it
wraps. -/
def findDivergenceWrapping (n : Node) :
    List LogEntry → ℕ → Except AppendRejection (Option (List LogEntry × ℕ))
  | [], _ => .ok none
  | entry :: rest, sum =>
    match n.termAt (wrapping sum) with
    | some existingTerm =>
      if existingTerm = entry.term then n.findDivergenceWrapping rest (sum + 1)
      else if wrapping sum ≤ n.commitIndex then .error (.committedEntryConflict (wrapping sum))
      else .ok (some (entry :: rest, wrapping sum))
    | none => .ok (some (entry :: rest, wrapping sum))

/-- The incoming configuration entries above the floor. -/
def incomingConfigurationsWrapping (entries : List LogEntry) (firstIndex floor : ℕ) :
    List LogEntry :=
  (entries.zipIdx firstIndex).filterMap fun (entry, sum) =>
    if floor < wrapping sum ∧ entry.isConfiguration then some entry else none

/-- `Node::splice_entries_after`. -/
def spliceEntriesAfterWrapping (n : Node) (prevLogIndex : ℕ) (entries : List LogEntry)
    (configurationCommitFloor : ℕ) : Except AppendRejection Outcome :=
  n.spliceFrom (n.findDivergenceWrapping entries (prevLogIndex + 1)) incomingConfigurationsWrapping
    (wrapping (n.snapshotIndex + 1)) n.lastLogIndexWrapping configurationCommitFloor

/-- `Node::handle_append_entries` after the role change. -/
def appendAsFollowerWrapping (n : Node) (leaderId : NodeId) (request : AppendEntries) : Outcome :=
  appendAsFollowerBy spliceEntriesAfterWrapping
    (wrapping (requestMatchIndex request.prevLogIndex request.entries.length)) n leaderId request

/-- `Node::handle_append_entries`. -/
def handleAppendEntriesWrapping (n : Node) (leaderId : NodeId) (request : AppendEntries) :
    Outcome :=
  n.handleAppendEntriesBy appendAsFollowerWrapping leaderId request

end Node

end Rafter
