import Rafter.Node.Response

/-!
# Validation of a node's state

`crates/rafter/src/node/validate.rs` and `ConfigurationIndex::validate` of `node/state/derived.rs`,
with the texts they report.
-/

namespace Rafter

/-! ## Memberships and the configuration index -/

/-- The text of a `MembershipValidationError`. -/
def MembershipValidationError.text : MembershipValidationError → String
  | .emptyVoters => "Raft membership must contain at least one voter"
  | .duplicateVoter n => "Raft membership voter node-" ++ toString n ++ " appears more than once"
  | .duplicateLearner n =>
    "Raft membership learner node-" ++ toString n ++ " appears more than once"
  | .learnerVoterOverlap n =>
    "Raft membership node node-" ++ toString n ++ " cannot be both voter and learner"

/-- The closure `validate_set` of `validate_membership_shape`. -/
def validateSet (label : String) (set : MembershipSet) : Except String Unit :=
  match MembershipSet.new set.voters set.learners with
  | .error error => .error (label ++ " is invalid: " ++ error.text)
  | .ok rebuilt =>
    if rebuilt = set then .ok () else .error (label ++ " is not in canonical identity order")

/-- `validate_membership_shape`. -/
def validateMembershipShape (membership : MembershipConfig) (label : String) : Except String Unit :=
  match membership with
  | .stable set => validateSet label set
  | .joint joint => do
    validateSet label joint.old
    validateSet label joint.new

/-- A membership set is what `MembershipSet::new` makes of its own members. -/
theorem MembershipSet.new_self (m : MembershipSet) : MembershipSet.new m.voters m.learners
    = .ok m := by
  have hsorted : ∀ {l : List NodeId}, l.Pairwise (· < ·) → l = l.insertionSort (· ≤ ·) := by
    intro l hl
    refine (List.Pairwise.insertionSort_eq ?_).symm
    exact hl.imp fun h => le_of_lt h
  exact MembershipSet.new_ok_iff.2 ⟨hsorted m.voters_sorted, hsorted m.learners_sorted⟩

theorem validateMembershipShape_ok (m : MembershipConfig) (label : String) :
    validateMembershipShape m label = .ok () := by
  have hset : ∀ set : MembershipSet, validateSet label set = .ok () := by
    intro set
    simp [validateSet, set.new_self]
  cases m with
  | stable set => exact hset set
  | joint joint => simp [validateMembershipShape, hset, bind, Except.bind]

/-- `ConfigurationIndex::validate`. -/
def ConfigurationIndex.validate (index : ConfigurationIndex) (log : List LogEntry) :
    Except String Unit :=
  if index = .fromLog log then .ok ()
  else .error ("configuration_offsets mismatch: stored " ++ toString index ++ ", expected "
    ++ toString (ConfigurationIndex.fromLog log))

namespace Node

/-! ## Indexes -/

/-- `Node::validate_index_geometry`. -/
def validateIndexGeometry (n : Node) : Except String Unit :=
  let retainedLen := n.persistent.log.length
  let logicalLastIndex := n.snapshotIndex + retainedLen
  if u64Max < retainedLen then
    .error "retained log length is not representable as a Raft index"
  else if u64Max < logicalLastIndex then
    .error ("snapshot boundary " ++ toString n.snapshotIndex ++ " plus " ++ toString retainedLen
      ++ " retained entries overflows LogIndex")
  else if logicalLastIndex < n.commitIndex then
    .error ("commit index " ++ toString n.commitIndex ++ " exceeds logical last index "
      ++ toString logicalLastIndex)
  else if n.commitIndex < n.dispatchedIndex then
    .error ("applied index " ++ toString n.dispatchedIndex ++ " exceeds commit index "
      ++ toString n.commitIndex)
  else if n.dispatchedIndex < n.snapshotIndex then
    .error ("applied index " ++ toString n.dispatchedIndex
      ++ " is behind installed snapshot boundary "
      ++ toString n.snapshotIndex)
  else
    match n.persistent.committedConfiguration with
    | none => .ok ()
    | some committed =>
      if n.commitIndex < committed.index then
        .error ("committed configuration index " ++ toString committed.index
          ++ " exceeds commit index " ++ toString n.commitIndex)
      else .ok ()

/-- `Node::validate_incoming_snapshot`. -/
def validateIncomingSnapshot (n : Node) : Except String Unit :=
  match n.volatile.incomingSnapshot with
  | none => .ok ()
  | some incoming =>
    if incoming.totalPayloadLen < incoming.receivedLen then
      .error ("incoming snapshot received length " ++ toString incoming.receivedLen
        ++ " exceeds total " ++ toString incoming.totalPayloadLen)
    else .ok ()

/-! ## Pending reads -/

/-- The inner loop of `validate_pending_reads`: insert the ids of one round into those seen. -/
def insertReadIds (seen : List ReadId) : List ReadId → Except String (List ReadId)
  | [] => .ok seen
  | readId :: rest =>
    if readId ∈ seen then .error ("pending read ID ReadId(" ++ toString readId ++ ") is duplicated")
    else insertReadIds (readId :: seen) rest

/-- The loop of `validate_pending_reads` over the rounds. -/
def validateRounds (commitIndex heartbeatSequence : ℕ) (seen : List ReadId)
    (previousReadIndex previousSequence : ℕ) : List PendingReadRound → Except String Unit
  | [] => .ok ()
  | pending :: rest => do
    if pending.readIds.isEmpty then throw "pending read-index round has no read IDs"
    if commitIndex < pending.readIndex then
      throw ("pending read index " ++ toString pending.readIndex ++ " exceeds commit index "
        ++ toString commitIndex)
    if pending.readIndex < previousReadIndex ∨ pending.registeredSequence < previousSequence then
      throw "pending read-index rounds are not monotone"
    if pending.registeredSequence = 0 ∨ heartbeatSequence < pending.registeredSequence then
      throw ("pending read round sequence " ++ toString pending.registeredSequence
        ++ " is outside 1..=" ++ toString heartbeatSequence ++ " ")
    let seen ← insertReadIds seen pending.readIds
    validateRounds commitIndex heartbeatSequence seen pending.readIndex pending.registeredSequence
      rest

/-- `Node::validate_pending_reads`. -/
def validatePendingReads (n : Node) : Except String Unit :=
  if !n.leader.pendingReads.isEmpty ∧ n.role ≠ .leader then
    .error "non-leader retains pending read-index rounds"
  else if n.leader.pendingTransfer.isSome ∧ !n.leader.pendingReads.isEmpty then
    .error "leadership transfer retains pending read-index rounds"
  else if maxPendingReads < n.pendingReadCount then
    .error ("pending read count " ++ toString n.pendingReadCount ++ " exceeds limit "
      ++ toString maxPendingReads)
  else validateRounds n.commitIndex n.leader.heartbeatSequence [] 0 0 n.leader.pendingReads

/-! ## All rules -/

/-- `Node::validate_state_rules`. -/
def validateStateRules (n : Node) : Except String Unit := do
  n.validateIndexGeometry
  validateMembershipShape n.effectiveMembership "effective membership"
  validateMembershipShape n.committedMembership "committed membership"
  n.configuration.validate n.persistent.log
  n.validatePendingReads
  n.validateIncomingSnapshot

end Node

end Rafter
