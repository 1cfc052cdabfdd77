import Rafter.Node.Response

/-!
# Elections

`crates/rafter/src/node/election.rs` and `handle_timeout_now` of `node/transfer.rs`.
-/

namespace Rafter

namespace Node

/-- `Node::effective_election_timeout`. -/
def effectiveElectionTimeout (n : Node) : ℕ :=
  let base := n.config.electionTimeoutTicks
  let jitter := n.config.electionJitterTicks
  if jitter = 0 then base
  else
    let hash := feedU64 (feedU64 0xcbf29ce484222325 n.id) n.currentTerm
    saturatingAdd base (if jitter = u64Max then hash else hash % (jitter + 1))

/-- The request a poll or a campaign at `term` sends. -/
def voteRequest (n : Node) (term : ℕ) : VoteRequest where
  term := term
  candidateId := n.id
  lastLogIndex := n.lastLogIndex
  lastLogTerm := n.lastLogTerm

/-- The sends of a poll or a campaign to the other voters of the effective membership. -/
def voteRequests (n : Node) (message : Message) : List Output :=
  (n.effectiveMembership.voterIds.filter (· ≠ n.id)).map fun voter => .send voter message

/-- The durable and volatile changes with which `Node::start_election` opens its campaign. -/
def candidateState (n : Node) (campaignTerm : ℕ) : Node :=
  { n with
    volatile.role := .candidate
    volatile.leaderHint := none
    persistent.currentTerm := campaignTerm
    persistent.votedFor := some n.id
    election := { elapsed := 0, votes := [n.id], preVotes := [] } }

/-- Take office and open the first contact round. -/
def assumeLeadership (n : Node) : Outcome := n.becomeLeader.andThen broadcastAppendEntries

/-- `Node::start_election`. -/
def startElection (n : Node) : Outcome :=
  if !n.isEffectiveVoter n.id then { node := { n with election.elapsed := 0 }, outputs := [] }
  else
    match checkedNext n.currentTerm with
    | none => { node := { n with election.elapsed := 0 }, outputs := [] }
    | some campaignTerm =>
      let n := n.candidateState campaignTerm
      Outcome.andThen
        { node := n, outputs := n.voteRequests (.requestVote (n.voteRequest n.currentTerm)) }
        fun n => if n.hasEffectiveQuorum n.election.votes then n.assumeLeadership
          else { node := n, outputs := [] }

/-- `Node::start_pre_vote_round`. -/
def startPreVoteRound (n : Node) : Outcome :=
  if !n.isEffectiveVoter n.id then { node := { n with election.elapsed := 0 }, outputs := [] }
  else
    match checkedNext n.currentTerm with
    | none => { node := { n with election.elapsed := 0 }, outputs := [] }
    | some proposedTerm =>
      let n := { n with
        volatile.role := .preCandidate
        volatile.leaderHint := none
        election.elapsed := 0
        election.preVotes := [n.id] }
      Outcome.andThen
        { node := n, outputs := n.voteRequests (.preVote (n.voteRequest proposedTerm)) }
        fun n => if n.hasEffectiveQuorum n.election.preVotes then n.startElection
          else { node := n, outputs := [] }

/-- The leader part of `Node::tick`. -/
def tickLeader (n : Node) : Outcome :=
  let n := { n with
    leader.ticks := n.leader.ticks + 1
    leader.heartbeatElapsed := saturatingAdd n.leader.heartbeatElapsed 1 }
  match (n.tickReadLease.tickLeadershipTransfer).tickCheckQuorum with
  | (n, some outputs) => { node := n, outputs := outputs }
  | (n, none) =>
    if n.leader.heartbeatElapsed < n.config.heartbeatIntervalTicks then { node := n, outputs := [] }
    else n.broadcastAppendEntries

/-- `Node::tick`. -/
def tick (n : Node) : Outcome :=
  if n.role = .leader then n.tickLeader
  else
    let n := { n with election.elapsed := saturatingAdd n.election.elapsed 1 }
    if n.election.elapsed < n.effectiveElectionTimeout then { node := n, outputs := [] }
    else if n.config.preVote then n.startPreVoteRound
    else n.startElection

/-- Whether a request's log is at least as up to date as the node's: the lexicographic comparison
of last term and last index. -/
def logUpToDate (n : Node) (request : VoteRequest) : Bool :=
  decide (n.lastLogTerm < request.lastLogTerm) ||
    (decide (n.lastLogTerm = request.lastLogTerm) && decide (n.lastLogIndex ≤ request.lastLogIndex))

/-- `Node::handle_request_vote` after the term is adopted. -/
def castVote (n : Node) (candidateId : NodeId) (request : VoteRequest) : Outcome :=
  let voteGranted := decide (request.term = n.currentTerm)
    && n.effectiveMembership.containsVoter candidateId
    && n.logUpToDate request
    && n.persistent.votedFor.all (· = candidateId)
  let n := if voteGranted then
      { n with persistent.votedFor := some candidateId, election.elapsed := 0 }
    else n
  { node := n
    outputs := [.send candidateId (.requestVoteResponse
      { term := n.currentTerm, voterId := n.id, voteGranted := voteGranted })] }

/-- `Node::handle_request_vote`. -/
def handleRequestVote (n : Node) (candidateId : NodeId) (request : VoteRequest) : Outcome :=
  let adopted := if n.currentTerm < request.term then n.becomeFollower request.term
    else { node := n, outputs := [] }
  adopted.andThen (·.castVote candidateId request)

/-- `Node::handle_request_vote_response`. -/
def handleRequestVoteResponse (n : Node) (voterId : NodeId) (response : VoteResponse) : Outcome :=
  if n.currentTerm < response.term then n.becomeFollower response.term
  else if n.role ≠ .candidate ∨ response.term ≠ n.currentTerm then { node := n, outputs := [] }
  else if !n.isEffectiveVoter n.id then n.becomeFollower n.currentTerm
  else
    let n := if response.voteGranted then
        { n with election.votes := insertId voterId n.election.votes }
      else n
    if n.hasEffectiveQuorum n.election.votes then n.assumeLeadership
    else { node := n, outputs := [] }

/-- The stickiness test of `Node::handle_pre_vote`. -/
def leaderBelievedCurrent (n : Node) : Bool :=
  n.volatile.leaderHint.isSome && decide (n.election.elapsed < n.config.electionTimeoutTicks)

/-- `Node::handle_pre_vote`. -/
def handlePreVote (n : Node) (candidateId : NodeId) (request : VoteRequest) : Outcome :=
  let voteGranted := decide (n.currentTerm < request.term)
    && n.effectiveMembership.containsVoter candidateId
    && n.logUpToDate request
    && !n.leaderBelievedCurrent
  { node := n
    outputs := [.send candidateId (.preVoteResponse
      { term := if voteGranted then request.term else n.currentTerm
        voterId := n.id
        voteGranted := voteGranted })] }

/-- `Node::handle_pre_vote_response`. -/
def handlePreVoteResponse (n : Node) (voterId : NodeId) (response : VoteResponse) : Outcome :=
  match checkedNext n.currentTerm with
  | none => { node := n, outputs := [] }
  | some proposedTerm =>
    if proposedTerm < response.term then n.becomeFollower response.term
    else if !response.voteGranted ∧ n.currentTerm < response.term then
      n.becomeFollower response.term
    else if n.role ≠ .preCandidate ∨ response.term ≠ proposedTerm then { node := n, outputs := [] }
    else
      let n := if response.voteGranted then
          { n with election.preVotes := insertId voterId n.election.preVotes }
        else n
      if n.hasEffectiveQuorum n.election.preVotes then n.startElection
      else { node := n, outputs := [] }

/-- `Node::handle_timeout_now`. -/
def handleTimeoutNow (n : Node) (term : ℕ) : Outcome :=
  if term < n.currentTerm ∨ n.isEffectiveVoter n.id = false then { node := n, outputs := [] }
  else (n.becomeFollower term).andThen startElection

end Node

end Rafter
