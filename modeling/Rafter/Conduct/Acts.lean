import Rafter.Conduct.Pushes
import Rafter.Conduct.Sound

/-!
# The acts of a node

A finer account of a transition than `Move`. An act updates one part of a node, and an act that
answers a message names the message. What is kept by every act is kept by every step.

An act belongs to an `Occasion`: the node before the step and the input it is given.

Results:

* `Node.Act.move`: every act is a move.
-/

namespace Rafter

open Protocol

/-! ## Messages and outputs -/

/-- The term a message carries. -/
def Message.term : Message → ℕ
  | .appendEntries m => m.term
  | .appendEntriesResponse m => m.term
  | .installSnapshot m => m.term
  | .installSnapshotChunk m => m.term
  | .installSnapshotResponse m => m.term
  | .preVote m | .requestVote m => m.term
  | .preVoteResponse m | .requestVoteResponse m => m.term
  | .timeoutNow m => m.term

/-- The messages that the leader of a term sends to replicate. -/
def Message.isReplication : Message → Bool
  | .appendEntries _ | .installSnapshot _ | .installSnapshotChunk _ => true
  | _ => false

/-- Inputs on which a node may open a campaign. -/
def Input.mayCampaign : Input → Bool
  | .tick | .message _ (.preVoteResponse _) | .message _ (.timeoutNow _) => true
  | _ => false

/-- Traffic other than frames and the answers to frames and snapshots. -/
def Output.isNotice : Output → Bool
  | .send _ (.appendEntries _) | .send _ (.appendEntriesResponse _)
  | .send _ (.installSnapshotResponse _) => false
  | x => x.isTraffic

theorem Output.isTraffic_of_isNotice {x : Output} (h : x.isNotice) : x.isTraffic := by
  unfold isNotice at h
  split at h
  · simp at h
  · simp at h
  · simp at h
  · exact h

/-! ## Acts -/

/-- A step: the node before it and its input, if it is a step of a single input. -/
structure Occasion where
  node : Node
  input : Option Input

namespace Node

/-- The response makes the leader take up the transfer of its snapshot to the follower again: it
refuses the transfer, or leaves it unfinished. -/
def resumes (n : Node) (response : InstallSnapshotResponse) : Bool :=
  decide (n.role = .leader) && decide (response.term = n.currentTerm)
    && (response.transferId.isNone
      || decide (n.persistent.snapshot.map RaftSnapshot.transferId = response.transferId))
    && (!response.success || (n.transferUnfinished response).isSome)

/-- The node without what neither reads, elections nor replication go by. -/
def spine (n : Node) : Node :=
  { n with
    volatile.incomingSnapshot := none
    volatile.snapshotChunkRejections := {}
    election.votes := []
    election.preVotes := []
    leader.pendingTransfer := none
    leader.depositionAuthorized := false
    leader.heartbeatElapsed := 0
    leader.quorumAcks := {}
    leader.quorumCheckElapsed := 0 }

/-- A follower of term `term` that has just heard from its leader. -/
structure Heard (n : Node) (term : ℕ) : Prop where
  role : n.role = .follower
  term : n.currentTerm = term
  hint : n.volatile.leaderHint.isSome
  elapsed : n.election.elapsed = 0

/-- One act of a node. -/
inductive Act (c : Occasion) : Node → List Observation → Node → Prop
  | quiet {n n' : Node} (hspine : n'.spine = n.spine)
    (htransfer : n'.leader.pendingTransfer.isSome → n.leader.pendingTransfer.isSome) : Act c n [] n'
  | emit (n : Node) (x : Output) (hx : x.isNotice) : Act c n [.inr x] n
  -- clocks
  | clock (n : Node) (hinput : c.input = some .tick) (hrole : n.role = .leader) :
    Act c n [] { n with
      leader.ticks := n.leader.ticks + 1
      leader.heartbeatElapsed := saturatingAdd n.leader.heartbeatElapsed 1 }
  | elapse (n : Node) (hinput : c.input = some .tick) (hrole : n.role ≠ .leader) :
    Act c n [] { n with election.elapsed := saturatingAdd n.election.elapsed 1 }
  | rest (n : Node) (hinput : ∃ i, c.input = some i ∧ i.mayCampaign) :
    Act c n [] { n with election.elapsed := 0 }
  -- roles
  | follow (n : Node) (term : ℕ)
    (hterm : term = n.currentTerm ∨ ∃ v m, c.input = some (.message v m) ∧ m.term = term)
    (hwhy : n.currentTerm < term ∨ n.role ≠ .follower ∨
      ∃ v m, c.input = some (.message v (.timeoutNow m))) :
    Act c n (given (n.becomeFollower term).outputs) (n.becomeFollower term).node
  | forget (n : Node) (hinput : c.input = some .tick) :
    Act c n [] { n with volatile.leaderHint := none }
  | poll (n : Node) (hinput : c.input = some .tick) (hrole : n.role ≠ .leader)
    (htimeout : n.effectiveElectionTimeout ≤ n.election.elapsed) :
    Act c n [] { n with
      volatile.role := .preCandidate
      volatile.leaderHint := none
      election.elapsed := 0
      election.preVotes := [n.id] }
  | campaign (n : Node) (term : ℕ) (hinput : ∃ i, c.input = some i ∧ i.mayCampaign)
    (hrole : n.role ≠ .leader) (hterm : checkedNext n.currentTerm = some term)
    (hwhy : n.role = .preCandidate ∨ n.config.preVote = false ∨
      ∃ v m, c.input = some (.message v (.timeoutNow m))) :
    Act c n [] (n.candidateState term)
  | lead (n : Node) (hrole : n.role = .candidate) : Act c n [] n.leaderState
  | vote (n : Node) (v : NodeId) (request : VoteRequest)
    (hinput : c.input = some (.message v (.requestVote request)))
    (hterm : request.term = n.currentTerm) :
    Act c n [] { n with persistent.votedFor := some v, election.elapsed := 0 }
  -- the log of a leader
  | configure (n : Node) (configuration : ConfigurationEntry) (hrole : n.role = .leader) :
    Act c n [] (n.appendLogEntry ⟨n.currentTerm, .configuration configuration⟩)
  | propose (n : Node) (proposal : ClientProposalInput) (hrole : n.role = .leader) :
    Act c n (.inl (.propose proposal) :: given (n.appendProposal proposal).outputs)
      (n.appendProposal proposal).node
  | refuse (n : Node) (proposal : ClientProposalInput) (reason : ProposalRejection) :
    Act c n [.inl (.propose proposal), .inr (.rejectProposal proposal.proposalId reason)] n
  -- commitment
  | commit (n : Node) (k : ℕ) (hk : n.commitIndex ≤ k)
    (hle : k ≤ max n.commitIndex n.lastLogIndex) : Act c n [] { n with volatile.commitIndex := k }
  | dispatch (n : Node) (entry : LogEntry) (hlt : n.dispatchedIndex < n.commitIndex)
    (hentry : n.entryAt (n.dispatchedIndex + 1) = some entry) :
    Act c n (given (n.dispatchEntry (n.dispatchedIndex + 1) entry).outputs)
      (n.dispatchEntry (n.dispatchedIndex + 1) entry).node
  -- what a follower receives
  | hear (n : Node) (v : NodeId) (m : Message) (hinput : c.input = some (.message v m))
    (hm : m.isReplication) (hterm : m.term = n.currentTerm) (hrole : n.role = .follower) :
    Act c n [] { n with election.elapsed := 0, volatile.leaderHint := some v }
  | splice {n : Node} {prev floor : ℕ} {entries : List LogEntry} {o : Outcome}
    (hrole : n.role ≠ .leader) (hprev : (n.termAt prev).isSome)
    (h : n.spliceEntriesAfter prev entries floor = .ok o) : Act c n (given o.outputs) o.node
  | install (n : Node) (snapshot : RaftSnapshot) (staged : StagedSnapshotChunk)
    (hrole : n.role ≠ .leader)
    (hnew : n.snapshotCoveredThrough < snapshot.metadata.lastIncludedIndex) :
    Act c n (given ((n.installSnapshotState snapshot).outputs ++
      [.stageSnapshotChunk staged, .applySnapshot snapshot])) (n.installSnapshotState snapshot).node
  | reply (n : Node) (v : NodeId) (request : AppendEntries) (success : Bool) (k : ℕ)
    (hinput : c.input = some (.message v (.appendEntries request)))
    (hle : request.term ≤ n.currentTerm)
    (hheard : request.term = n.currentTerm → n.Heard request.term) :
    Act c n [.inr (n.appendEntriesResponse v success k request.sequence)] n
  | answer (n : Node) (v : NodeId) (reply : SnapshotReply) :
    Act c n [.inr (n.snapshotReply v reply)] n
  -- the rows of a leader and what it sends
  | reconcile (n : Node) : Act c n [] n.reconcileReplicationProgress
  | record (n : Node) : Act c n [] n.recordLocalProgress
  | row (n : Node) (v : NodeId) (f : Progress → Progress)
    (hf : ∀ row, n.leader.progress.get v = some row →
      RowStep n.snapshotIndex n.lastLogIndex row (f row)) : Act c n [] (n.modifyProgress v f)
  | resume (n : Node) (v : NodeId) (response : InstallSnapshotResponse) (f : Progress → Progress)
    (hinput : c.input = some (.message v (.installSnapshotResponse response)))
    (hresumes : c.node.resumes response) (hsnapshot : n.snapshotIndex = c.node.snapshotIndex)
    (hid : n.id = c.node.id)
    (hrow : ∀ row, v ≠ n.id → n.leader.progress.get v = some row →
      row.matchIndex = c.node.leader.progress.matchIndexOf v)
    (hf : ∀ row, (f row).matchIndex = row.matchIndex ∧ (f row).nextIndex = n.snapshotIndex) :
    Act c n [] (n.modifyProgress v f)
  | frame (n : Node) (v : NodeId) (next : ℕ) (entries : List LogEntry)
    (hrow : n.leader.progress.contains v) :
    Act c n [.inr (n.appendEntriesMessage v next entries)] n
  | beat (n : Node) : Act c n [] n.beginContactRound
  -- reads and transfers
  | rearm (n : Node) (hinput : c.input = some .tick) : Act c n [] n.tickReadLease
  | renew (n : Node) (v : NodeId) (response : AppendEntriesResponse)
    (hinput : c.input = some (.message v (.appendEntriesResponse response)))
    (hrole : n.role = .leader) (hterm : response.term = n.currentTerm) :
    Act c n [] (n.acknowledgeReadLease v response.sequence)
  | acknowledge (n : Node) (v : NodeId) (response : AppendEntriesResponse)
    (hinput : c.input = some (.message v (.appendEntriesResponse response)))
    (hrole : n.role = .leader) (hterm : response.term = n.currentTerm) :
    Act c n (given (n.acknowledgeReadBarriers v response.sequence).outputs)
      (n.acknowledgeReadBarriers v response.sequence).node
  | register (n : Node) (readIds : List ReadId) (acks : AcknowledgementSet)
    (hrole : n.role = .leader) (htransfer : n.leader.pendingTransfer = none) (hne : readIds ≠ [])
    (hlength : n.pendingReadCount + readIds.length ≤ maxPendingReads)
    (hcommitted : n.hasCommittedInCurrentTerm) (hacks : acks.nodes = []) :
    Act c n (asked readIds) (beginContactRound { n with
      leader.pendingReads := n.leader.pendingReads ++
        [{ readIds := readIds
           readIndex := n.commitIndex
           registeredSequence := n.leader.heartbeatSequence + 1
           acks := acks }] })
  | grant (n : Node) (readIds : List ReadId) (hrole : n.role = .leader)
    (hcommitted : n.hasCommittedInCurrentTerm)
    (hwhy : n.leaseGrantAvailable ∨ n.effectiveMembership.hasQuorum [n.id]) :
    Act c n (asked readIds ++ given (grantReads readIds n.commitIndex)) n
  | reject (n : Node) (readIds : List ReadId) (reason : ReadIndexRejection) :
    Act c n (asked readIds ++ given (rejectReads readIds reason)) n
  | transfer (n : Node) (pending : PendingLeadershipTransfer) (reason : ReadIndexCancelReason) :
    Act c n (given (n.drainPendingReads reason).outputs)
      { n with leader.pendingTransfer := some pending, leader.pendingReads := [] }

variable {c : Occasion} {n n' : Node} {l : List Observation}

/-- Reconciliation changes nothing but the progress rows. -/
theorem reconcileReplicationProgress_node (n : Node) :
    ∃ progress, n.reconcileReplicationProgress = { n with leader.progress := progress } := by
  unfold reconcileReplicationProgress
  split_ifs
  · exact ⟨n.leader.progress, rfl⟩
  · exact ⟨_, rfl⟩

theorem recordLocalProgress_node (n : Node) :
    ∃ progress, n.recordLocalProgress = { n with leader.progress := progress } := by
  obtain ⟨p, hp⟩ := n.reconcileReplicationProgress_node
  rw [recordLocalProgress, hp]
  exact ⟨_, rfl⟩

/-- The lease bookkeeping on an acknowledgement. -/
theorem acknowledgeReadLease_node (n : Node) (v : NodeId) (sequence : ℕ) :
    ∃ lease, n.acknowledgeReadLease v sequence = { n with leader.lease := lease } := by
  unfold acknowledgeReadLease
  dsimp only
  split_ifs
  · exact ⟨n.leader.lease, rfl⟩
  · exact ⟨n.leader.lease, rfl⟩
  · exact ⟨_, rfl⟩
  · exact ⟨_, rfl⟩

theorem tickReadLease_node (n : Node) :
    ∃ lease, n.tickReadLease = { n with leader.lease := lease } := by
  unfold tickReadLease
  split_ifs
  · exact ⟨n.leader.lease, rfl⟩
  · exact ⟨n.leader.lease, rfl⟩
  · exact ⟨_, rfl⟩

/-- Nodes of one spine agree in all that is read off the spine. -/
theorem eq_of_spine {α : Type*} {f : Node → α} (h : n'.spine = n.spine)
    (hf : ∀ m : Node, f m.spine = f m) : f n' = f n := by
  rw [← hf n', h, hf n]

/-- An act on messages, timers, votes or rows. -/
theorem Act.traffic_of_eq (hledger : n'.ledger = n.ledger)
    (htransfer : n'.leader.pendingTransfer = n.leader.pendingTransfer)
    (hsequence : n.leader.heartbeatSequence ≤ n'.leader.heartbeatSequence) : Move n [] n' :=
  have hnone : ∀ x ∈ ([] : List Output), x.isTraffic := fun _ hx => absurd hx List.not_mem_nil
  .traffic hledger (by rw [htransfer]; exact fun h => h) hsequence hnone

theorem Act.traffic_of_output {x : Output} (hx : x.isTraffic) : Move n [.inr x] n :=
  have hone : ∀ y ∈ [x], y.isTraffic := fun _ hy => List.mem_singleton.1 hy ▸ hx
  .traffic rfl (fun h => h) le_rfl hone

theorem Act.move (h : Act c n l n') : Move n l n' := by
  cases h with
  | quiet hspine htransfer =>
    have hledger := eq_of_spine (f := ledger) hspine fun _ => rfl
    have hsequence := eq_of_spine (f := (·.leader.heartbeatSequence)) hspine fun _ => rfl
    have hnone : ∀ x ∈ ([] : List Output), x.isTraffic := fun _ hx => absurd hx List.not_mem_nil
    exact .traffic hledger htransfer hsequence.ge hnone
  | emit x hx => exact traffic_of_output (Output.isTraffic_of_isNotice hx)
  | clock | elapse | rest | forget | vote | hear | row | resume =>
    exact traffic_of_eq rfl rfl le_rfl
  | follow term => exact .follow n term
  | poll _ hrole => exact .campaign hrole (by simp [role]) le_rfl rfl rfl
  | campaign term _ hrole hterm =>
    refine .campaign hrole (by simp [role, candidateState]) ?_ rfl rfl
    rw [show (n.candidateState term).currentTerm = term from rfl, checkedNext_eq_some hterm]
    exact Nat.le_succ _
  | lead hrole => exact .lead n (by simp [hrole])
  | configure configuration hrole => exact .configure n configuration hrole
  | propose proposal hrole => exact .propose n proposal hrole
  | refuse proposal reason => exact .refuse n proposal reason
  | commit k hk hle => exact .commit n k hk hle
  | dispatch entry hlt hentry => exact .dispatch n entry hlt hentry
  | splice hrole hprev h => exact .splice hrole hprev h
  | install snapshot staged hrole hnew => exact .install n snapshot staged hrole hnew
  | reply | answer | frame => exact traffic_of_output rfl
  | reconcile =>
    obtain ⟨progress, hp⟩ := n.reconcileReplicationProgress_node
    rw [hp]
    exact traffic_of_eq rfl rfl le_rfl
  | record =>
    obtain ⟨progress, hp⟩ := n.recordLocalProgress_node
    rw [hp]
    exact traffic_of_eq rfl rfl le_rfl
  | beat => exact traffic_of_eq rfl rfl (Nat.le_succ _)
  | rearm =>
    obtain ⟨lease, hlease⟩ := n.tickReadLease_node
    rw [hlease]
    exact traffic_of_eq rfl rfl le_rfl
  | renew v response =>
    obtain ⟨lease, hlease⟩ := n.acknowledgeReadLease_node v response.sequence
    rw [hlease]
    exact traffic_of_eq rfl rfl le_rfl
  | acknowledge v response => exact .acknowledge n v response.sequence
  | register readIds acks hrole htransfer hne hlength =>
    exact .register n readIds acks hrole htransfer hne hlength
  | grant readIds => exact .grant n readIds
  | reject readIds reason => exact .reject n readIds reason
  | transfer pending reason => exact .transfer n pending reason

end Node

end Rafter
