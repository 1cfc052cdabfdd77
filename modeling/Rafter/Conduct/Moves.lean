import Rafter.Node.Batch
import Rafter.Protocol.Trace

/-!
# The moves of a node

Every public call of a node is a sequence of a few kinds of moves. `Move` lists them, each with
what it observes: the requests it takes and the outputs it gives. What is kept
by every move is kept by every call, for any inputs and in any order.

`Conduct/Step.lean` shows that every call is a path of moves.
-/

namespace Rafter

open Protocol

/-! ## Observations -/

/-- The requests of an embedder: read barriers, proposals and local snapshots. -/
inductive Request where
  | read (id : ReadId)
  | propose (proposal : ClientProposalInput)
  | compact (snapshot : RaftSnapshot)

/-- What is observed of a node: requests taken and outputs given. -/
abbrev Observation := Request ⊕ Output

/-- The observations of outputs. -/
def given (outputs : List Output) : List Observation := outputs.map Sum.inr

/-- The observations of read barriers. -/
def asked (readIds : List ReadId) : List Observation := readIds.map fun id => .inl (.read id)

/-- Outputs that report on no entry, proposal, read or snapshot. -/
def Output.isTraffic : Output → Bool
  | .send _ _ | .sendSnapshotChunk _ _ | .stageSnapshotChunk _ | .leadershipTransferRejected _ _
  | .rejectProposal none _ => true
  | _ => false

/-- The fields that those reports are about. -/
structure Ledger where
  config : NodeConfig
  term : ℕ
  role : Role
  snapshot : Option RaftSnapshot
  log : List LogEntry
  configuration : ConfigurationIndex
  committedConfiguration : Option CommittedConfiguration
  commitIndex : ℕ
  dispatchedIndex : ℕ
  localProposals : LocalProposalTracker
  pendingReads : List PendingReadRound

namespace Node

/-- The ledger of a node. -/
def ledger (n : Node) : Ledger where
  config := n.config
  term := n.currentTerm
  role := n.role
  snapshot := n.persistent.snapshot
  log := n.persistent.log
  configuration := n.configuration
  committedConfiguration := n.persistent.committedConfiguration
  commitIndex := n.commitIndex
  dispatchedIndex := n.dispatchedIndex
  localProposals := n.volatile.localProposals
  pendingReads := n.leader.pendingReads

/-- `emitEntry` up to the step-down of a removed leader. -/
def dispatchEntry (n : Node) (index : ℕ) (entry : LogEntry) : Outcome :=
  let (proposal, rest) := LocalProposalTracker.remove n.volatile.localProposals index
  let n := { n with volatile.dispatchedIndex := index, volatile.localProposals := rest }
  match entry.kind with
  | .application payload =>
    let localProposalId := proposal.bind fun p => if p.term = entry.term then some p.id else none
    ⟨n, [.apply index entry.term payload localProposalId]⟩
  | .configuration configuration =>
    ⟨n, [.configurationCommitted index entry.term (n.membershipBefore index) configuration]⟩
  | .noop => ⟨n, []⟩

theorem dispatchEntry_node (n : Node) (index : ℕ) (entry : LogEntry) :
    (n.dispatchEntry index entry).node = { n with
      volatile.dispatchedIndex := index
      volatile.localProposals :=
        (LocalProposalTracker.remove n.volatile.localProposals index).2 } := by
  unfold dispatchEntry
  rcases entry with ⟨term, _ | _ | _⟩ <;> rfl

theorem acknowledgeReadBarriers_node (n : Node) (v : NodeId) (sequence : ℕ) :
    ∃ kept, (n.acknowledgeReadBarriers v sequence).node =
      { n with leader.pendingReads := kept } := by
  unfold acknowledgeReadBarriers
  split_ifs
  · exact ⟨n.leader.pendingReads, rfl⟩
  · exact ⟨_, rfl⟩

theorem mem_confirmRounds {m : MembershipConfig} {self : NodeId} {rounds : List PendingReadRound}
    {x : Output} (hx : x ∈ (confirmRounds m self rounds).2) : ∃ id k,
    x = .readIndexGranted id k := by
  induction rounds with
  | nil => simp [confirmRounds] at hx
  | cons p rest ih =>
    unfold confirmRounds at hx
    dsimp only at hx
    split_ifs at hx
    · rcases List.mem_append.1 hx with hx | hx
      · obtain ⟨id, -, rfl⟩ := List.mem_map.1 hx
        exact ⟨id, _, rfl⟩
      · exact ih hx
    · exact ih hx

theorem mem_acknowledgeReadBarriers {n : Node} {v : NodeId} {sequence : ℕ} {x : Output}
    (hx : x ∈ (n.acknowledgeReadBarriers v sequence).outputs) :
    ∃ id k, x = .readIndexGranted id k := by
  unfold acknowledgeReadBarriers at hx
  split_ifs at hx
  · simp at hx
  · exact mem_confirmRounds hx

theorem mem_drainPendingReads {n : Node} {reason : ReadIndexCancelReason} {x : Output}
    (hx : x ∈ (n.drainPendingReads reason).outputs) : ∃ id, x = .readIndexCanceled id reason := by
  obtain ⟨pending, -, hx⟩ := List.mem_flatMap.1 hx
  obtain ⟨id, -, rfl⟩ := List.mem_map.1 hx
  exact ⟨id, rfl⟩

theorem becomeFollower_outputs (n : Node) (term : ℕ) :
    (n.becomeFollower term).outputs = dropOutputs .leadershipLost n.volatile.localProposals ++
      (n.drainPendingReads .leadershipLost).outputs := by
  simp [becomeFollower, drainLocalProposals, drainPendingReads, Outcome.andThen]

/-! ## Moves -/

/-- One move of a node. -/
inductive Move : Node → List Observation → Node → Prop
  /-- Messages, timers, votes and progress rows. -/
  | traffic {n n' : Node} {outputs : List Output} (hledger : n'.ledger = n.ledger)
    (htransfer : n'.leader.pendingTransfer.isSome → n.leader.pendingTransfer.isSome)
    (hsequence : n.leader.heartbeatSequence ≤ n'.leader.heartbeatSequence)
    (houtputs : ∀ x ∈ outputs, x.isTraffic) : Move n (given outputs) n'
  | follow (n : Node) (term : ℕ) :
    Move n (given (n.becomeFollower term).outputs) (n.becomeFollower term).node
  /-- Polling and campaigning. -/
  | campaign {n n' : Node} (hrole : n.role ≠ .leader) (hrole' : n'.role ≠ .leader)
    (hterm : n.currentTerm ≤ n'.currentTerm)
    (hledger : n'.ledger = { n.ledger with role := n'.role, term := n'.currentTerm })
    (hleader : n'.leader = n.leader) : Move n [] n'
  | lead (n : Node) (hrole : n.role ≠ .leader) : Move n [] n.leaderState
  | configure (n : Node) (configuration : ConfigurationEntry) (hrole : n.role = .leader) :
    Move n [] (n.appendLogEntry ⟨n.currentTerm, .configuration configuration⟩)
  | propose (n : Node) (proposal : ClientProposalInput) (hrole : n.role = .leader) :
    Move n (.inl (.propose proposal) :: given (n.appendProposal proposal).outputs)
      (n.appendProposal proposal).node
  | refuse (n : Node) (proposal : ClientProposalInput) (reason : ProposalRejection) :
    Move n [.inl (.propose proposal), .inr (.rejectProposal proposal.proposalId reason)] n
  | commit (n : Node) (k : ℕ) (hk : n.commitIndex ≤ k)
    (hle : k ≤ max n.commitIndex n.lastLogIndex) : Move n [] { n with volatile.commitIndex := k }
  | dispatch (n : Node) (entry : LogEntry) (hlt : n.dispatchedIndex < n.commitIndex)
    (hentry : n.entryAt (n.dispatchedIndex + 1) = some entry) :
    Move n (given (n.dispatchEntry (n.dispatchedIndex + 1) entry).outputs)
      (n.dispatchEntry (n.dispatchedIndex + 1) entry).node
  | splice {n : Node} {prev floor : ℕ} {entries : List LogEntry} {o : Outcome}
    (hrole : n.role ≠ .leader) (hprev : (n.termAt prev).isSome)
    (h : n.spliceEntriesAfter prev entries floor = .ok o) : Move n (given o.outputs) o.node
  | install (n : Node) (snapshot : RaftSnapshot) (staged : StagedSnapshotChunk)
    (hrole : n.role ≠ .leader)
    (hnew : n.snapshotCoveredThrough < snapshot.metadata.lastIncludedIndex) :
    Move n (given ((n.installSnapshotState snapshot).outputs ++
      [.stageSnapshotChunk staged, .applySnapshot snapshot])) (n.installSnapshotState snapshot).node
  | compact {n : Node} {snapshot : RaftSnapshot} {o : Outcome}
    (h : n.installLocalSnapshot snapshot = .ok o) :
    Move n (.inl (.compact snapshot) :: given o.outputs) o.node
  /-- A refused local snapshot changes nothing. -/
  | decline (n : Node) (snapshot : RaftSnapshot) : Move n [.inl (.compact snapshot)] n
  | transfer (n : Node) (pending : PendingLeadershipTransfer) (reason : ReadIndexCancelReason) :
    Move n (given (n.drainPendingReads reason).outputs)
      { n with leader.pendingTransfer := some pending, leader.pendingReads := [] }
  | register (n : Node) (readIds : List ReadId) (acks : AcknowledgementSet)
    (hrole : n.role = .leader) (htransfer : n.leader.pendingTransfer = none) (hne : readIds ≠ [])
    (hlength : n.pendingReadCount + readIds.length ≤ maxPendingReads) :
    Move n (asked readIds) (beginContactRound { n with
      leader.pendingReads := n.leader.pendingReads ++
        [{ readIds := readIds
           readIndex := n.commitIndex
           registeredSequence := n.leader.heartbeatSequence + 1
           acks := acks }] })
  | grant (n : Node) (readIds : List ReadId) :
    Move n (asked readIds ++ given (grantReads readIds n.commitIndex)) n
  | reject (n : Node) (readIds : List ReadId) (reason : ReadIndexRejection) :
    Move n (asked readIds ++ given (rejectReads readIds reason)) n
  | acknowledge (n : Node) (v : NodeId) (sequence : ℕ) :
    Move n (given (n.acknowledgeReadBarriers v sequence).outputs)
      (n.acknowledgeReadBarriers v sequence).node

/-! ## Requests and outputs of observations -/

@[simp] theorem filterMap_getLeft_given (outputs : List Output) :
    (given outputs).filterMap Sum.getLeft? = [] := by
  simp [given, List.filterMap_map, Function.comp_def]

@[simp] theorem filterMap_getRight_given (outputs : List Output) :
    (given outputs).filterMap Sum.getRight? = outputs := by
  simp [given, List.filterMap_map, Function.comp_def]

@[simp] theorem filterMap_getLeft_asked (readIds : List ReadId) :
    (asked readIds).filterMap Sum.getLeft? = readIds.map .read := by
  simp [asked, List.filterMap_map, Function.comp_def]

@[simp] theorem filterMap_getRight_asked (readIds : List ReadId) :
    (asked readIds).filterMap Sum.getRight? = [] := by
  simp [asked, List.filterMap_map, Function.comp_def]

end Node

end Rafter
