import Rafter.Node.Bootstrap
import Rafter.Node.Step

/-!
# Batched inputs and the public calls of a node

`step_proposal_batch` of `crates/rafter/src/node/replication/proposal.rs`, `step_batch` with
`PendingBatch` of `node/dispatch.rs`, and `from_bootstrap_applied_through` of
`node/construction.rs`.

`Node.Call` collects what an embedder may call on a node between two restarts.
-/

namespace Rafter

namespace Node

/-! ## Proposal batches -/

/-- `Node::proposal_batch_preflight_rejection`. -/
def proposalBatchPreflightRejection (n : Node) (proposals : List ClientProposalInput) :
    Option (List Output) :=
  if n.role ≠ .leader then
    some (proposals.map fun p =>
      .rejectProposal p.proposalId (.notLeader n.role n.currentTerm p.payload.length))
  else
    n.leader.pendingTransfer.map fun transfer => proposals.map fun p =>
      .rejectProposal p.proposalId (.leadershipTransferInProgress transfer.target)

/-- The loop of `step_proposal_batch` over the proposals: the outcome and whether one was
accepted. -/
def appendProposals (n : Node) : List ClientProposalInput → Outcome × Bool
  | [] => (⟨n, []⟩, false)
  | p :: rest =>
    let payloadLen := p.payload.length
    if n.config.maxAppendEntriesBytes < LogEntry.applicationReplicationBytes payloadLen then
      let rejection := .rejectProposal p.proposalId (.payloadTooLarge payloadLen
        (LogEntry.maxApplicationPayloadLen n.config.maxAppendEntriesBytes))
      let (o, accepted) := n.appendProposals rest
      (⟨o.node, rejection :: o.outputs⟩, accepted)
    else
      let appended := n.appendProposal p
      let (o, _) := appended.node.appendProposals rest
      (⟨o.node, appended.outputs ++ o.outputs⟩, true)

/-- `Node::step_proposal_batch`. -/
def stepProposalBatch (n : Node) (proposals : List ClientProposalInput) : Outcome :=
  match proposals with
  | [] => ⟨n, []⟩
  | [proposal] => n.stepClientProposal proposal
  | proposals =>
    match n.proposalBatchPreflightRejection proposals with
    | some rejection => ⟨n, rejection⟩
    | none =>
      let (o, accepted) := n.appendProposals proposals
      if accepted then o.andThen (·.replicateAppended .progressOnly) else o

end Node

/-! ## Input batches -/

/-- Adjacent inputs awaiting one ordered batched transition. -/
inductive PendingBatch where
  | empty
  | proposals (proposals : List ClientProposalInput)
  | reads (reads : List ReadId)

namespace PendingBatch

/-- `PendingBatch::flush`. -/
def flush (n : Node) : PendingBatch → Outcome
  | empty => ⟨n, []⟩
  | proposals ps => n.stepProposalBatch ps
  | reads rs => n.readIndexBatch rs

/-- `PendingBatch::push_proposal`. -/
def pushProposal (n : Node) (proposal : ClientProposalInput) : PendingBatch → Outcome × PendingBatch
  | empty => (⟨n, []⟩, proposals [proposal])
  | proposals ps => (⟨n, []⟩, proposals (ps ++ [proposal]))
  | reads rs => (n.readIndexBatch rs, proposals [proposal])

/-- `PendingBatch::push_read`. -/
def pushRead (n : Node) (readId : ReadId) : PendingBatch → Outcome × PendingBatch
  | empty => (⟨n, []⟩, reads [readId])
  | reads rs => (⟨n, []⟩, reads (rs ++ [readId]))
  | proposals ps => (n.stepProposalBatch ps, reads [readId])

/-- `PendingBatch::accept`. -/
def accept (n : Node) (batch : PendingBatch) : Input → Outcome × PendingBatch
  | .clientProposal payload => batch.pushProposal n ⟨none, payload⟩
  | .trackedClientProposal proposalId payload => batch.pushProposal n ⟨some proposalId, payload⟩
  | .readIndex readId => batch.pushRead n readId
  | input => ((batch.flush n).andThen (·.step input), empty)

/-- Accept the inputs in order and flush what is pending at the end. -/
def run (n : Node) (batch : PendingBatch) : List Input → Outcome
  | [] => batch.flush n
  | input :: rest =>
    let (o, batch) := batch.accept n input
    o.andThen fun n => batch.run n rest

end PendingBatch

namespace Node

/-- `Node::step_batch`. -/
def stepBatch (n : Node) (inputs : List Input) : Outcome :=
  match inputs with
  | [] => ⟨n, []⟩
  | [input] => n.step input
  | inputs => PendingBatch.empty.run n inputs

/-! ## Public calls -/

/-- The calls an embedder makes on a node between two restarts. -/
inductive Call where
  | step (input : Input)
  | stepBatch (inputs : List Input)
  | stepProposalBatch (proposals : List ClientProposalInput)
  | installLocalSnapshot (snapshot : RaftSnapshot)
  | drainCommittedOutputs

/-- One call. A refused local snapshot changes nothing. -/
def call (n : Node) : Call → Outcome
  | .step input => n.step input
  | .stepBatch inputs => n.stepBatch inputs
  | .stepProposalBatch proposals => n.stepProposalBatch proposals
  | .installLocalSnapshot snapshot =>
    match n.installLocalSnapshot snapshot with
    | .ok o => o
    | .error _ => ⟨n, []⟩
  | .drainCommittedOutputs => n.emitCommittedOutputs

/-- A run of calls, with the outputs of all of them. -/
def calls (n : Node) : List Call → Outcome
  | [] => ⟨n, []⟩
  | c :: rest => (n.call c).andThen (·.calls rest)

/-! ## Construction -/

/-- `BootstrapValidationError` with the two variants that only an applied floor can produce. -/
inductive AppliedFloorError where
  | bootstrap (error : BootstrapValidationError)
  | appliedFloorBeyondLog (appliedThrough lastLogIndex : ℕ)
  | appliedFloorBeyondCommit (appliedThrough commitIndex : ℕ)

/-- `Node::from_bootstrap_applied_through`. -/
def fromBootstrapAppliedThrough (config : NodeConfig) (b : BootstrapState) (appliedThrough : ℕ) :
    Except AppliedFloorError Node :=
  match fromBootstrap config b with
  | .error error => .error (.bootstrap error)
  | .ok n =>
    if n.lastLogIndex < appliedThrough then
      .error (.appliedFloorBeyondLog appliedThrough n.lastLogIndex)
    else if n.commitIndex < appliedThrough then
      .error (.appliedFloorBeyondCommit appliedThrough n.commitIndex)
    else .ok { n with volatile.dispatchedIndex := max n.dispatchedIndex appliedThrough }

theorem fromBootstrapAppliedThrough_ok {config : NodeConfig} {b : BootstrapState} {k : ℕ} {n : Node}
    (h : fromBootstrapAppliedThrough config b k = .ok n) :
    ∃ m, fromBootstrap config b = .ok m ∧ k ≤ m.commitIndex ∧
      n = { m with volatile.dispatchedIndex := max m.dispatchedIndex k } := by
  unfold fromBootstrapAppliedThrough at h
  cases hm : fromBootstrap config b with
  | error e => simp [hm] at h
  | ok m =>
    rw [hm] at h
    dsimp only at h
    split_ifs at h with hlog hcommit
    exact ⟨m, rfl, not_lt.1 hcommit, (Except.ok.inj h).symm⟩

/-- The nodes the three constructors build. -/
inductive Constructed : Node → Prop
  | new (config : NodeConfig) : Constructed (Node.new config)
  | restored {config : NodeConfig} {b : BootstrapState} {n : Node}
    (h : fromBootstrap config b = .ok n) : Constructed n
  | resumed {config : NodeConfig} {b : BootstrapState} {k : ℕ} {n : Node}
    (h : fromBootstrapAppliedThrough config b k = .ok n) : Constructed n

end Node

end Rafter
