import Rafter.Node.Send

/-!
# Client and configuration proposals

`crates/rafter/src/node/replication/proposal.rs`, `node/membership/validate.rs` and
`node/membership/change.rs`.
-/

namespace Rafter

/-- `ClientProposalInput`. -/
structure ClientProposalInput where
  proposalId : Option LocalProposalId
  payload : Payload

namespace Node

/-- Commit what the appended entries allow and nudge the followers, as every proposal path does
after its append. -/
def replicateAppended (n : Node) (demand : ReplicationDemand) : Outcome :=
  n.recordLocalProgress.advanceCommitIndex.andThen fun n =>
    if n.role = .leader then n.broadcastReplication demand else { node := n, outputs := [] }

/-! ## Client proposals -/

/-- `Node::proposal_preflight_rejection`. -/
def proposalPreflightRejection (n : Node) (payloadLen : ℕ) : Option ProposalRejection :=
  if n.role ≠ .leader then some (.notLeader n.role n.currentTerm payloadLen)
  else n.leader.pendingTransfer.map fun transfer => .leadershipTransferInProgress transfer.target

/-- Append an application entry and track its local id. -/
def appendProposal (n : Node) (proposal : ClientProposalInput) : Outcome :=
  let index := n.lastLogIndex + 1
  let appended := n.appendLogEntry { term := n.currentTerm, kind := .application proposal.payload }
  match proposal.proposalId with
  | none => { node := appended, outputs := [] }
  | some id =>
    { node := { appended with
        volatile.localProposals := LocalProposalTracker.insert appended.volatile.localProposals
          index { term := n.currentTerm, id := id } }
      outputs := [.localProposalAppended id index n.currentTerm] }

theorem appendProposal_role (n : Node) (proposal : ClientProposalInput) :
    (n.appendProposal proposal).node.role = n.role := by
  unfold appendProposal
  cases proposal.proposalId <;> rfl

/-- `Node::step_client_proposal`. -/
def stepClientProposal (n : Node) (proposal : ClientProposalInput) : Outcome :=
  let payloadLen := proposal.payload.length
  match n.proposalPreflightRejection payloadLen with
  | some reason => { node := n, outputs := [.rejectProposal proposal.proposalId reason] }
  | none =>
    if n.config.maxAppendEntriesBytes < LogEntry.applicationReplicationBytes payloadLen then
      { node := n
        outputs := [.rejectProposal proposal.proposalId (.payloadTooLarge payloadLen
          (LogEntry.maxApplicationPayloadLen n.config.maxAppendEntriesBytes))] }
    else (n.appendProposal proposal).andThen (·.replicateAppended .progressOnly)

/-! ## Configuration proposals -/

/-- `Node::validate_configuration_proposal_preflight`. -/
def validateConfigurationProposalPreflight (n : Node) : Except ProposalRejection Unit :=
  if n.role ≠ .leader then .error (.notLeader n.role n.currentTerm 0)
  else
    match n.leader.pendingTransfer with
    | some transfer => .error (.leadershipTransferInProgress transfer.target)
    | none =>
      match n.uncommittedConfigurationIndexes with
      | index :: _ => .error (.configuration (.uncommittedConfiguration index))
      | [] => .ok ()

/-- `Node::stable_effective_membership`. -/
def stableEffectiveMembership (n : Node) : Except ConfigurationProposalRejection MembershipSet :=
  match n.effectiveMembership with
  | .stable m => .ok m
  | .joint _ => .error (.stableConfigurationRequired .joint)

/-- `Node::next_configuration_id`. -/
def nextConfigurationId (n : Node) : ℕ :=
  match n.effectiveConfigurationEntry with
  | some entry => entry.configId + 1
  | none =>
    match n.committedConfigurationStateAt n.commitIndex with
    | some state => state.configId + 1
    | none => 1

/-- The first learner id with two barriers. -/
def duplicateBarrier : List NodeId → List PromotionBarrier → Option NodeId
  | _, [] => none
  | seen, barrier :: rest =>
    if barrier.learnerId ∈ seen then some barrier.learnerId
    else duplicateBarrier (barrier.learnerId :: seen) rest

/-- The loop of `validate_configuration_promotion_barriers` over the voters of the new side: the
promoted learners whose barriers were used. -/
def checkPromotions (n : Node) (barriers : List PromotionBarrier) :
    List NodeId → Except ConfigurationProposalRejection (List NodeId)
  | [] => .ok []
  | promoted :: rest =>
    if n.effectiveMembership.containsVoter promoted then n.checkPromotions barriers rest
    else if !n.effectiveMembership.containsLearner promoted then
      .error (.promotionTargetNotLearner promoted)
    else
      match barriers.find? fun barrier => barrier.learnerId = promoted with
      | none => .error (.missingPromotionBarrier promoted)
      | some barrier =>
        let actual := ((n.leader.progress.get promoted).map (·.matchIndex)).getD 0
        if barrier.requiredMatchIndex ≠ n.commitIndex then
          .error (.stalePromotionBarrier promoted n.commitIndex barrier.requiredMatchIndex)
        else if actual < barrier.requiredMatchIndex then
          .error (.promotionBarrierNotReached promoted barrier.requiredMatchIndex actual)
        else (n.checkPromotions barriers rest).map (promoted :: ·)

/-- `Node::validate_configuration_promotion_barriers`. -/
def validateConfigurationPromotionBarriers (n : Node) (configuration : ConfigurationEntry)
    (barriers : List PromotionBarrier) : Except ConfigurationProposalRejection Unit :=
  match duplicateBarrier [] barriers with
  | some learnerId => .error (.duplicatePromotionBarrier learnerId)
  | none =>
    match configuration with
    | .stable _ _ =>
      match barriers with
      | barrier :: _ => .error (.unusedPromotionBarrier barrier.learnerId)
      | [] => .ok ()
    | .joint _ membership =>
      match n.checkPromotions barriers membership.new.voters with
      | .error rejection => .error rejection
      | .ok used =>
        match barriers.find? fun barrier => barrier.learnerId ∉ used with
        | some barrier => .error (.unusedPromotionBarrier barrier.learnerId)
        | none => .ok ()

/-- `Node::reject_configuration`. -/
def rejectConfiguration (n : Node) (rejection : ConfigurationProposalRejection) : Outcome where
  node := n
  outputs := [.rejectProposal none (.configuration rejection)]

/-- `Node::append_valid_configuration_proposal`. -/
def appendValidConfigurationProposal (n : Node) (configuration : ConfigurationEntry)
    (barriers : List PromotionBarrier) : Outcome :=
  match n.validateConfigurationPromotionBarriers configuration barriers with
  | .error rejection => n.rejectConfiguration rejection
  | .ok () =>
    (n.appendLogEntry { term := n.currentTerm, kind := .configuration configuration }
      ).replicateAppended .ensureContact

/-- Every membership command: the preflight, then the configuration it derives from the effective
membership, then the shared append. -/
def proposeConfiguration (n : Node) (barriers : List PromotionBarrier)
    (derive : Except ConfigurationProposalRejection ConfigurationEntry) : Outcome :=
  match n.validateConfigurationProposalPreflight with
  | .error rejection => { node := n, outputs := [.rejectProposal none rejection] }
  | .ok () =>
    match derive with
    | .error rejection => n.rejectConfiguration rejection
    | .ok configuration => n.appendValidConfigurationProposal configuration barriers

/-- `validated_derived_membership`. -/
def validatedDerivedMembership (result : Except MembershipValidationError MembershipSet) :
    Except ConfigurationProposalRejection MembershipSet :=
  match result with
  | .ok m => .ok m
  | .error error => .error (.invalidMembership error)

/-- `Node::add_learner`. -/
def addLearner (n : Node) (learnerId : NodeId) : Outcome :=
  n.proposeConfiguration [] do
    let current ← n.stableEffectiveMembership
    if learnerId ∈ current.voters ∨ learnerId ∈ current.learners then
      throw (.nodeAlreadyMember learnerId)
    let membership ← validatedDerivedMembership
      (MembershipSet.new current.voters (current.learners ++ [learnerId]))
    return .stable n.nextConfigurationId membership

/-- `Node::promote_learner`. -/
def promoteLearner (n : Node) (learnerId : NodeId) (barrier : PromotionBarrier) : Outcome :=
  n.proposeConfiguration [barrier] do
    let current ← n.stableEffectiveMembership
    if learnerId ∉ current.learners then throw (.promotionTargetNotLearner learnerId)
    let target ← validatedDerivedMembership
      (MembershipSet.new (current.voters ++ [learnerId]) (current.learners.filter (· ≠ learnerId)))
    return .joint n.nextConfigurationId ⟨current, target⟩

/-- `Node::remove_voter`. -/
def removeVoter (n : Node) (voterId : NodeId) : Outcome :=
  n.proposeConfiguration [] do
    let current ← n.stableEffectiveMembership
    if voterId ∉ current.voters then throw (.voterNotFound voterId)
    if current.voters.length = 1 then throw (.cannotRemoveLastVoter voterId)
    let target ← validatedDerivedMembership
      (MembershipSet.new (current.voters.filter (· ≠ voterId)) current.learners)
    return .joint n.nextConfigurationId ⟨current, target⟩

/-- `Node::enter_joint`. -/
def enterJoint (n : Node) (target : MembershipSet) (barriers : List PromotionBarrier) : Outcome :=
  n.proposeConfiguration barriers do
    let current ← n.stableEffectiveMembership
    if target = current then throw .targetMembershipUnchanged
    return .joint n.nextConfigurationId ⟨current, target⟩

/-- `Node::leave_joint`. -/
def leaveJoint (n : Node) : Outcome :=
  n.proposeConfiguration []
    (match n.effectiveMembership with
      | .joint joint => .ok (.stable n.nextConfigurationId joint.new)
      | .stable _ => .error (.jointConfigurationRequired .stable))

/-- `Node::change_membership`. -/
def changeMembership (n : Node) (target : MembershipSet) (barriers : List PromotionBarrier) :
    Outcome :=
  n.proposeConfiguration barriers
    (match n.effectiveMembership with
      | .stable current =>
        if target = current then .error .targetMembershipUnchanged
        else if target.voters = current.voters then .ok (.stable n.nextConfigurationId target)
        else .ok (.joint n.nextConfigurationId ⟨current, target⟩)
      | .joint joint =>
        if target = joint.new then .ok (.stable n.nextConfigurationId target)
        else .error .targetMembershipDoesNotMatchJointNewSide)

/-- `Node::dangerous_raw_configuration_proposal`. -/
def dangerousRawConfigurationProposal (n : Node) (configuration : ConfigurationEntry)
    (barriers : List PromotionBarrier) : Outcome :=
  n.proposeConfiguration barriers (.ok configuration)

end Node

end Rafter
