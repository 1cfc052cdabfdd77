import Rafter.Service.Membership

/-!
# The control plane of the transport driver

`TransportRaftDriver` (`crates/rafter-service/src/driver/transport/`) as far as it decides who may
speak: staging and installing membership (`install.rs`, `reconciliation.rs`, `transaction.rs`),
stating the peer policy to the link layer (`policy.rs`), standing (`standing.rs`), construction,
adoption and release (`construction.rs`, `takeover.rs`, `adopted.rs`, `handover.rs`), and the
record an embedder persists (`durable.rs`).

Waiters, metrics and refusal counters are left out: no control-plane rule reads them. A group is
what the control plane reads of it, and the transport is the list of `update_peers` calls made.
What the validator and the transport answer to one flush is an input (`LinkAnswer`), and so are the
membership events a step or a recovery replay hands back.
-/

namespace Rafter.Service

/-! ## Conditions -/

/-- `Contradiction`. -/
inductive Contradiction where
  | currentState (through : ℕ)
  | transitionPredecessor (through : ℕ)
deriving DecidableEq

/-- `DriverServiceState`. -/
inductive DriverServiceState where
  | serving
  | decommissioned (nodeId : NodeId)
  | notMember (nodeId : NodeId)
  | contradictoryCurrentState (through : ℕ)
  | contradictoryTransitionPredecessor (through : ℕ)
  | released
  | shuttingDown
deriving DecidableEq

/-- `DriverUnavailableReason`. -/
inductive DriverUnavailableReason where
  | decommissioned
  | notMember
  | contradictoryCurrentState
  | contradictoryTransitionPredecessor
  | released
  | shuttingDown
deriving DecidableEq

namespace Contradiction

/-- `Contradiction::of`. -/
def of : ControlPlaneCheckpointError → Option Contradiction
  | .contradictoryCurrentState through => some (currentState through)
  | .contradictoryTransitionPredecessor through => some (transitionPredecessor through)
  | _ => none

/-- `Contradiction::restored`. -/
def restored (through : ℕ) : Contradiction := currentState through

/-- `Contradiction::through`. -/
def through : Contradiction → ℕ
  | currentState through => through
  | transitionPredecessor through => through

/-- `Contradiction::service_state`. -/
def serviceState : Contradiction → DriverServiceState
  | currentState through => .contradictoryCurrentState through
  | transitionPredecessor through => .contradictoryTransitionPredecessor through

/-- `Contradiction::refusal`. -/
def refusal : Contradiction → ControlPlaneCheckpointError
  | currentState through => .contradictoryCurrentState through
  | transitionPredecessor through => .contradictoryTransitionPredecessor through

@[simp] theorem of_refusal (k : Contradiction) : of k.refusal = some k := by
  cases k <;> rfl

end Contradiction

/-- Why `adopted_watermarks` refuses a group. -/
inductive WatermarkRefusal where
  | poisonedGroup
  | nonQuiescentGroup
  | localProposalIdExhausted
  | readIdExhausted
deriving DecidableEq

/-- `ManagedDriverError`, the variants the control plane's entry points raise. -/
inductive ManagedDriverError where
  | shuttingDown
  | noGroup
  | groupAlreadyAdopted
  | mixedGroups
  | retiredNodeId (nodeId : NodeId)
  | controlPlaneContradicted (reason : ControlPlaneCheckpointError)
  | invalidControlPlaneCheckpoint (reason : ControlPlaneCheckpointError)
  | watermarks (refusal : WatermarkRefusal)
  | group
deriving DecidableEq

/-! ## State -/

/-- What the control plane reads of a group's runtime. -/
structure RuntimeView where
  commitIndex : ℕ
  committedMembership : MembershipConfig
  membership : MembershipConfig

/-- A group handed to a driver; `refusal` is what `adopted_watermarks` answers for it. -/
structure OfferedGroup (G : Type) where
  groupId : G
  nodeId : NodeId
  runtime : RuntimeView
  refusal : Option WatermarkRefusal

/-- `DesiredPeerPolicy`. -/
structure DesiredPeerPolicy where
  peers : Finset NodeId
  retirementFloor : Option NodeId
deriving DecidableEq

/-- One call of `update_peers`: the local replica, the policy, and whether it was accepted. -/
structure PeerUpdate where
  nodeId : NodeId
  policy : DesiredPeerPolicy
  accepted : Bool
deriving DecidableEq

/-- How one flush ends: the validator cannot name a peer, the transport refuses, or it accepts. -/
inductive LinkAnswer where
  | unnamed
  | refused
  | accepted
deriving DecidableEq

/-- `StagedMembership`. -/
structure StagedMembership where
  candidate : MembershipCandidate
  refused : Option ControlPlaneCheckpointError

/-- `TransportDriverState`. -/
structure Driver (G : Type) where
  groupId : G
  nodeId : NodeId
  group : Option RuntimeView
  transport : List PeerUpdate
  effectiveMembers : Finset NodeId
  committedMembers : Finset NodeId
  currentCommitted : Option CurrentCommittedState
  committedIdHighWater : Option NodeId
  publishedPolicy : Option DesiredPeerPolicy
  contradiction : Option Contradiction
  stagedMembership : Option StagedMembership
  checkpointEpoch : ℕ
  shuttingDown : Bool

namespace Driver

variable {G : Type}

/-! ## Readings -/

/-- `control_plane_checkpoint`. -/
def controlPlaneCheckpoint (d : Driver G) : PeerControlPlaneCheckpoint G :=
  ⟨d.groupId, d.committedIdHighWater, d.currentCommitted, d.contradiction.map Contradiction.through⟩

/-- `live_committed_members`. -/
def liveCommittedMembers (d : Driver G) : Finset NodeId :=
  (d.currentCommitted.map CurrentCommittedState.membership).getD ∅

/-- `is_spent`. -/
def isSpent (d : Driver G) (n : NodeId) : Bool :=
  d.committedIdHighWater.any (n ≤ ·) && !decide (n ∈ d.liveCommittedMembers)

/-- `is_admitted`. -/
def isAdmitted (d : Driver G) (n : NodeId) : Bool :=
  !d.isSpent n && (decide (n ∈ d.effectiveMembers) || decide (n ∈ d.committedMembers) ||
    decide (n ∈ d.liveCommittedMembers))

/-- `authorized_members`. -/
def authorizedMembers (d : Driver G) : Finset NodeId :=
  d.effectiveMembers ∪ d.committedMembers ∪ d.liveCommittedMembers

/-- `desired_peers`. -/
def desiredPeers (d : Driver G) : Finset NodeId :=
  d.authorizedMembers.filter fun n => n ≠ d.nodeId ∧ d.isSpent n = false

/-- `desired_policy`. -/
def desiredPolicy (d : Driver G) : DesiredPeerPolicy := ⟨d.desiredPeers, d.committedIdHighWater⟩

/-- `runtime_effective_members`. -/
def runtimeEffectiveMembers (d : Driver G) : Option (Finset NodeId) :=
  d.group.map fun runtime => members runtime.membership

/-- `recorded_contradiction`. -/
def recordedContradiction (d : Driver G) : Option ControlPlaneCheckpointError :=
  d.contradiction.map Contradiction.refusal

/-- `membership_candidate`. -/
def membershipCandidate (d : Driver G) : MembershipCandidate :=
  ⟨d.effectiveMembers, d.committedMembers, d.currentCommitted, d.committedIdHighWater⟩

/-- `service_state`. -/
def serviceState (d : Driver G) : DriverServiceState :=
  if d.shuttingDown then .shuttingDown
  else match d.contradiction with
  | some contradiction => contradiction.serviceState
  | none =>
    if d.group.isNone then .released
    else if d.isSpent d.nodeId then .decommissioned d.nodeId
    else if d.nodeId ∉ d.effectiveMembers ∧ d.nodeId ∉ d.committedMembers then .notMember d.nodeId
    else .serving

/-- `reject_if_not_serving`. -/
def rejectIfNotServing (d : Driver G) : Except DriverUnavailableReason Unit :=
  match d.serviceState with
  | .serving => .ok ()
  | .decommissioned _ => .error .decommissioned
  | .notMember _ => .error .notMember
  | .contradictoryCurrentState _ => .error .contradictoryCurrentState
  | .contradictoryTransitionPredecessor _ => .error .contradictoryTransitionPredecessor
  | .released => .error .released
  | .shuttingDown => .error .shuttingDown

end Driver

/-- What a client operation is refused with before it starts. -/
inductive ClientRefusal where
  | shuttingDown
  | wrongGroup
  | unavailable (reason : DriverUnavailableReason)
deriving DecidableEq

namespace Driver

variable {G : Type} [DecidableEq G]

/-- The gate `begin_write` and `reject_read_before_start` open with. -/
def rejectBeforeStart (d : Driver G) (groupId : G) : Except ClientRefusal Unit :=
  if d.shuttingDown then .error .shuttingDown
  else if groupId ≠ d.groupId then .error .wrongGroup
  else d.rejectIfNotServing.mapError .unavailable

/-! ## Stating and installing -/

/-- `advance_checkpoint_epoch`: the epoch saturates. -/
def advanceCheckpointEpoch (d : Driver G) : Driver G :=
  { d with checkpointEpoch := min (d.checkpointEpoch + 1) u64Max }

/-- `record_contradiction`: the first one wins, and only the two terminal shapes count. -/
def recordContradiction (d : Driver G) (reason : ControlPlaneCheckpointError) : Driver G :=
  match Contradiction.of reason with
  | none => d
  | some contradiction =>
    if d.contradiction.isSome then d
    else ({ d with contradiction := some contradiction }).advanceCheckpointEpoch

/-- `flush_peer_policy`. -/
def flushPeerPolicy (d : Driver G) (answer : LinkAnswer) : Driver G :=
  if d.contradiction.isSome then d
  else if d.publishedPolicy = some d.desiredPolicy then d
  else match answer with
  | .unnamed => d
  | .refused => { d with transport := d.transport ++ [⟨d.nodeId, d.desiredPolicy, false⟩] }
  | .accepted =>
    { d with
      transport := d.transport ++ [⟨d.nodeId, d.desiredPolicy, true⟩]
      publishedPolicy := some d.desiredPolicy }

/-- The checkpointable half of `assign_membership`. -/
def assignRecord (d : Driver G) (candidate : MembershipCandidate) : Driver G :=
  let assigned := { d with
    currentCommitted := candidate.currentCommitted
    committedIdHighWater := candidate.committedIdHighWater }
  if d.controlPlaneCheckpoint ≠ assigned.controlPlaneCheckpoint then
    assigned.advanceCheckpointEpoch
  else assigned

/-- `assign_membership`: a contradicted driver takes the live half alone. -/
def assignMembership (d : Driver G) (candidate : MembershipCandidate) : Driver G :=
  let lively := { d with
    effectiveMembers := candidate.effectiveMembers
    committedMembers := candidate.committedMembers }
  if d.contradiction.isSome then lively else lively.assignRecord candidate

/-- `install_membership`. -/
def installMembership (d : Driver G) (candidate : MembershipCandidate) (answer : LinkAnswer) :
    Driver G :=
  (d.assignMembership candidate).flushPeerPolicy answer

/-- `install_restored_membership`. -/
def installRestoredMembership (d : Driver G) (candidate : MembershipCandidate) : Driver G :=
  d.assignMembership candidate

/-! ## Batches -/

/-- One event of `fold_membership_events`. -/
def foldMembershipEvent (d : Driver G) (c : MembershipCandidate) (event : MembershipEvent G) :
    Except ControlPlaneCheckpointError MembershipCandidate :=
  match observedMembership event with
  | .effective effective => c.apply (.effective effective)
  | .committed fact =>
    c.apply (.committed fact (d.runtimeEffectiveMembers.getD c.effectiveMembers))
  | .nothing => .ok c

/-- `fold_membership_events`. -/
def foldMembershipEvents (d : Driver G) (c : MembershipCandidate)
    (events : List (MembershipEvent G)) :
    Except ControlPlaneCheckpointError MembershipCandidate :=
  events.foldlM d.foldMembershipEvent c

/-- `absorb_membership_events`. -/
def absorbMembershipEvents (d : Driver G) (events : List (MembershipEvent G))
    (answer : LinkAnswer) : Driver G :=
  match d.foldMembershipEvents d.membershipCandidate events with
  | .error reason => d.recordContradiction reason
  | .ok candidate => d.installMembership candidate answer

/-- The staged half of `route_membership_events`. A refused candidate is dropped whole, so the
prefix that folded is not kept. -/
def stageMembershipEvents (d : Driver G) (staged : StagedMembership)
    (events : List (MembershipEvent G)) : Driver G :=
  if staged.refused.isNone && d.contradiction.isNone then
    match d.foldMembershipEvents staged.candidate events with
    | .error reason => { d with stagedMembership := some ⟨staged.candidate, some reason⟩ }
    | .ok candidate => { d with stagedMembership := some ⟨candidate, none⟩ }
  else d

/-- `route_membership_events`. -/
def routeMembershipEvents (d : Driver G) (events : List (MembershipEvent G))
    (answer : LinkAnswer) : Driver G :=
  if events.isEmpty then d
  else match d.stagedMembership with
  | some staged => d.stageMembershipEvents staged events
  | none => d.absorbMembershipEvents events answer

end Driver

/-- One batch of membership events and how the flush behind it ends. -/
structure Batch (G : Type) where
  events : List (MembershipEvent G)
  answer : LinkAnswer

/-- What `apply_recovery_outputs` of a group hands back: the report's events and those drained
after it, and whether the outputs failed to apply. -/
structure Recovery (G : Type) where
  batches : List (Batch G)
  failed : Bool

namespace Driver

variable {G : Type} [DecidableEq G]

/-- Route the batches in order. -/
def routeBatches (d : Driver G) (batches : List (Batch G)) : Driver G :=
  batches.foldl (fun d batch => d.routeMembershipEvents batch.events batch.answer) d

/-- The result of `apply_recovery_outputs`. -/
def recoveryResult (d : Driver G) (recovery : Recovery G) : Except ManagedDriverError Unit :=
  if d.group.isNone then .error .noGroup
  else if recovery.failed then .error .group
  else .ok ()

/-- `apply_recovery_outputs`. -/
def applyRecoveryOutputs (d : Driver G) (recovery : Recovery G) : Driver G :=
  if d.group.isNone then d else d.routeBatches recovery.batches

/-! ## Construction and adoption -/

/-- `adopted_observation`. -/
def adoptedObservation (runtime : RuntimeView) : CommittedObservation :=
  .endpoint runtime.commitIndex runtime.committedMembership

/-- The fact `adopted_observation` is folded as. -/
def adoptedFact (runtime : RuntimeView) : MembershipFact :=
  .committed (adoptedObservation runtime) (members runtime.membership)

/-- `publish_adopted_membership`. -/
def publishAdoptedMembership (d : Driver G) (answer : LinkAnswer) :
    Driver G × Except ControlPlaneCheckpointError Unit :=
  match d.group with
  | none => (d, .ok ())
  | some runtime =>
    match d.membershipCandidate.apply (adoptedFact runtime) with
    | .error reason => (d.recordContradiction reason, .error reason)
    | .ok candidate => (d.installMembership candidate answer, .ok ())

/-- `open_membership_transaction`. The record goes on before the marker, which freezes it. -/
def openMembershipTransaction (d : Driver G) (checkpoint : PeerControlPlaneCheckpoint G) :
    Except ControlPlaneCheckpointError (Driver G) :=
  match restoreCheckpoint d.membershipCandidate checkpoint d.groupId .resume with
  | .error reason => .error reason
  | .ok (candidate, none) => .ok { d with stagedMembership := some ⟨candidate, none⟩ }
  | .ok (candidate, some through) =>
    let marked := (d.installRestoredMembership candidate).recordContradiction
      (Contradiction.restored through).refusal
    .ok { marked with stagedMembership := some ⟨marked.membershipCandidate, none⟩ }

/-- `assign_runtime_membership`. -/
def assignRuntimeMembership (d : Driver G) : Driver G :=
  match d.group with
  | none => d
  | some runtime =>
    { d with
      committedMembers := (adoptedObservation runtime).membership
      effectiveMembers := members runtime.membership }

/-- The end of `commit_membership_transaction`, once no input refused. -/
def commitCandidate (d : Driver G) (candidate : MembershipCandidate) (answer : LinkAnswer) :
    Driver G × Except ControlPlaneCheckpointError Unit :=
  match d.group with
  | none => (d.installMembership candidate answer, .ok ())
  | some runtime =>
    match candidate.apply (adoptedFact runtime) with
    | .error reason => (d.recordContradiction reason, .error reason)
    | .ok candidate => (d.installMembership candidate answer, .ok ())

/-- `commit_membership_transaction`. -/
def commitMembershipTransaction (d : Driver G) (answer : LinkAnswer) :
    Driver G × Except ControlPlaneCheckpointError Unit :=
  match d.stagedMembership with
  | none => d.publishAdoptedMembership answer
  | some staged =>
    let closed := { d with stagedMembership := none }
    match staged.refused with
    | some reason => (closed.recordContradiction reason, .error reason)
    | none =>
      if closed.contradiction.isSome then (closed.assignRuntimeMembership, .ok ())
      else closed.commitCandidate staged.candidate answer

/-- The state `with_control_plane_checkpoint` starts from. -/
def fresh (group : OfferedGroup G) (transport : List PeerUpdate) : Driver G where
  groupId := group.groupId
  nodeId := group.nodeId
  group := some group.runtime
  transport := transport
  effectiveMembers := ∅
  committedMembers := ∅
  currentCommitted := none
  committedIdHighWater := none
  publishedPolicy := none
  contradiction := none
  stagedMembership := none
  checkpointEpoch := 0
  shuttingDown := false

/-- `with_control_plane_checkpoint`; `new` is the case of the empty record. The driver is the
caller's only if the result is `ok`; its transport has received the calls either way. -/
def withControlPlaneCheckpoint (group : OfferedGroup G) (recovery : Recovery G)
    (transport : List PeerUpdate) (checkpoint : PeerControlPlaneCheckpoint G)
    (answer : LinkAnswer) : Driver G × Except ManagedDriverError Unit :=
  match group.refusal with
  | some refusal => (fresh group transport, .error (.watermarks refusal))
  | none =>
    match (fresh group transport).openMembershipTransaction checkpoint with
    | .error reason => (fresh group transport, .error (.invalidControlPlaneCheckpoint reason))
    | .ok opened =>
      let recovered := opened.applyRecoveryOutputs recovery
      match opened.recoveryResult recovery with
      | .error e => (recovered, .error e)
      | .ok () =>
        ((recovered.commitMembershipTransaction answer).1,
          (recovered.commitMembershipTransaction answer).2.mapError
            .invalidControlPlaneCheckpoint)

/-- `adoption_candidate`. -/
def adoptionCandidate (d : Driver G) (checkpoint : PeerControlPlaneCheckpoint G)
    (runtime : RuntimeView) : Except ControlPlaneCheckpointError MembershipCandidate := do
  let (candidate, _) ← restoreCheckpoint d.membershipCandidate checkpoint d.groupId .merge
  candidate.probe (adoptedObservation runtime)
  return candidate

/-- The publication at the end of an adoption. -/
def publishUnlessContradicted (d : Driver G) (answer : LinkAnswer) :
    Driver G × Except ControlPlaneCheckpointError Unit :=
  match d.recordedContradiction with
  | some reason => (d, .error reason)
  | none => d.publishAdoptedMembership answer

/-- The installing half of `adopt_group_with_checkpoint`: the group is in, and stays in. -/
def installAdopted (d : Driver G) (group : OfferedGroup G) (recovery : Recovery G)
    (candidate : MembershipCandidate) (answer : LinkAnswer) :
    Driver G × Except ManagedDriverError Unit :=
  let installed := ({ d with nodeId := group.nodeId, group := some group.runtime }
    ).installRestoredMembership candidate
  let recovered := installed.applyRecoveryOutputs recovery
  ((recovered.publishUnlessContradicted answer).1,
    match installed.recoveryResult recovery with
    | .error e => .error e
    | .ok () =>
      (recovered.publishUnlessContradicted answer).2.mapError .invalidControlPlaneCheckpoint)

/-- `adopt_group_with_checkpoint`; `adopt_group` is the case of the empty record. -/
def adoptGroupWithCheckpoint (d : Driver G) (group : OfferedGroup G) (recovery : Recovery G)
    (checkpoint : PeerControlPlaneCheckpoint G) (answer : LinkAnswer) :
    Driver G × Except ManagedDriverError Unit :=
  if d.shuttingDown then (d, .error .shuttingDown)
  else match d.recordedContradiction with
  | some reason => (d, .error (.controlPlaneContradicted reason))
  | none =>
    if d.group.isSome then (d, .error .groupAlreadyAdopted)
    else if group.groupId ≠ d.groupId then (d, .error .mixedGroups)
    else match d.adoptionCandidate checkpoint group.runtime with
    | .error reason => (d, .error (.invalidControlPlaneCheckpoint reason))
    | .ok candidate =>
      if candidate.isSpent group.nodeId then (d, .error (.retiredNodeId group.nodeId))
      else match group.refusal with
      | some refusal => (d, .error (.watermarks refusal))
      | none => d.installAdopted group recovery candidate answer

/-- `release_group`. -/
def releaseGroup (d : Driver G) : Driver G × Except ManagedDriverError Unit :=
  match d.group with
  | none => (d, .error .noGroup)
  | some _ => ({ d with group := none }, .ok ())

/-- A step of the group: the runtime moves, and the events it hands back are routed. A driver that
holds no group has nothing to step. -/
def stepGroup (d : Driver G) (runtime : RuntimeView) (batches : List (Batch G)) : Driver G :=
  match d.group with
  | none => d
  | some _ => ({ d with group := some runtime }).routeBatches batches

end Driver

/-! ## Processes -/

/-- What is done to a running driver. `tick`, `deliver`, `change_membership` and
`drive_pending_reads` are a flush and a step; a client operation that starts is a step. -/
inductive Call (G : Type) where
  | flush (answer : LinkAnswer)
  | step (runtime : RuntimeView) (batches : List (Batch G))
  | release
  | adopt (group : OfferedGroup G) (recovery : Recovery G)
      (checkpoint : PeerControlPlaneCheckpoint G) (answer : LinkAnswer)
  | shutdown

section Runs

variable {G : Type} [DecidableEq G]

/-- One call on the driver. -/
def Driver.call (d : Driver G) : Call G → Driver G
  | .flush answer => d.flushPeerPolicy answer
  | .step runtime batches => d.stepGroup runtime batches
  | .release => d.releaseGroup.1
  | .adopt group recovery checkpoint answer =>
    (d.adoptGroupWithCheckpoint group recovery checkpoint answer).1
  | .shutdown => { d with shuttingDown := true }

/-- Calls in order. -/
def Driver.calls (d : Driver G) (calls : List (Call G)) : Driver G := calls.foldl Driver.call d

/-- A deployment of one replica: no process, with the record it persisted, or a running driver. -/
inductive World (G : Type) where
  | down (saved : PeerControlPlaneCheckpoint G) (transport : List PeerUpdate)
  | running (driver : Driver G)

/-- What happens to a deployment. -/
inductive Event (G : Type) where
  | call (call : Call G)
  | crash
  | start (group : OfferedGroup G) (recovery : Recovery G) (answer : LinkAnswer)

namespace World

/-- The record of the latest epoch. -/
def checkpoint : World G → PeerControlPlaneCheckpoint G
  | down saved _ => saved
  | running d => d.controlPlaneCheckpoint

/-- The `update_peers` calls made so far, by every process. -/
def transport : World G → List PeerUpdate
  | down _ transport => transport
  | running d => d.transport

/-- A construction attempt over the record of the latest epoch. -/
def start (saved : PeerControlPlaneCheckpoint G) (transport : List PeerUpdate)
    (group : OfferedGroup G) (recovery : Recovery G) (answer : LinkAnswer) : World G :=
  let built := Driver.withControlPlaneCheckpoint group recovery transport saved answer
  match built.2 with
  | .ok () => running built.1
  | .error _ => down saved built.1.transport

/-- One event. -/
def step : World G → Event G → World G
  | running d, .call call => running (d.call call)
  | running d, .crash => down d.controlPlaneCheckpoint d.transport
  | down saved transport, .start group recovery answer =>
    start saved transport group recovery answer
  | w, _ => w

/-- Events in order. -/
def run (w : World G) (events : List (Event G)) : World G := events.foldl step w

/-- Whether a committed removal consumed the identity. -/
def isSpent (w : World G) (n : NodeId) : Bool :=
  spendsUnder w.checkpoint.committedIdHighWater w.checkpoint.currentCommitted n

/-- Whether the identity's frames are admitted: no process admits none. -/
def isAdmitted : World G → NodeId → Bool
  | down _ _, _ => false
  | running d, n => d.isAdmitted n

end World

end Runs

end Rafter.Service
