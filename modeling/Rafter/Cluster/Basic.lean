import Rafter.Node.Bootstrap
import Rafter.Node.Step
import Mathlib.Logic.Function.Basic

/-!
# Clusters of nodes

The system `Node.step` is part of: nodes that share one static voter set, and a network that
keeps every emitted output and may deliver any of them at any time, any number of times or never.

An event is an input to one node, the delivery of an emission, a local snapshot, a restart from
the durable state, or a drain of committed outputs. `Cluster.step` is `none` where the event is
not possible: a message input comes from a delivery only, and the raw configuration proposal is
not an event.
-/

namespace Rafter

/-- The configurations of all nodes. Nodes outside the static voter set join later, as learners. -/
structure ClusterConfig where
  voters : MembershipSet
  learners_eq : voters.learners = []
  config : NodeId → NodeConfig
  id_eq : ∀ i, (config i).id = i
  static_eq : ∀ i, (config i).staticMembership = .stable voters

/-- A cluster whose nodes all have the same options. -/
def ClusterConfig.uniform (voters : MembershipSet) (h : voters.learners = [])
    (options : NodeConfig) : ClusterConfig where
  voters := voters
  learners_eq := h
  config i := { options with id := i, staticMembership := .stable voters }
  id_eq _ := rfl
  static_eq _ := rfl

/-- One output of one node, with the input it answers. -/
structure Emission where
  node : NodeId
  cause : Option Input
  output : Output
deriving DecidableEq

/-- The emission brings node `i` the message: as it was sent, or with the bytes of a chunk. -/
def Emission.carries (e : Emission) (i : NodeId) (m : Message) : Prop :=
  e.output = .send i m ∨ ∃ chunk bytes request, e.output = .sendSnapshotChunk i chunk ∧
    chunk.resolve bytes = some request ∧ m = .installSnapshotChunk request

/-- The nodes and everything they have emitted. -/
structure Cluster where
  nodes : NodeId → Node
  emitted : List Emission

/-- What happens next. -/
inductive Event where
  | input (i : NodeId) (input : Input)
  | deliver (k : ℕ)
  | deliverChunk (k : ℕ) (bytes : Payload)
  | localSnapshot (i : NodeId) (snapshot : RaftSnapshot)
  | restart (i : NodeId) (commitIndex : ℕ) (stored : Option CommittedConfiguration)
  | drainCommitted (i : NodeId)
deriving DecidableEq

/-- The inputs an application gives to a node: all but peer messages and the raw proposal. -/
def Input.isLocal : Input → Bool
  | .message _ _ => false
  | .dangerousRawConfigurationProposal _ _ => false
  | _ => true

namespace Cluster

variable {cfg : ClusterConfig} {events : List Event} {c : Cluster}

/-- Every node is new. -/
def initial (cfg : ClusterConfig) : Cluster where
  nodes i := Node.new (cfg.config i)
  emitted := []

/-- Replace a node by what a transition left and record the outputs. -/
def record (c : Cluster) (i : NodeId) (cause : Option Input) (o : Outcome) : Cluster where
  nodes := Function.update c.nodes i o.node
  emitted := c.emitted ++ o.outputs.map (Emission.mk i cause)

/-- One `Node::step` of node `i`. -/
def stepNode (c : Cluster) (i : NodeId) (input : Input) : Cluster :=
  c.record i (some input) ((c.nodes i).step input)

/-- A descriptor that tells the truth: it captures the configuration at its boundary, and no later
hard state than the node's. -/
def truthfulDescriptor (n : Node) (snapshot : RaftSnapshot) : Bool :=
  snapshot.metadata.committedConfiguration.isSome
    && decide (snapshot.metadata.hardStateTerm ≤ n.currentTerm)
    && decide (snapshot.applicationPayloadLen ≤ u64Max)

/-- The durable images a restart may find: a commit index between the snapshot boundary and the
live one, and the configuration committed there or none. -/
def durable (n : Node) (commitIndex : ℕ) (stored : Option CommittedConfiguration) : Bool :=
  decide (n.snapshotIndex ≤ commitIndex) && decide (commitIndex ≤ n.commitIndex)
    && (stored.isNone || decide (stored = n.committedConfigurationStateAt commitIndex))

/-- One event; none if it is not enabled. -/
def step (c : Cluster) : Event → Option Cluster
  | .input i input => if input.isLocal then some (c.stepNode i input) else none
  | .deliver k =>
    match c.emitted[k]? with
    | some { node := sender, output := .send recipient message, .. } =>
      some (c.stepNode recipient (.message sender message))
    | _ => none
  | .deliverChunk k bytes =>
    match c.emitted[k]? with
    | some { node := sender, output := .sendSnapshotChunk recipient chunk, .. } =>
      (chunk.resolve bytes).map fun message =>
        c.stepNode recipient (.message sender (.installSnapshotChunk message))
    | _ => none
  | .localSnapshot i snapshot =>
    if truthfulDescriptor (c.nodes i) snapshot then
      match (c.nodes i).installLocalSnapshot snapshot with
      | .ok o => some (c.record i none o)
      | .error _ => none
    else none
  | .restart i commitIndex stored =>
    if durable (c.nodes i) commitIndex stored then
      match Node.fromBootstrap (c.nodes i).config
          ((c.nodes i).bootstrapState commitIndex stored) with
      | .ok n => some (c.record i none { node := n, outputs := [] })
      | .error _ => none
    else none
  | .drainCommitted i => some (c.record i none (c.nodes i).emitCommittedOutputs)

/-- A run of events. -/
def run (c : Cluster) : List Event → Option Cluster
  | [] => some c
  | e :: rest => (c.step e).bind (run · rest)

/-- The clusters some run of the initial one leads to. -/
def Reachable (cfg : ClusterConfig) (c : Cluster) : Prop :=
  ∃ events, (initial cfg).run events = some c

/-- The cluster after a run, if the run is possible. -/
def after (cfg : ClusterConfig) (events : List Event) : Cluster :=
  ((initial cfg).run events).getD (initial cfg)

theorem run_after (h : ((initial cfg).run events).isSome) :
    (initial cfg).run events = some (after cfg events) := by
  obtain ⟨c, hc⟩ := Option.isSome_iff_exists.1 h
  rw [after, hc, Option.getD_some]

theorem reachable_after (h : ((initial cfg).run events).isSome) :
    Reachable cfg (after cfg events) :=
  ⟨events, run_after h⟩

theorem run_append (c : Cluster) (as bs : List Event) :
    c.run (as ++ bs) = (c.run as).bind (run · bs) := by
  induction as generalizing c with
  | nil => rfl
  | cons e rest ih =>
    rw [List.cons_append, run, run, Option.bind_assoc]
    exact Option.bind_congr fun c' _ => ih c'

/-- A run goes on from where its first part ended. -/
theorem run_after_append (cfg : ClusterConfig) (as bs : List Event)
    (h : ((initial cfg).run (as ++ bs)).isSome) :
    (initial cfg).run as = some (after cfg as) ∧
      (after cfg as).run bs = some (after cfg (as ++ bs)) := by
  have hrun := run_after h
  rw [run_append] at hrun
  obtain ⟨c, hc, hbs⟩ := Option.bind_eq_some_iff.1 hrun
  have has := run_after (Option.isSome_iff_exists.2 ⟨c, hc⟩)
  obtain rfl := Option.some_inj.1 (hc.symm.trans has)
  exact ⟨has, hbs⟩

/-- What holds initially and is kept by every step holds in every reachable cluster. -/
theorem Reachable.induction {P : Cluster → Prop} (h₀ : P (initial cfg))
    (hstep : ∀ c e c', P c → c.step e = some c' → P c') (hc : Reachable cfg c) : P c := by
  obtain ⟨events, hrun⟩ := hc
  revert h₀ hrun
  generalize initial cfg = c₀
  induction events generalizing c₀ with
  | nil =>
    rintro h₀ ⟨⟩
    exact h₀
  | cons e rest ih =>
    intro h₀ hrun
    obtain ⟨c₁, hc₁, hrun⟩ := Option.bind_eq_some_iff.1 hrun
    exact ih c₁ (hstep _ _ _ h₀ hc₁) hrun

/-! ## What an event does -/

/-- What an event makes of node `i`: the input it is given, if any, and the outcome. -/
inductive Occurs (c : Cluster) (i : NodeId) : Option Input → Outcome → Prop
  | input (input : Input) (hlocal : input.isLocal) :
    Occurs c i (some input) ((c.nodes i).step input)
  | deliver (e : Emission) (m : Message) (he : e ∈ c.emitted) (hm : e.carries i m) :
    Occurs c i (some (.message e.node m)) ((c.nodes i).step (.message e.node m))
  | localSnapshot {snapshot : RaftSnapshot} {o : Outcome}
    (htruthful : truthfulDescriptor (c.nodes i) snapshot)
    (hok : (c.nodes i).installLocalSnapshot snapshot = .ok o) : Occurs c i none o
  | restart {commitIndex : ℕ} {stored : Option CommittedConfiguration} {n : Node}
    (hdurable : durable (c.nodes i) commitIndex stored)
    (hok : Node.fromBootstrap (c.nodes i).config
      ((c.nodes i).bootstrapState commitIndex stored) = .ok n) : Occurs c i none ⟨n, []⟩
  | drainCommitted : Occurs c i none (c.nodes i).emitCommittedOutputs

theorem step_occurs {c' : Cluster} {event : Event} (h : c.step event = some c') :
    ∃ i cause o, c.Occurs i cause o ∧ c' = c.record i cause o := by
  cases event with
  | input i input =>
    rw [step, Option.ite_none_right_eq_some] at h
    obtain ⟨hlocal, h⟩ := h
    exact ⟨i, _, _, .input input hlocal, (Option.some_inj.1 h).symm⟩
  | deliver k =>
    rw [step] at h
    split at h
    · rename_i sender cause recipient message hk
      exact ⟨recipient, _, _, .deliver _ message (List.mem_of_getElem? hk) (.inl rfl),
        (Option.some_inj.1 h).symm⟩
    · simp at h
  | deliverChunk k bytes =>
    rw [step] at h
    split at h
    · rename_i sender cause recipient chunk hk
      obtain ⟨request, hrequest, rfl⟩ := Option.map_eq_some_iff.1 h
      exact ⟨recipient, _, _, .deliver _ _ (List.mem_of_getElem? hk)
        (.inr ⟨chunk, bytes, request, rfl, hrequest, rfl⟩), rfl⟩
    · simp at h
  | localSnapshot i snapshot =>
    rw [step, Option.ite_none_right_eq_some] at h
    obtain ⟨htruthful, h⟩ := h
    split at h
    · rename_i o ho
      exact ⟨i, _, _, .localSnapshot htruthful ho, (Option.some_inj.1 h).symm⟩
    · simp at h
  | restart i commitIndex stored =>
    rw [step, Option.ite_none_right_eq_some] at h
    obtain ⟨hdurable, h⟩ := h
    split at h
    · rename_i n hn
      exact ⟨i, _, _, .restart hdurable hn, (Option.some_inj.1 h).symm⟩
    · simp at h
  | drainCommitted i => exact ⟨i, _, _, .drainCommitted, (Option.some_inj.1 h).symm⟩

end Cluster

end Rafter
