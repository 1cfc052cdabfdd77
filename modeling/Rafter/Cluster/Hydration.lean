import Rafter.Cluster.Safety
import Rafter.Conduct.Compaction
import Rafter.Node.Hydrate

/-!
# Hydration of the nodes of a cluster

`Node.fromBootstrap` accepts the durable image of every node of a run, and the node it builds is the
same in all that is durable or derived from it, provided the local snapshots of the run were
installed with truthful descriptors. `install_local_snapshot` accepts others, and a node may accept
its way into being unbootable: `Cluster.claimed_term_refused`.

Results:

* `Cluster.reachable_node_hydrates`.
-/

namespace Rafter

open Protocol

namespace Node

variable {c : Occasion} {n n' : Node}

/-- A vote is cast in a term above zero. -/
def VotesInTerm (n : Node) : Prop := n.persistent.votedFor.isSome → n.currentTerm ≠ 0

theorem VotesInTerm.of_eq (h : n.VotesInTerm)
    (hvote : n'.persistent.votedFor = n.persistent.votedFor)
    (hterm : n'.currentTerm = n.currentTerm) : n'.VotesInTerm := by
  unfold VotesInTerm
  rwa [hvote, hterm]

theorem Act.votesInTerm {l : List Observation} (h : Act c n l n')
    (hrequest : ∀ {v request}, c.input = some (.message v (.requestVote request)) →
      request.term ≠ 0) (hn : n.VotesInTerm) : n'.VotesInTerm := by
  cases h with
  | quiet hspine =>
    exact hn.of_eq (eq_of_spine (f := (·.persistent.votedFor)) hspine fun _ => rfl)
      (eq_of_spine (f := currentTerm) hspine fun _ => rfl)
  | follow term =>
    -- a later term starts without a vote
    intro hsome
    have hvote : (if n.currentTerm < term then none else n.persistent.votedFor).isSome := hsome
    show max n.currentTerm term ≠ 0
    split_ifs at hvote with hlt
    · simp at hvote
    · have := hn hvote
      omega
  | campaign term hinput hrole hterm =>
    intro _
    rw [show (n.candidateState term).currentTerm = term from rfl, checkedNext_eq_some hterm]
    exact Nat.succ_ne_zero _
  | vote v request hinput hterm => exact fun _ => hterm ▸ hrequest hinput
  | propose proposal =>
    rcases proposal with ⟨_ | _, _⟩
    · exact hn
    · exact hn
  | dispatch entry =>
    rw [dispatchEntry_node]
    exact hn
  | splice _ hprev hsplice =>
    obtain ⟨f, rest, hspliced, -⟩ := spliced_of_ok hprev hsplice
    obtain ⟨tracker, configuration, hnode, -⟩ := hspliced.node
    rw [hnode]
    exact hn
  | install snapshot =>
    obtain ⟨tracker, dropped, heq, -⟩ := n.installSnapshotState_eq snapshot
    rw [heq]
    exact hn
  | reconcile =>
    obtain ⟨progress, hp⟩ := n.reconcileReplicationProgress_node
    rw [hp]
    exact hn
  | record =>
    obtain ⟨progress, hp⟩ := n.recordLocalProgress_node
    rw [hp]
    exact hn
  | rearm =>
    obtain ⟨lease, hlease⟩ := n.tickReadLease_node
    rw [hlease]
    exact hn
  | renew v response =>
    obtain ⟨lease, hlease⟩ := n.acknowledgeReadLease_node v response.sequence
    rw [hlease]
    exact hn
  | acknowledge v response =>
    obtain ⟨kept, hkept⟩ := n.acknowledgeReadBarriers_node v response.sequence
    rw [hkept]
    exact hn
  | emit | clock | elapse | rest | forget | poll | lead | configure | refuse | commit | hear | reply
  | answer | row | resume | frame | beat | register | grant | reject | transfer => exact hn

theorem Acts.votesInTerm {b : Bool} {rs : List Request} {o : Outcome} (h : n.Acts c b rs o)
    (hrequest : ∀ {v request}, c.input = some (.message v (.requestVote request)) →
      request.term ≠ 0) (hn : n.VotesInTerm) : o.node.VotesInTerm := by
  exact h.invariant (fun hact => hact.votesInTerm hrequest) hn

end Node

variable {cfg : ClusterConfig} {c : Cluster} {s : Ghost} {initial : MembershipConfig} {i : NodeId}
variable {g : List LogEntry}
  {n : Node}

/-- A campaign is in a term above zero, so a vote for it is. -/
theorem Sim.votesInTerm (h : Sim cfg c s) {cause : Option Input} {o : Outcome}
    (ho : c.Occurs i cause o) (hn : (c.nodes i).VotesInTerm) : o.node.VotesInTerm := by
  cases ho with
  | input input hlocal =>
    refine ((c.nodes i).step_acts input).votesInTerm (fun {v request} hinput => ?_) hn
    obtain rfl := Option.some_inj.1 hinput
    simp [Input.isLocal] at hlocal
  | deliver e m he hm =>
    refine ((c.nodes i).step_acts _).votesInTerm (fun {v request} hinput => ?_) hn
    obtain ⟨rfl, rfl⟩ := Input.message.inj (Option.some_inj.1 hinput)
    obtain ⟨y, hy, -⟩ := h.messageOk he hm
    exact (h.inv.cand_pos hy).ne'
  | localSnapshot htruthful hok =>
    have hc := Node.compacted_of_ok hok
    exact hn.of_eq hc.vote hc.term
  | restart hdurable hok =>
    simp only [Cluster.durable, Bool.and_eq_true, decide_eq_true_eq] at hdurable
    obtain ⟨hr, -⟩ := fromBootstrap_ok hdurable.1.1 hok
    exact hn.of_eq hr.votedFor hr.term
  | drainCommitted =>
    exact ((c.nodes i).emitCommittedOutputs_acts (c := ⟨c.nodes i, none⟩) (b := false)).votesInTerm
      (fun hinput => by simp at hinput) hn

theorem Cluster.Reachable.votesInTerm (hc : Reachable cfg c) :
    (∃ s, Sim cfg c s) ∧ ∀ i, (c.nodes i).VotesInTerm := by
  refine hc.induction (P := fun c => (∃ s, Sim cfg c s) ∧ ∀ i, (c.nodes i).VotesInTerm)
    ⟨⟨_, sim_initial cfg⟩, ?_⟩ ?_
  · intro i h
    simp [initial, Node.new] at h
  rintro c event c' ⟨⟨s, hs⟩, hn⟩ hstep
  obtain ⟨s', hs', -⟩ := hs.step hstep
  refine ⟨⟨s', hs'⟩, fun j => ?_⟩
  obtain ⟨i, cause, o, ho, rfl⟩ := step_occurs hstep
  by_cases hj : j = i
  · subst hj
    rw [show (c.record j cause o).nodes j = o.node from Function.update_self ..]
    exact hs.votesInTerm ho (hn j)
  · rw [show (c.record i cause o).nodes j = c.nodes j from Function.update_of_ne hj ..]
    exact hn j

/-! ## Images of nodes that refine the protocol -/

theorem Represents.sound (h : Represents initial n g) : n.Sound :=
  ⟨h.snapshot_le, h.dispatched_le, h.commit_le.trans h.lastLogIndex_eq.ge, h.index⟩

/-- Entries are of the terms of campaigns up to the node's own. -/
theorem NodeOk.validEntry (hI : (raftScheme initial).Inv s) (h : NodeOk initial i s n)
    (hlast : n.lastLogIndex < u64Max) {j : ℕ} {e : LogEntry} (he : n.persistent.log[j]? = some e) :
    Bootstrap.ValidEntry n.currentTerm (n.snapshotIndex + 1 + j) e := by
  have hj := (List.getElem?_eq_some_iff.1 he).1
  rw [h.rep.log, List.getElem?_drop] at he
  obtain ⟨d, hd, -⟩ := hI.log_valid i _ e he
  refine ⟨(hI.cand_pos (hI.lead hd).cand).ne', ?_, ?_⟩
  · rw [← h.term]
    exact hI.log_le i e (List.mem_of_getElem? he)
  · unfold Node.lastLogIndex at hlast
    omega

/-- The committed configuration of a represented log is the one its image is checked against. -/
theorem Represents.validateStored (h : Represents initial n g) {x : CommittedConfiguration}
    (hx : n.committedConfigurationState = some x) :
    Bootstrap.validateStored x (n.persistent.snapshot.map (·.metadata)) n.persistent.log
      (max n.commitIndex n.snapshotIndex) = .ok () := by
  have hsc := h.snapshot_le.trans h.dispatched_le
  rw [Node.committedConfigurationState, h.committedConfigurationStateAt_eq hsc] at hx
  obtain ⟨hle, hat⟩ := configurationStateOf_take_spec hx
  unfold Bootstrap.validateStored
  rw [n.snapshotIndex_eq_getD, Bootstrap.validateFloor, if_neg (by omega)]
  show (if n.snapshotIndex < x.index then _ else _) = _
  by_cases hlt : n.snapshotIndex < x.index
  · -- the configuration is retained
    obtain ⟨hpos, e, configuration, he, hconfiguration, hid⟩ := hat
    have hindex : n.snapshotIndex + (x.index - n.snapshotIndex - 1) = x.index - 1 := by omega
    rw [if_pos hlt, h.log, List.getElem?_drop, hindex, he]
    simp [hconfiguration, Bootstrap.validateIdentity, hid]
  · -- it is the one the snapshot captures
    rw [if_neg hlt]
    have hpos := hat.1
    cases hsnapshot : n.persistent.snapshot with
    | none =>
      have hzero : n.snapshotIndex = 0 := by simp [Node.snapshotIndex, hsnapshot]
      omega
    | some snapshot =>
      obtain ⟨hdescribes, -, -⟩ := h.snapshot snapshot hsnapshot
      obtain ⟨y, hy, hxy, hsame⟩ := index_le_of_configurationAt hat (not_lt.1 hlt)
      obtain ⟨hyle, hyat⟩ := configurationStateOf_take_spec hy
      obtain ⟨z, hz, hyz, -⟩ := index_le_of_configurationAt hyat (hyle.trans hsc)
      obtain rfl := Option.some_inj.1 (hx.symm.trans hz)
      obtain rfl := hsame (hxy.antisymm hyz)
      have hconfiguration := hdescribes.configuration
      rw [← Node.snapshotIndex_eq hsnapshot, hy] at hconfiguration
      simp [RaftSnapshotMetadata.committedMembership,
        RaftSnapshotMetadata.committedConfigurationState, hconfiguration,
        Bootstrap.validateIdentity]

theorem NodeOk.hydrates (hI : (raftScheme initial).Inv s) (h : NodeOk initial i s n)
    (hvote : n.VotesInTerm) (hlast : n.lastLogIndex < u64Max) :
    n.Hydrates n.commitIndex n.committedConfigurationState where
  vote := hvote
  snapshot snapshot hsnapshot := by
    obtain ⟨hdescribes, hterm, -⟩ := h.rep.snapshot snapshot hsnapshot
    refine ⟨hterm, ?_⟩
    rw [RaftSnapshotMetadata.committedMembership, hdescribes.configuration]
    exact hdescribes.writer
  log j e he := h.validEntry hI hlast he
  commit := h.rep.commit_le.trans h.rep.lastLogIndex_eq.ge
  captured x hx := by
    cases hsnapshot : n.persistent.snapshot with
    | none => simp [Node.snapshotCommittedConfigurationState, hsnapshot] at hx
    | some snapshot =>
      obtain ⟨hdescribes, -, -⟩ := h.rep.snapshot snapshot hsnapshot
      rw [Node.snapshotCommittedConfigurationState, hsnapshot, Option.bind_some,
        RaftSnapshotMetadata.committedConfigurationState, hdescribes.configuration] at hx
      rw [Node.snapshotIndex_eq hsnapshot]
      exact (configurationStateOf_take_spec hx).1
  stored x hx := h.rep.validateStored hx

/-! ## Hydration of a run -/

/-- The node `n'` is `n` in all that is durable, and in the configurations derived from it. -/
structure Node.Rehydrates (n n' : Node) : Prop where
  currentTerm : n'.currentTerm = n.currentTerm
  votedFor : n'.persistent.votedFor = n.persistent.votedFor
  log : n'.persistent.log = n.persistent.log
  snapshot : n'.persistent.snapshot = n.persistent.snapshot
  commitIndex : n'.commitIndex = n.commitIndex
  effectiveMembership : n'.effectiveMembership = n.effectiveMembership
  committedMembership : n'.committedMembership = n.committedMembership
  committedConfigurationState : n'.committedConfigurationState = n.committedConfigurationState

theorem Represents.committedMembership_eq (h : Represents initial n g) :
    n.committedMembership = membershipOf initial (g.take n.commitIndex) := by
  rw [h.sound.committedMembership_eq,
    h.membershipAtIndex_eq (h.snapshot_le.trans h.dispatched_le)]

theorem Represents.rehydrates (h : Represents initial n g) {n' : Node}
    (hok : Node.fromBootstrap n.config
      (n.bootstrapState n.commitIndex n.committedConfigurationState) = .ok n') :
        n.Rehydrates n' := by
  have hsc := h.snapshot_le.trans h.dispatched_le
  have h' := h.fromBootstrap hsc le_rfl (.inr rfl) hok
  obtain ⟨hr, -⟩ := fromBootstrap_ok hsc hok
  have hsc' := h'.snapshot_le.trans h'.dispatched_le
  refine ⟨hr.term, hr.votedFor, hr.log, hr.snapshot, hr.commit, ?_, ?_, ?_⟩
  · rw [h'.effectiveMembership_eq, h.effectiveMembership_eq]
  · rw [h'.committedMembership_eq, h.committedMembership_eq, hr.commit]
  · rw [Node.committedConfigurationState, Node.committedConfigurationState,
      h'.committedConfigurationStateAt_eq hsc', h.committedConfigurationStateAt_eq hsc, hr.commit]

namespace Cluster

/-- One event, with any descriptor that `install_local_snapshot` accepts. -/
def stepAny (c : Cluster) : Event → Option Cluster
  | .localSnapshot i snapshot =>
    match (c.nodes i).installLocalSnapshot snapshot with
    | .ok o => some (c.record i none o)
    | .error _ => none
  | event => c.step event

/-- A run of such steps. -/
def runAny (c : Cluster) : List Event → Option Cluster
  | [] => some c
  | e :: rest => (c.stepAny e).bind (runAny · rest)

/-- The descriptor of a local snapshot is truthful. -/
def truthful (c : Cluster) : Event → Bool
  | .localSnapshot i snapshot => truthfulDescriptor (c.nodes i) snapshot
  | _ => true

/-- The run installs truthful descriptors only. -/
def runTruthful (c : Cluster) : List Event → Bool
  | [] => true
  | e :: rest => c.truthful e && (c.stepAny e).all (runTruthful · rest)

theorem step_of_truthful {c : Cluster} {e : Event} (h : c.truthful e) :
    c.step e = c.stepAny e := by
  cases e with
  | localSnapshot i snapshot => exact if_pos h
  | _ => rfl

theorem run_of_truthful {c : Cluster} {events : List Event} (h : c.runTruthful events) :
    c.run events = c.runAny events := by
  induction events generalizing c with
  | nil => rfl
  | cons e rest ih =>
    rw [runTruthful, Bool.and_eq_true] at h
    rw [run, runAny, step_of_truthful h.1]
    refine Option.bind_congr fun c' hc' => ih ?_
    have hrest := h.2
    rwa [hc', Option.all_some] at hrest

/-- In every run whose local snapshots have truthful descriptors, `from_bootstrap` accepts the
durable image of every node whose last index is not the maximal one, and builds the same node. -/
theorem reachable_node_hydrates {events : List Event}
    (hrun : (Cluster.initial cfg).runAny events = some c)
    (htruthful : (Cluster.initial cfg).runTruthful events) (i : NodeId)
    (hlast : (c.nodes i).lastLogIndex < u64Max) :
    ∃ n', Node.fromBootstrap (c.nodes i).config ((c.nodes i).bootstrapState
        (c.nodes i).commitIndex (c.nodes i).committedConfigurationState) = .ok n' ∧
      (c.nodes i).Rehydrates n' := by
  have hc : Reachable cfg c := ⟨events, (run_of_truthful htruthful).trans hrun⟩
  obtain ⟨⟨s, hs⟩, hvotes⟩ := hc.votesInTerm
  obtain ⟨n', hok⟩ := Node.hydrates_iff.2 ((hs.nodes i).hydrates hs.inv (hvotes i) hlast)
  exact ⟨n', hok, (hs.nodes i).rep.rehydrates hok⟩

/-- A snapshot of node 1 at index 1, with a hard-state term. -/
def claimingTerm (term : ℕ) : RaftSnapshot :=
  { Node.learnerSnapshot with
    metadata := { Node.learnerSnapshot.metadata with
      lastIncludedIndex := 1
      hardStateTerm := term
      committedConfiguration := some ⟨none, .stable oneVoter⟩ } }

/-- Node 1 elects itself and compacts its first entry. -/
def compactFirst (term : ℕ) : List Event := [.input 1 .tick, .localSnapshot 1 (claimingTerm term)]

/-- The nodes of a run. -/
def nodeAfter (cfg : ClusterConfig) (events : List Event) (i : NodeId) : Option Node :=
  ((Cluster.initial cfg).runAny events).map (·.nodes i)

theorem reachable_node_hydrates_compactFirst :
    ∃ n n', nodeAfter growingCluster (compactFirst 1) 1 = some n ∧ n.snapshotIndex = 1 ∧
      Node.fromBootstrap n.config
        (n.bootstrapState n.commitIndex n.committedConfigurationState) = .ok n' ∧
      n.Rehydrates n' := by
  have htruthful : (initial growingCluster).runTruthful (compactFirst 1) := by decide +kernel
  have hsnapshot : (nodeAfter growingCluster (compactFirst 1) 1).map
      (fun n => (n.snapshotIndex, n.lastLogIndex)) = some (1, 1) := by decide +kernel
  cases hrun : (initial growingCluster).runAny (compactFirst 1) with
  | none => simp [nodeAfter, hrun] at hsnapshot
  | some c =>
    rw [nodeAfter, hrun] at hsnapshot
    obtain ⟨hindex, hlast⟩ := Prod.mk.inj (Option.some_inj.1 hsnapshot)
    obtain ⟨n', hok, hsame⟩ := reachable_node_hydrates hrun htruthful 1 (by rw [hlast]; decide)
    exact ⟨c.nodes 1, n', by rw [nodeAfter, hrun]; rfl, hindex, hok, hsame⟩

/-- A descriptor that claims a hard-state term above the node's is installed, and the node can not
be hydrated from then on. -/
theorem claimed_term_refused :
    (nodeAfter growingCluster (compactFirst 5) 1).map (fun n => (n.snapshotIndex,
      (Node.fromBootstrap n.config (n.bootstrapState n.commitIndex
        n.committedConfigurationState)).map (·.currentTerm))) =
      some (1, .error (.snapshotHardStateTermAheadOfCurrentTerm 5 1)) := by
  decide +kernel

end Cluster

end Rafter
