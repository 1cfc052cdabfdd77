import Rafter.Cluster.Hydration
import Rafter.Conduct.Staging
import Rafter.Node.Resume
import Rafter.Node.Validate

/-!
# The structure of every node of a run

`Node.validate_state_rules` and the checks of hydration state what the cursors, the log, the
configuration index and the transfer under way have to do with each other. `WellFormed` collects
it, and every node of every run has it. The runs are those of a cluster whose runtimes restart
their nodes from the durable state: with an applied floor, and resuming the transfer that was
persisted in part.

Results:

* `Cluster.reachable_node_wellFormed`;
* `Node.WellFormed.validateStateRules_eq`: of all rules, only that on pending reads can refuse.
-/

namespace Rafter

open Protocol

/-! ## Well-formed nodes -/

/-- The structural invariant of a node. -/
structure Node.WellFormed (n : Node) : Prop where
  snapshot_le : n.snapshotIndex ≤ n.dispatchedIndex
  dispatched_le : n.dispatchedIndex ≤ n.commitIndex
  commit_le : n.commitIndex ≤ n.lastLogIndex
  term_pos : ∀ e ∈ n.persistent.log, 0 < e.term
  term_le : ∀ e ∈ n.persistent.log, e.term ≤ n.currentTerm
  terms : n.persistent.log.Pairwise fun e e' => e.term ≤ e'.term
  boundary : ∀ snapshot, n.persistent.snapshot = some snapshot →
    ∀ e ∈ n.persistent.log, snapshot.metadata.lastIncludedTerm ≤ e.term
  index : n.configuration = .fromLog n.persistent.log
  effective : validateMembershipShape n.effectiveMembership "effective membership" = .ok ()
  committed : validateMembershipShape n.committedMembership "committed membership" = .ok ()
  recorded : ∀ x, n.persistent.committedConfiguration = some x → x.index ≤ n.commitIndex
  transfer : ∀ transfer, n.volatile.incomingSnapshot = some transfer →
    transfer.receivedLen < transfer.totalPayloadLen

/-- A well-formed node can break no rule but that on pending reads. -/
theorem Node.WellFormed.validateStateRules_eq {n : Node} (h : n.WellFormed)
    (hlast : n.lastLogIndex ≤ u64Max) : n.validateStateRules = n.validatePendingReads := by
  have hgeometry : n.validateIndexGeometry = .ok () := by
    have hs := h.snapshot_le
    have hd := h.dispatched_le
    have hc := h.commit_le
    unfold Node.lastLogIndex at hc hlast
    unfold Node.validateIndexGeometry
    dsimp only
    rw [if_neg (by omega), if_neg (by omega), if_neg (by omega), if_neg (by omega),
      if_neg (by omega)]
    cases hx : n.persistent.committedConfiguration with
    | none => rfl
    | some x =>
      have hle := h.recorded x hx
      dsimp only
      rw [if_neg (by omega)]
  have hindex : n.configuration.validate n.persistent.log = .ok () := if_pos h.index
  have htransfer : n.validateIncomingSnapshot = .ok () := by
    unfold Node.validateIncomingSnapshot
    cases ht : n.volatile.incomingSnapshot with
    | none => rfl
    | some transfer =>
      have hlt := h.transfer transfer ht
      dsimp only
      rw [if_neg (by omega)]
  unfold Node.validateStateRules
  rw [hgeometry, h.effective, h.committed, hindex, htransfer]
  simp only [bind, Except.bind]
  cases n.validatePendingReads <;> rfl

variable {initial : MembershipConfig} {s : Ghost} {i : NodeId} {n : Node}

/-- A node that refines the protocol is well formed, if its transfer is. -/
theorem NodeOk.wellFormed (hI : (raftScheme initial).Inv s) (h : NodeOk initial i s n)
    (htransfer : n.Unfinished) : n.WellFormed := by
  have hterms := hI.pairwise_term_le (hI.log_valid i)
  have hmem : ∀ e ∈ n.persistent.log, e ∈ s.log i := by
    intro e he
    rw [h.rep.log] at he
    exact List.mem_of_mem_drop he
  refine
    { snapshot_le := h.rep.snapshot_le
      dispatched_le := h.rep.dispatched_le
      commit_le := h.rep.commit_le.trans h.rep.lastLogIndex_eq.ge
      term_pos := ?_
      term_le := ?_
      terms := ?_
      boundary := ?_
      index := h.rep.index
      effective := validateMembershipShape_ok _ _
      committed := validateMembershipShape_ok _ _
      recorded := fun x hx => (h.rep.committed x hx).1
      transfer := htransfer }
  · intro e he
    obtain ⟨k, hk⟩ := List.getElem?_of_mem (hmem e he)
    obtain ⟨d, hd, -⟩ := hI.log_valid i k e hk
    exact hI.cand_pos (hI.lead hd).cand
  · intro e he
    rw [← h.term]
    exact hI.log_le i e (hmem e he)
  · rw [h.rep.log]
    exact hterms.sublist (List.drop_sublist _ _)
  · intro snapshot hsnapshot e he
    obtain ⟨hdescribes, -, -⟩ := h.rep.snapshot snapshot hsnapshot
    have hindex := Node.snapshotIndex_eq hsnapshot
    rcases Nat.eq_zero_or_pos snapshot.metadata.lastIncludedIndex with hzero | hpos
    · have hterm := hdescribes.term
      rw [hzero, termOf_zero] at hterm
      rw [← Option.some_inj.1 hterm]
      exact Nat.zero_le _
    · -- the entry at the boundary precedes the retained ones
      have hterm := hdescribes.term
      rw [termOf_of_pos hpos, Option.map_eq_some_iff] at hterm
      obtain ⟨b, hb, hbterm⟩ := hterm
      rw [h.rep.log, hindex] at he
      obtain ⟨k, hk⟩ := List.getElem?_of_mem he
      rw [List.getElem?_drop] at hk
      obtain ⟨hlt, hbget⟩ := List.getElem?_eq_some_iff.1 hb
      obtain ⟨hlt', heget⟩ := List.getElem?_eq_some_iff.1 hk
      have hle := List.pairwise_iff_getElem.1 hterms _ _ hlt hlt' (by omega)
      rw [hbget, heget] at hle
      rw [← hbterm]
      exact hle

/-- An applied floor moves the dispatch cursor within the committed prefix. -/
theorem NodeOk.appliedThrough (h : NodeOk initial i s n) {k : ℕ} (hk : k ≤ n.commitIndex) :
    NodeOk initial i s { n with volatile.dispatchedIndex := max n.dispatchedIndex k } :=
  h.setDispatched (le_max_left _ _) (max_le h.rep.dispatched_le hk)

/-! ## Runs with hydration -/

/-- Events, with the two further ways in which a runtime hydrates a node. -/
inductive RuntimeEvent where
  | event (event : Event)
  | restartAppliedThrough (i : NodeId) (commitIndex : ℕ) (stored : Option CommittedConfiguration)
      (appliedThrough : ℕ)
  | resume (i : NodeId) (transfer : PendingSnapshotTransfer)

namespace Cluster

/-- An event, or a restart above an applied floor. -/
def stepRuntime (c : Cluster) : RuntimeEvent → Option Cluster
  | .event e => c.step e
  | .restartAppliedThrough i commitIndex stored appliedThrough =>
    if durable (c.nodes i) commitIndex stored then
      match Node.fromBootstrapAppliedThrough (c.nodes i).config
          ((c.nodes i).bootstrapState commitIndex stored) appliedThrough with
      | .ok n => some (c.record i none ⟨n, []⟩)
      | .error _ => none
    else none
  | .resume i transfer =>
    match (c.nodes i).resumePendingSnapshotTransfer transfer with
    | .ok n => some (c.record i none ⟨n, []⟩)
    | .error _ => none

/-- A run of such steps. -/
def runRuntime (c : Cluster) : List RuntimeEvent → Option Cluster
  | [] => some c
  | e :: rest => (c.stepRuntime e).bind (runRuntime · rest)

variable {cfg : ClusterConfig} {c c' : Cluster}

/-! ## What an event keeps -/

variable {cause : Option Input} {o : Outcome}

theorem Occurs.unfinished (h : c.Occurs i cause o) (hn : (c.nodes i).Unfinished) :
    o.node.Unfinished := by
  cases h with
  | input input hlocal => exact ((c.nodes i).step_stages input).unfinished hn
  | deliver e m he hm => exact ((c.nodes i).step_stages _).unfinished hn
  | localSnapshot htruthful hok =>
    obtain ⟨-, rfl⟩ := Node.installLocalSnapshot_ok hok
    intro transfer htransfer
    cases htransfer
  | restart hdurable hok =>
    obtain ⟨log, x, -, -, -, -, rfl⟩ := Node.fromBootstrap_eq_ok.1 hok
    intro transfer htransfer
    cases htransfer
  | drainCommitted => exact (c.nodes i).emitCommittedOutputs_unstaged.stages.unfinished hn

/-- The cluster refines the protocol, and no transfer under way is complete. -/
def Structured (cfg : ClusterConfig) (c : Cluster) : Prop :=
  (∃ s, Sim cfg c s) ∧ ∀ i, (c.nodes i).Unfinished

variable (h : Structured cfg c)

include h

theorem Structured.record (hreaches : ∀ {s}, Sim cfg c s → Reaches cfg.membership i s o)
    (hunfinished : o.node.Unfinished) : Structured cfg (c.record i cause o) := by
  obtain ⟨⟨s, hs⟩, hn⟩ := h
  obtain ⟨s', hs', -⟩ := hs.record (hreaches hs) cause
  refine ⟨⟨s', hs'⟩, fun j => ?_⟩
  by_cases hj : j = i
  · subst hj
    rw [show (c.record j cause o).nodes j = o.node from Function.update_self ..]
    exact hunfinished
  · rw [show (c.record i cause o).nodes j = c.nodes j from Function.update_of_ne hj ..]
    exact hn j

theorem Structured.restartAppliedThrough {k k' : ℕ}
    {stored : Option CommittedConfiguration} {n : Node} (hdurable : durable (c.nodes i) k stored)
    (hok : Node.fromBootstrapAppliedThrough (c.nodes i).config
      ((c.nodes i).bootstrapState k stored) k' = .ok n) :
    Structured cfg (c.record i none ⟨n, []⟩) := by
  obtain ⟨m, hm, hk', rfl⟩ := Node.fromBootstrapAppliedThrough_ok hok
  refine h.record (fun hs => ?_) ((Occurs.restart hdurable hm).unfinished (h.2 i))
  exact .of_node (((hs.nodes i).restart hdurable hm).appliedThrough hk')
    fun _ hx => absurd hx List.not_mem_nil

theorem Structured.resume {transfer : PendingSnapshotTransfer} {n : Node}
    (hok : (c.nodes i).resumePendingSnapshotTransfer transfer = .ok n) :
    Structured cfg (c.record i none ⟨n, []⟩) := by
  obtain ⟨hresumes, rfl⟩ := Node.resumePendingSnapshotTransfer_ok_iff.1 hok
  refine h.record (fun hs => .of_core (hs.nodes i) rfl fun _ hx => absurd hx List.not_mem_nil) ?_
  intro transfer' htransfer
  obtain rfl := Option.some_inj.1 htransfer
  exact hresumes.unfinished

theorem Structured.step {e : RuntimeEvent}
    (hstep : c.stepRuntime e = some c') : Structured cfg c' := by
  cases e with
  | event e =>
    obtain ⟨i, cause, o, ho, rfl⟩ := step_occurs hstep
    exact h.record (fun hs => hs.occurs ho) (ho.unfinished (h.2 i))
  | restartAppliedThrough i k stored k' =>
    rw [stepRuntime, Option.ite_none_right_eq_some] at hstep
    obtain ⟨hdurable, hstep⟩ := hstep
    split at hstep
    · rename_i n hn
      obtain rfl := Option.some_inj.1 hstep
      exact h.restartAppliedThrough hdurable hn
    · simp at hstep
  | resume i transfer =>
    rw [stepRuntime] at hstep
    split at hstep
    · rename_i n hn
      obtain rfl := Option.some_inj.1 hstep
      exact h.resume hn
    · simp at hstep

theorem Structured.run {events : List RuntimeEvent}
    (hrun : c.runRuntime events = some c') : Structured cfg c' := by
  induction events generalizing c with
  | nil =>
    obtain rfl := Option.some_inj.1 hrun
    exact h
  | cons e rest ih =>
    obtain ⟨c₁, hc₁, hrun⟩ := Option.bind_eq_some_iff.1 hrun
    exact ih (h.step hc₁) hrun

omit h

theorem structured_initial (cfg : ClusterConfig) : Structured cfg (Cluster.initial cfg) := by
  refine ⟨⟨_, sim_initial cfg⟩, ?_⟩
  intro i transfer htransfer
  cases htransfer

/-- Every node is well formed after every run: steps of any inputs, deliveries of emitted messages
in any order, truthful local snapshots, restarts and resumed transfers. -/
theorem reachable_node_wellFormed {events : List RuntimeEvent}
    (hrun : (Cluster.initial cfg).runRuntime events = some c) (i : NodeId) :
    (c.nodes i).WellFormed := by
  obtain ⟨⟨s, hs⟩, hn⟩ := (structured_initial cfg).run hrun
  exact (hs.nodes i).wellFormed hs.inv (hn i)

/-- One of two bytes of a snapshot at index 1 that node 1 sent. -/
def halfTransfer : PendingSnapshotTransfer where
  leaderId := 1
  transferId := snapshotTransferIdFromParts (claimingTerm 0).metadata 2 0
  metadata := (claimingTerm 0).metadata
  totalPayloadLen := 2
  applicationPayloadCrc32 := 0
  receivedLen := 1

/-- Node 1 compacts its first entry and restarts with all applied; node 2 resumes a transfer. -/
def compactAndResume : List RuntimeEvent :=
  (compactFirst 1).map .event ++ [.restartAppliedThrough 1 1 none 1, .resume 2 halfTransfer]

theorem reachable_node_wellFormed_compactAndResume :
    ∃ c, (Cluster.initial growingCluster).runRuntime compactAndResume = some c ∧
      (c.nodes 1).snapshotIndex = 1 ∧ (c.nodes 1).WellFormed ∧
      (c.nodes 2).volatile.incomingSnapshot = some halfTransfer ∧ (c.nodes 2).WellFormed := by
  have hnodes : ((Cluster.initial growingCluster).runRuntime compactAndResume).map
      (fun c => ((c.nodes 1).snapshotIndex, (c.nodes 2).volatile.incomingSnapshot)) =
        some (1, some halfTransfer) := by decide +kernel
  obtain ⟨c, hrun, hc⟩ := Option.map_eq_some_iff.1 hnodes
  obtain ⟨hsnapshot, htransfer⟩ := Prod.mk.inj hc
  exact ⟨c, hrun, hsnapshot, reachable_node_wellFormed hrun 1, htransfer,
    reachable_node_wellFormed hrun 2⟩

end Cluster

end Rafter
