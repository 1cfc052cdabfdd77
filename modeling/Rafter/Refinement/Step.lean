import Rafter.Conduct.Step

/-!
# Cluster runs refine the protocol

Every event of a cluster is a sequence of actions of the abstract protocol at the node it
concerns, and the relation `Sim` between a cluster and an abstract state goes along.

Results:

* `NodeOk.step`: one `Node.step` on a local input or on a true message;
* `Sim.step`: one event;
* `Sim.run`: a run, with the history it adds.
-/

namespace Rafter

open Protocol

variable {initial : MembershipConfig} {s : Ghost} {i : NodeId} {n : Node}

/-! ## One transition of one node -/

theorem NodeOk.step (hI : (raftScheme initial).Inv s) (h : NodeOk initial i s n) {input : Input}
    (hin : InputOk initial i s input) : Reaches initial i s (n.step input) := by
  refine (n.step_performs input).refines hI (fun input' hinput => ?_) h
  obtain rfl := Option.some_inj.1 hinput
  exact hin

/-! ## Snapshots and restarts -/

theorem NodeOk.installLocalSnapshot (h : NodeOk initial i s n) {snapshot : RaftSnapshot}
    {o : Outcome} (ht : Cluster.truthfulDescriptor n snapshot)
    (hok : n.installLocalSnapshot snapshot = .ok o) : Reaches initial i s o := by
  simp only [Cluster.truthfulDescriptor, Bool.and_eq_true, decide_eq_true_eq] at ht
  obtain ⟨⟨hsome, hterm⟩, hlen⟩ := ht
  have hrep := h.rep.installLocalSnapshot hsome hterm hlen hok
  unfold Node.installLocalSnapshot at hok
  cases hcheck : n.checkLocalSnapshot snapshot with
  | error e => simp [hcheck] at hok
  | ok cc =>
    rw [hcheck] at hok
    obtain rfl := Except.ok.inj hok
    refine ⟨s, .refl, ?_, fun x hx => ?_⟩
    · -- only the log, the snapshot and the recorded configuration change
      exact ⟨h.id, h.term, hrep, h.commit, h.vote,
        fun hr => ⟨(h.candidate hr).cand, (h.candidate hr).votes, (h.candidate hr).lead⟩,
        fun hr => ⟨(h.leader hr).lead, (h.leader hr).commits, (h.leader hr).rows,
          (h.leader hr).discipline⟩, h.progress⟩
    · exact outputOk_dropOutputs _ _ x hx

theorem NodeOk.restart (h : NodeOk initial i s n) {c : ℕ} {stored : Option CommittedConfiguration}
    {n' : Node} (hd : Cluster.durable n c stored)
    (hok : Node.fromBootstrap n.config (n.bootstrapState c stored) = .ok n') :
    NodeOk initial i s n' := by
  simp only [Cluster.durable, Bool.and_eq_true, Bool.or_eq_true, Option.isNone_iff_eq_none,
    decide_eq_true_eq] at hd
  obtain ⟨⟨hs, hc⟩, hstored⟩ := hd
  have hrep := h.rep.fromBootstrap hs hc hstored hok
  obtain ⟨hr, -⟩ := fromBootstrap_ok hs hok
  have hterm : n'.currentTerm = n.currentTerm := hr.term
  have hrole : n'.role = .follower := hr.role
  refine ⟨by rw [hr.config, h.id], by rw [hterm, h.term], hrep, ?_, ?_, by simp [hrole],
    by simp [hrole], fun _ => by rw [hr.leader]⟩
  · rw [hterm, hr.commit]
    refine h.commit.of_isPrefix ?_
    exact List.take_prefix_take_left hc
  · rw [hterm, hr.votedFor]
    exact h.vote

/-! ## The simulation -/

/-- The membership all nodes start from. -/
def ClusterConfig.membership (cfg : ClusterConfig) : MembershipConfig := .stable cfg.voters

/-- The simulation relation: every node and every message agrees with the history. -/
structure Sim (cfg : ClusterConfig) (c : Cluster) (s : Ghost) : Prop where
  inv : (raftScheme cfg.membership).Inv s
  nodes : ∀ i, NodeOk cfg.membership i s (c.nodes i)
  emitted : ∀ e ∈ c.emitted, OutputOk cfg.membership e.node s e.output

variable {cfg : ClusterConfig} {c c' : Cluster}

theorem nodeOk_new (cfg : ClusterConfig) (i : NodeId) :
    NodeOk cfg.membership i State.initial (Node.new (cfg.config i)) where
  id := cfg.id_eq i
  term := rfl
  rep :=
    { static := cfg.static_eq i
      log := rfl
      index := rfl
      snapshot := by rintro s ⟨⟩
      committed := by rintro x ⟨⟩
      snapshot_le := le_rfl
      dispatched_le := le_rfl
      commit_le := le_rfl }
  commit := .inl rfl
  vote c hv := hv.elim
  candidate := by rintro ⟨⟩
  leader := by rintro ⟨⟩
  progress _ := rfl

theorem sim_initial (cfg : ClusterConfig) : Sim cfg (Cluster.initial cfg) State.initial where
  inv := Scheme.inv_initial
  nodes := nodeOk_new cfg
  emitted := by simp [Cluster.initial]

/-- Recording an outcome that the protocol reaches. -/
theorem Sim.record (h : Sim cfg c s) {o : Outcome} (ho : Reaches cfg.membership i s o)
    (cause : Option Input) : ∃ s', Sim cfg (c.record i cause o) s' ∧ Extends s s' := by
  obtain ⟨s', hs, hn, hout⟩ := ho
  obtain ⟨hI, he, hf⟩ := h.inv.steps hs
  refine ⟨s', ⟨hI, fun j => ?_, fun e hm => ?_⟩, he⟩
  · by_cases hj : j = i
    · subst hj
      simpa [Cluster.record] using hn
    · simpa [Cluster.record, hj] using (h.nodes j).frame h.inv he hf hj
  · rcases List.mem_append.1 hm with hm | hm
    · exact (h.emitted e hm).mono h.inv he
    · obtain ⟨x, hx, rfl⟩ := List.mem_map.1 hm
      exact hout x hx

/-- A message some emission brings says what is true. -/
theorem Sim.messageOk (h : Sim cfg c s) {e : Emission} (he : e ∈ c.emitted) {m : Message}
    (hm : e.carries i m) : MessageOk cfg.membership e.node s i m := by
  have hout := h.emitted e he
  rcases hm with hm | ⟨chunk, bytes, request, hchunk, hrequest, rfl⟩
  · rwa [hm] at hout
  · rw [hchunk] at hout
    exact ⟨chunk, bytes, hout, hrequest⟩

theorem Sim.occurs (h : Sim cfg c s) {cause : Option Input} {o : Outcome}
    (ho : c.Occurs i cause o) : Reaches cfg.membership i s o := by
  have hi := h.nodes i
  cases ho with
  | input input hlocal =>
    refine hi.step h.inv ?_
    cases input <;> first | exact hlocal | simp [Input.isLocal] at hlocal
  | deliver e m he hm => exact hi.step h.inv (h.messageOk he hm)
  | localSnapshot htruthful hok => exact hi.installLocalSnapshot htruthful hok
  | restart hdurable hok => exact .of_node (hi.restart hdurable hok) (by simp)
  | drainCommitted => exact hi.emitCommittedOutputs h.inv

theorem Sim.step (h : Sim cfg c s) {event : Event} (hstep : c.step event = some c') :
    ∃ s', Sim cfg c' s' ∧ Extends s s' := by
  obtain ⟨i, cause, o, ho, rfl⟩ := Cluster.step_occurs hstep
  exact h.record (h.occurs ho) cause

theorem Sim.run (h : Sim cfg c s) {events : List Event} (hrun : c.run events = some c') :
    ∃ s', Sim cfg c' s' ∧ Extends s s' := by
  induction events generalizing c s with
  | nil =>
    obtain rfl := Option.some_inj.1 hrun
    exact ⟨s, h, .refl s⟩
  | cons e rest ih =>
    obtain ⟨c₁, hc₁, hrun⟩ := Option.bind_eq_some_iff.1 hrun
    obtain ⟨s₁, h₁, he₁⟩ := h.step hc₁
    obtain ⟨s₂, h₂, he₂⟩ := ih h₁ hrun
    exact ⟨s₂, h₂, he₁.trans he₂⟩

/-- Every reachable cluster refines some state of the protocol. -/
theorem Cluster.Reachable.sim (h : Cluster.Reachable cfg c) : ∃ s, Sim cfg c s := by
  obtain ⟨events, hrun⟩ := h
  obtain ⟨s, hs, -⟩ := (sim_initial cfg).run hrun
  exact ⟨s, hs⟩

end Rafter
