import Rafter.Conduct.Authority

/-!
# The lease of a leader

A leader with a lease answers reads without another round. Its lease stands on a round of contact
that a quorum answered: `Evidence` says from when that round is and who answered it.

Results:

* `Node.lease_evidence_is_fresh`: a lease that can be used stands on fresh evidence, and the leader
  has not authorised its deposition.
-/

namespace Rafter

open Protocol

namespace Node

variable {c : Occasion} {n n' : Node} {inputs : List Input}
variable {b : Bool} {rs : List Request} {o : Outcome} {v : NodeId} {r : AppendEntriesResponse}

/-! ## Clocks, rounds and leases -/

/-- What an act does to the clock, the rounds and the lease of a leader. -/
inductive Reign (c : Occasion) (n n' : Node) : Prop
  | kept (hrole : n'.role = n.role) (hterm : n'.currentTerm = n.currentTerm)
    (hticks : n'.leader.ticks = n.leader.ticks) (hlease : n'.leader.lease = n.leader.lease)
    (hrounds : n.leader.heartbeatSequence ≤ n'.leader.heartbeatSequence)
  | ended (h : n'.role ≠ .leader)
  | begun (hrole : n.role = .candidate) (h : n' = n.leaderState)
  | clocked (hinput : c.input = some .tick) (h : n' = n.clocked)
  | rearmed (hinput : c.input = some .tick) (h : n' = n.tickReadLease)
  | renewed {v : NodeId} {r : AppendEntriesResponse}
    (hinput : c.input = some (.message v (.appendEntriesResponse r)))
    (hrole : n'.role = .leader) (hterm : n'.currentTerm = r.term)

theorem Act.reign {l : List Observation} (h : Act c n l n') : Reign c n n' := by
  cases h with
  | quiet hspine =>
    exact .kept (eq_of_spine (f := role) hspine fun _ => rfl)
      (eq_of_spine (f := currentTerm) hspine fun _ => rfl)
      (eq_of_spine (f := (·.leader.ticks)) hspine fun _ => rfl)
      (eq_of_spine (f := (·.leader.lease)) hspine fun _ => rfl)
      (eq_of_spine (f := (·.leader.heartbeatSequence)) hspine fun _ => rfl).ge
  | clock hinput => exact .clocked hinput rfl
  | rearm hinput => exact .rearmed hinput rfl
  | renew v response hinput hrole hterm =>
    obtain ⟨lease, hlease⟩ := n.acknowledgeReadLease_node v response.sequence
    exact .renewed hinput (by rw [hlease]; exact hrole) (by rw [hlease]; exact hterm.symm)
  | lead hrole => exact .begun hrole rfl
  | follow | poll | campaign => exact .ended fun h => (by cases h)
  | splice hrole hprev hsplice =>
    obtain ⟨f, rest, hspliced, -⟩ := spliced_of_ok hprev hsplice
    obtain ⟨tracker, configuration, hnode, -⟩ := hspliced.node
    rw [hnode]
    exact .kept rfl rfl rfl rfl le_rfl
  | dispatch entry =>
    rw [dispatchEntry_node]
    exact .kept rfl rfl rfl rfl le_rfl
  | propose proposal =>
    rcases proposal with ⟨_ | id, payload⟩
    · exact .kept rfl rfl rfl rfl le_rfl
    · exact .kept rfl rfl rfl rfl le_rfl
  | reconcile =>
    obtain ⟨progress, hp⟩ := n.reconcileReplicationProgress_node
    rw [hp]
    exact .kept rfl rfl rfl rfl le_rfl
  | record =>
    obtain ⟨progress, hp⟩ := n.recordLocalProgress_node
    rw [hp]
    exact .kept rfl rfl rfl rfl le_rfl
  | acknowledge v response =>
    obtain ⟨kept, hkept⟩ := n.acknowledgeReadBarriers_node v response.sequence
    rw [hkept]
    exact .kept rfl rfl rfl rfl le_rfl
  | beat | register => exact .kept rfl rfl rfl rfl (Nat.le_succ _)
  | emit | elapse | rest | forget | vote | configure | refuse | commit | hear | install | reply
  | answer | row | resume | frame | grant | reject | transfer =>
    exact .kept rfl rfl rfl rfl le_rfl

/-- The clock and the lease stay as they are. -/
structure Steady (n n' : Node) : Prop where
  ticks : n'.leader.ticks = n.leader.ticks
  lease : n'.leader.lease = n.leader.lease
  rounds : n.leader.heartbeatSequence ≤ n'.leader.heartbeatSequence

theorem Steady.trans {n'' : Node} (h : n.Steady n') (h' : n'.Steady n'') : n.Steady n'' :=
  ⟨h'.ticks.trans h.ticks, h'.lease.trans h.lease, h.rounds.trans h'.rounds⟩

/-- Only ticks and the answers of followers change the clock and the lease of a leader. -/
theorem Acts.steady (h : n.Acts c b rs o) (htick : c.input ≠ some .tick)
    (hresponse : ∀ v r, c.input ≠ some (.message v (.appendEntriesResponse r)))
    (hrole : n.role = .leader) (hleads : o.node.role = .leader)
    (hterm : o.node.currentTerm = n.currentTerm) : n.Steady o.node := by
  refine h.while_leading (I := n.Steady) ?_ hrole hleads hterm ⟨rfl, rfl, le_rfl⟩
  intro m l m' hdeed hm hm' _ hsteady
  rcases hdeed.act.reign with ⟨-, -, hticks, hlease, hrounds⟩ | hended | ⟨hbegun, -⟩ | ⟨hinput, -⟩ |
    ⟨hinput, -⟩ | ⟨hinput, -, -⟩
  · exact hsteady.trans ⟨hticks, hlease, hrounds⟩
  · exact absurd hm' hended
  · rw [hm] at hbegun
    cases hbegun
  · exact absurd hinput htick
  · exact absurd hinput htick
  · exact absurd hinput (hresponse _ _)

/-- The lease a leader has just begun. -/
structure Unproved (n : Node) : Prop where
  acks : n.leader.lease.acks.nodes = []
  confirmed : n.leader.lease.confirmedBasisTick = none
  basis : n.leader.lease.pendingBasisTick ≤ n.leader.ticks

/-- A node that has come to lead during a step has no evidence yet: an answer is to the leader the
step began with. -/
theorem Acts.unproved (h : n.Acts c b rs o)
    (hresponse : ∀ {v r}, c.input = some (.message v (.appendEntriesResponse r)) →
      n.role = .leader ∧ n.currentTerm = r.term) (hleads : o.node.role = .leader)
    (hnew : ¬ (n.role = .leader ∧ n.currentTerm = o.node.currentTerm)) : o.node.Unproved := by
  refine h.invariant (I := fun m => m.role = .leader →
    ¬ (n.role = .leader ∧ n.currentTerm = m.currentTerm) → m.Unproved) ?_
    (fun hrole hnew => absurd ⟨hrole, rfl⟩ hnew) hleads hnew
  intro m l m' hact hm hrole hnew
  rcases hact.reign with ⟨hrole', hterm, hticks, hlease, -⟩ | hended | ⟨-, rfl⟩ | ⟨-, rfl⟩ |
    ⟨-, rfl⟩ | ⟨hinput, -, hterm⟩
  · obtain ⟨hacks, hconfirmed, hbasis⟩ := hm (hrole' ▸ hrole) (hterm ▸ hnew)
    exact ⟨hlease ▸ hacks, hlease ▸ hconfirmed, by rw [hlease, hticks]; exact hbasis⟩
  · exact absurd hrole hended
  · exact ⟨AcknowledgementSet.nodes_default, rfl, Nat.zero_le _⟩
  · obtain ⟨hacks, hconfirmed, hbasis⟩ := hm hrole hnew
    exact ⟨hacks, hconfirmed, hbasis.trans (Nat.le_succ _)⟩
  · obtain ⟨lease, hlease⟩ := m.tickReadLease_node
    have hbefore := hm (by rw [hlease] at hrole; exact hrole) (by rw [hlease] at hnew; exact hnew)
    unfold tickReadLease
    split_ifs
    · exact hbefore
    · exact hbefore
    · exact ⟨AcknowledgementSet.nodes_clear _, hbefore.confirmed, le_rfl⟩
  · obtain ⟨hleader, hanswered⟩ := hresponse hinput
    exact absurd ⟨hleader, hanswered.trans hterm.symm⟩ hnew

/-! ## Steps of a leader -/

/-- A tick may put a checkpoint at the next round in the place of one that has aged. -/
theorem tick_lease (hrole : n.role = .leader) (hleads : n.tick.node.role = .leader) :
    n.tick.node.leader.ticks = n.leader.ticks + 1 ∧
    n.leader.heartbeatSequence ≤ n.tick.node.leader.heartbeatSequence ∧
    (n.tick.node.leader.lease = n.leader.lease ∨ n.tick.node.leader.lease =
      n.leader.lease.rearm (n.leader.ticks + 1) (n.leader.heartbeatSequence + 1)) := by
  obtain ⟨transfer, m, hm, hnode⟩ := tick_leads hrole hleads
  have hlease : n.clocked.tickReadLease.leader.lease = n.leader.lease ∨
      n.clocked.tickReadLease.leader.lease =
        n.leader.lease.rearm (n.leader.ticks + 1) (n.leader.heartbeatSequence + 1) := by
    unfold tickReadLease
    split_ifs
    · exact .inl rfl
    · exact .inl rfl
    · exact .inr rfl
  obtain ⟨lease, hclocked⟩ := n.clocked.tickReadLease_node
  rw [hclocked] at hm hlease
  rcases tickCheckQuorum_node { n.clocked with
      leader.lease := lease
      leader.pendingTransfer := transfer } with ⟨acks, elapsed, hchecked⟩ | ⟨m', outputs,
        hchecked, -⟩
  · obtain ⟨rfl, -⟩ := Prod.mk.inj (hm.symm.trans hchecked)
    rcases hnode with hnode | ⟨progress, hnode⟩
    · rw [hnode]
      exact ⟨rfl, le_rfl, hlease⟩
    · rw [hnode]
      exact ⟨rfl, Nat.le_succ _, hlease⟩
  · cases (Prod.mk.inj (hm.symm.trans hchecked)).2

/-- An answer of the round of the checkpoint or a later one is recorded. A quorum of them confirms
the checkpoint and opens the next. -/
theorem acknowledgeReadLease_cases (n : Node) (v : NodeId) (sequence : ℕ) :
    (n.acknowledgeReadLease v sequence).leader.lease = n.leader.lease ∨
    n.leader.lease.pendingSequence ≤ sequence ∧ ∃ acks : AcknowledgementSet,
      (∀ w ∈ acks.nodes, w ∈ n.leader.lease.acks.nodes ∨ w = v) ∧
      ((n.acknowledgeReadLease v sequence).leader.lease = { n.leader.lease with acks := acks } ∨
        (∃ followers, n.effectiveMembership.hasQuorum (n.id :: followers) ∧
          ∀ w ∈ followers, w ∈ n.leader.lease.acks.nodes ∨ w = v) ∧
        (n.acknowledgeReadLease v sequence).leader.lease =
          { n.leader.lease with acks := acks }.confirmAndRearm n.leader.ticks
            (n.leader.heartbeatSequence + 1)) := by
  have hinsert : ∀ w ∈ (n.leader.lease.acks.insert v n.effectiveMembership n.id).nodes,
      w ∈ n.leader.lease.acks.nodes ∨ w = v := fun w hw =>
    (AcknowledgementSet.mem_nodes_insert.1 hw).2.symm
  have hheld := (n.leader.lease.acks.insert v n.effectiveMembership n.id).hasQuorumWithSelf_eq
    n.effectiveMembership n.id
  have hrefresh : ∀ w ∈ ((n.leader.lease.acks.insert v n.effectiveMembership n.id).hasQuorumWithSelf
      n.effectiveMembership n.id).2.nodes, w ∈ n.leader.lease.acks.nodes ∨ w = v := fun w hw =>
    hinsert w (AcknowledgementSet.mem_nodes_refresh.1 hw).1
  unfold acknowledgeReadLease
  dsimp only
  split_ifs with hoff hold hconfirmed
  · exact .inl rfl
  · exact .inl rfl
  · rw [hheld] at hconfirmed
    exact .inr ⟨not_lt.1 hold, _, hrefresh, .inr ⟨⟨_, hconfirmed, hinsert⟩, rfl⟩⟩
  · exact .inr ⟨not_lt.1 hold, _, hrefresh, .inl rfl⟩

/-- The answer of a follower to a leader of its term. -/
theorem response_lease (hrole : n.role = .leader) (hsender : r.followerId = v)
    (hr : r.term = n.currentTerm)
    (hleads : (n.step (.message v (.appendEntriesResponse r))).node.role = .leader)
    (hterm : (n.step (.message v (.appendEntriesResponse r))).node.currentTerm = n.currentTerm) :
    ((n.recordQuorumAck v).acknowledgeReadLease v r.sequence).Steady
      (n.step (.message v (.appendEntriesResponse r))).node := by
  have hstep : n.step (.message v (.appendEntriesResponse r)) =
      n.handleAppendEntriesResponse v r := if_pos hsender
  rw [hstep] at hleads hterm ⊢
  unfold handleAppendEntriesResponse at hleads hterm ⊢
  rw [if_neg hr.le.not_gt, if_neg (by simp [hrole, hr])] at hleads hterm ⊢
  dsimp only at hleads hterm ⊢
  obtain ⟨lease, hlease⟩ := (n.recordQuorumAck v).acknowledgeReadLease_node v r.sequence
  have hrole' : ((n.recordQuorumAck v).acknowledgeReadLease v r.sequence).role = .leader := by
    rw [hlease]
    exact hrole
  have hterm' : ((n.recordQuorumAck v).acknowledgeReadLease v r.sequence).currentTerm =
      n.currentTerm := by
    rw [hlease]
    rfl
  generalize (n.recordQuorumAck v).acknowledgeReadLease v r.sequence = m at *
  obtain ⟨kept, hkept⟩ := m.acknowledgeReadBarriers_node v r.sequence
  have hrole'' : (m.acknowledgeReadBarriers v r.sequence).node.role = .leader := by
    rw [hkept]
    exact hrole'
  have hterm'' : (m.acknowledgeReadBarriers v r.sequence).node.currentTerm = n.currentTerm := by
    rw [hkept]
    exact hterm'
  have hsteady : m.Steady (m.acknowledgeReadBarriers v r.sequence).node := by
    rw [hkept]
    exact ⟨rfl, rfl, le_rfl⟩
  rw [Outcome.andThen_node] at hleads hterm ⊢
  generalize (m.acknowledgeReadBarriers v r.sequence).node = k at *
  -- the rest of the answer is about the log
  split_ifs at hleads hterm ⊢
  · exact hsteady.trans ((acceptAppendResponse_acts (c := ⟨k, none⟩) hrole'' v _).steady (by simp)
      (by simp) hrole'' hleads (hterm.trans hterm''.symm))
  · exact hsteady.trans ((k.rejectAppendResponse_performs (c := ⟨k, none⟩) v).steady
      (by simp) (by simp)
      hrole'' hleads (hterm.trans hterm''.symm))

/-! ## Evidence -/

/-- The node leads the term. -/
def Leads (n : Node) (term : ℕ) : Prop := n.role = .leader ∧ n.currentTerm = term

/-- Among the inputs, the follower `v` answered a round of the leader of the term numbered
`sequence` or higher. -/
def Echoed (n : Node) (inputs : List Input) (term sequence : ℕ) (v : NodeId) : Prop :=
  ∃ front r, front ++ [.message v (.appendEntriesResponse r)] <+: inputs ∧
    (n.after front).Leads term ∧ r.followerId = v ∧ r.term = term ∧ sequence ≤ r.sequence

/-- What a lease from tick `basis` stands on: no round numbered `sequence` or higher had begun
before that tick, and such a round was answered by followers that with the leader were a quorum of
its membership when the last of them answered. -/
structure Evidence (n : Node) (inputs : List Input) (term basis sequence : ℕ) : Prop where
  rounds : ∀ front, front <+: inputs → (n.after front).Leads term →
    (n.after front).leader.ticks < basis → (n.after front).leader.heartbeatSequence < sequence
  quorum : ∃ front v r followers,
    front ++ [.message v (.appendEntriesResponse r)] <+: inputs ∧ (n.after front).Leads term ∧
    v ∈ followers ∧ (n.after front).effectiveMembership.hasQuorum (n.id :: followers) ∧
    ∀ w ∈ followers, n.Echoed (front ++ [.message v (.appendEntriesResponse r)]) term sequence w

/-- What the lease of the leader `m` records, which `inputs` lead to. -/
structure Leased (n : Node) (inputs : List Input) (m : Node) : Prop where
  basis : m.leader.lease.pendingBasisTick ≤ m.leader.ticks
  rounds : ∀ front, front <+: inputs → (n.after front).Leads m.currentTerm →
    (n.after front).leader.heartbeatSequence ≤ m.leader.heartbeatSequence
  pending : ∀ front, front <+: inputs → (n.after front).Leads m.currentTerm →
    (n.after front).leader.ticks < m.leader.lease.pendingBasisTick →
    (n.after front).leader.heartbeatSequence < m.leader.lease.pendingSequence
  acks : ∀ v ∈ m.leader.lease.acks.nodes,
    n.Echoed inputs m.currentTerm m.leader.lease.pendingSequence v
  confirmed : ∀ basis, m.leader.lease.confirmedBasisTick = some basis →
    basis ≤ m.leader.ticks ∧ ∃ sequence, n.Evidence inputs m.currentTerm basis sequence

theorem Echoed.mono {inputs' : List Input} {term sequence : ℕ} (h : n.Echoed inputs term sequence v)
    (hlonger : inputs <+: inputs') : n.Echoed inputs' term sequence v := by
  obtain ⟨front, r, hfront, hr⟩ := h
  exact ⟨front, r, hfront.trans hlonger, hr⟩

section Concat

variable {m m' : Node} {input : Input}

variable (hm' : n.after (inputs ++ [input]) = m')

include hm'

/-- Later rounds do not touch the evidence. -/
theorem Evidence.concat {term basis sequence : ℕ}
    (h : n.Evidence inputs term basis sequence) (hbasis : basis ≤ m'.leader.ticks) :
    n.Evidence (inputs ++ [input]) term basis sequence where
  rounds front hfront hleads hlt := by
    rcases List.prefix_concat_iff.1 hfront with rfl | hfront
    · rw [hm'] at hlt
      exact absurd hbasis (not_le.2 hlt)
    · exact h.rounds front hfront hleads hlt
  quorum := by
    obtain ⟨front, v, r, followers, hfront, hrest⟩ := h.quorum
    exact ⟨front, v, r, followers, hfront.trans (List.prefix_append _ _), hrest⟩

/-- One more input of a node that goes on leading. The checkpoint stays, or the next one is at a
round that has not begun. -/
theorem Leased.concat (h : n.Leased inputs m) (hterm : m'.currentTerm = m.currentTerm)
    (hrounds : m.leader.heartbeatSequence ≤ m'.leader.heartbeatSequence)
    (hticks : m.leader.ticks ≤ m'.leader.ticks)
    (hpending : (m'.leader.lease.pendingBasisTick = m.leader.lease.pendingBasisTick ∧
        m'.leader.lease.pendingSequence = m.leader.lease.pendingSequence) ∨
      (m'.leader.lease.pendingBasisTick ≤ m'.leader.ticks ∧
        m.leader.heartbeatSequence < m'.leader.lease.pendingSequence))
    (hacks : ∀ v ∈ m'.leader.lease.acks.nodes,
      n.Echoed (inputs ++ [input]) m.currentTerm m'.leader.lease.pendingSequence v)
    (hconfirmed : ∀ basis, m'.leader.lease.confirmedBasisTick = some basis →
      m.leader.lease.confirmedBasisTick = some basis ∨ basis ≤ m'.leader.ticks ∧
        ∃ sequence, n.Evidence (inputs ++ [input]) m.currentTerm basis sequence) :
    n.Leased (inputs ++ [input]) m' := by
  have hbasis : m'.leader.lease.pendingBasisTick ≤ m'.leader.ticks := by
    rcases hpending with ⟨hsame, -⟩ | ⟨hle, -⟩
    · rw [hsame]
      exact h.basis.trans hticks
    · exact hle
  refine ⟨hbasis, fun front hfront hleads => ?_, fun front hfront hleads hlt => ?_, ?_, ?_⟩
  · rcases List.prefix_concat_iff.1 hfront with rfl | hfront
    · rw [hm']
    · exact (h.rounds front hfront (hterm ▸ hleads)).trans hrounds
  · rcases List.prefix_concat_iff.1 hfront with rfl | hfront
    · rw [hm'] at hlt
      exact absurd hbasis (not_le.2 hlt)
    · rw [hterm] at hleads
      rcases hpending with ⟨hsame, hsequence⟩ | ⟨-, hnext⟩
      · rw [hsame] at hlt
        rw [hsequence]
        exact h.pending front hfront hleads hlt
      · exact (h.rounds front hfront hleads).trans_lt hnext
  · rw [hterm]
    exact hacks
  · intro basis hsome
    rw [hterm]
    rcases hconfirmed basis hsome with hold | hnew
    · obtain ⟨hle, sequence, hevidence⟩ := h.confirmed basis hold
      exact ⟨hle.trans hticks, sequence, hevidence.concat hm' (hle.trans hticks)⟩
    · exact hnew

/-- The lease stays as it is. -/
theorem Leased.of_lease (h : n.Leased inputs m) (hterm : m'.currentTerm = m.currentTerm)
    (hrounds : m.leader.heartbeatSequence ≤ m'.leader.heartbeatSequence)
    (hticks : m.leader.ticks ≤ m'.leader.ticks) (hlease : m'.leader.lease = m.leader.lease) :
    n.Leased (inputs ++ [input]) m' := by
  refine h.concat hm' hterm hrounds hticks ?_ (fun v hv => ?_) fun basis hsome => ?_
  · rw [hlease]
    exact .inl ⟨rfl, rfl⟩
  · rw [hlease] at hv ⊢
    exact (h.acks v hv).mono (List.prefix_append _ _)
  · rw [hlease] at hsome
    exact .inl hsome

omit hm'

/-- A tick. -/
theorem Leased.tick (hm' : n.after (inputs ++ [.tick]) = m.tick.node) (h : n.Leased inputs m)
    (hrole : m.role = .leader) (hleads : m.tick.node.role = .leader)
    (hterm : m.tick.node.currentTerm = m.currentTerm) :
    n.Leased (inputs ++ [.tick]) m.tick.node := by
  obtain ⟨hticks, hrounds, hlease⟩ := tick_lease hrole hleads
  have hle : m.leader.ticks ≤ m.tick.node.leader.ticks := hticks ▸ Nat.le_succ _
  rcases hlease with hlease | hlease
  · exact h.of_lease hm' hterm hrounds hle hlease
  · refine h.concat hm' hterm hrounds hle ?_ (fun v hv => ?_) fun basis hsome => ?_
    · rw [hlease]
      exact .inr ⟨hticks.ge, Nat.lt_succ_self _⟩
    · rw [hlease, LeaderLease.rearm, AcknowledgementSet.nodes_clear] at hv
      cases hv
    · rw [hlease] at hsome
      exact .inl hsome

/-- The answer of a follower. -/
theorem Leased.response (hm : n.after inputs = m)
    (hm' : n.after (inputs ++ [.message v (.appendEntriesResponse r)]) = m') (h : n.Leased inputs m)
    (hrole : m.role = .leader) (hsender : r.followerId = v) (hr : r.term = m.currentTerm)
    (hterm : m'.currentTerm = m.currentTerm)
    (hsteady : ((m.recordQuorumAck v).acknowledgeReadLease v r.sequence).Steady m') :
    n.Leased (inputs ++ [.message v (.appendEntriesResponse r)]) m' := by
  obtain ⟨lease, hnode⟩ := (m.recordQuorumAck v).acknowledgeReadLease_node v r.sequence
  have hticks : m'.leader.ticks = m.leader.ticks := by
    rw [hsteady.ticks, hnode]
    rfl
  have hrounds : m.leader.heartbeatSequence ≤ m'.leader.heartbeatSequence := by
    refine le_trans ?_ hsteady.rounds
    rw [hnode]
    exact le_rfl
  have hprefix := List.prefix_append inputs [.message v (.appendEntriesResponse r)]
  have hleads : (n.after inputs).Leads m.currentTerm := by
    rw [hm]
    exact ⟨hrole, rfl⟩
  rcases (m.recordQuorumAck v).acknowledgeReadLease_cases v r.sequence with
    hlease | ⟨hsequence, acks, hacks, hlease⟩
  · exact h.of_lease hm' hterm hrounds hticks.ge (hsteady.lease.trans hlease)
  -- whoever is recorded has answered a round the checkpoint may count
  have hechoed : ∀ w, w ∈ m.leader.lease.acks.nodes ∨ w = v →
      n.Echoed (inputs ++ [.message v (.appendEntriesResponse r)]) m.currentTerm
        m.leader.lease.pendingSequence w := by
    rintro w (hw | rfl)
    · exact (h.acks w hw).mono hprefix
    · exact ⟨inputs, r, List.prefix_rfl, hleads, hsender, hr, hsequence⟩
  rw [← hsteady.lease] at hlease
  rcases hlease with hlease | ⟨⟨followers, hquorum, hfollowers⟩, hlease⟩
  · refine h.concat hm' hterm hrounds hticks.ge ?_ (fun w hw => ?_) fun basis hsome => ?_
    · rw [hlease]
      exact .inl ⟨rfl, rfl⟩
    · rw [hlease] at hw ⊢
      exact hechoed w (hacks w hw)
    · rw [hlease] at hsome
      exact .inl hsome
  · refine h.concat hm' hterm hrounds hticks.ge ?_ (fun w hw => ?_) fun basis hsome => ?_
    · rw [hlease, hticks]
      exact .inr ⟨le_rfl, Nat.lt_succ_self _⟩
    · rw [hlease, LeaderLease.confirmAndRearm, LeaderLease.rearm,
        AcknowledgementSet.nodes_clear] at hw
      cases hw
    · -- the checkpoint is confirmed by this answer
      rw [hlease] at hsome
      obtain rfl := Option.some_inj.1 hsome
      have hbasis : m.leader.lease.pendingBasisTick ≤ m'.leader.ticks := hticks ▸ h.basis
      refine .inr ⟨hbasis, m.leader.lease.pendingSequence,
        fun front hfront hfrontLeads hlt => ?_, inputs, v, r, v :: followers,
          List.prefix_rfl, hleads,
        .head _, ?_, fun w hw => ?_⟩
      · rcases List.prefix_concat_iff.1 hfront with rfl | hfront
        · rw [hm'] at hlt
          exact absurd hbasis (not_le.2 hlt)
        · exact h.pending front hfront hfrontLeads hlt
      · have hid : n.id = m.id := hm ▸ (congrArg NodeConfig.id (n.forward_after inputs).config).symm
        rw [hm, hid]
        refine MembershipConfig.hasQuorum_mono (fun w hw => ?_) hquorum
        rcases List.mem_cons.1 hw with rfl | hw
        · exact .head _
        · exact .tail _ (.tail _ hw)
      · rcases List.mem_cons.1 hw with rfl | hw
        · exact hechoed w (.inr rfl)
        · exact hechoed w (hfollowers w hw)

/-- A node that has just come to lead. -/
theorem leased_of_unproved (hm' : n.after (inputs ++ [input]) = m')
    (hnew : ¬ (n.after inputs).Leads m'.currentTerm) (hleads : m'.role = .leader)
    (h : m'.Unproved) : n.Leased (inputs ++ [input]) m' := by
  -- whoever led the term before would have led it until now
  have hfronts : ∀ front, front <+: inputs ++ [input] → (n.after front).Leads m'.currentTerm →
      n.after front = m' := by
    intro front hfront hfrontLeads
    rcases List.prefix_concat_iff.1 hfront with rfl | ⟨rest, rfl⟩
    · exact hm'
    · refine absurd ?_ hnew
      have hrest := (n.after front).forward_after rest
      have hlast := (n.after (front ++ rest)).forward_after [input]
      rw [← after_append] at hrest hlast
      rw [hm'] at hlast
      obtain ⟨hrole, hterm⟩ := hrest.between hlast hfrontLeads.1 hleads hfrontLeads.2.symm
      exact ⟨hrole, hterm.trans hfrontLeads.2⟩
  refine ⟨h.basis, fun front hfront hfrontLeads => ?_, fun front hfront hfrontLeads hlt => ?_,
    fun v hv => ?_, fun basis hsome => ?_⟩
  · rw [hfronts front hfront hfrontLeads]
  · rw [hfronts front hfront hfrontLeads] at hlt
    exact absurd h.basis (not_le.2 hlt)
  · rw [h.acks] at hv
    cases hv
  · rw [h.confirmed] at hsome
    cases hsome

end Concat

/-- What does not answer the leader is not taken, or ends an office. -/
theorem response_cases (n : Node) (v : NodeId) (r : AppendEntriesResponse) :
    (n.step (.message v (.appendEntriesResponse r))).node = n ∨
    (n.step (.message v (.appendEntriesResponse r))).node.role ≠ .leader ∨
    r.followerId = v ∧ n.role = .leader ∧ r.term = n.currentTerm := by
  by_cases hsender : r.followerId = v
  · have hstep : n.step (.message v (.appendEntriesResponse r)) =
        n.handleAppendEntriesResponse v r := if_pos hsender
    rw [hstep, handleAppendEntriesResponse]
    by_cases hlt : n.currentTerm < r.term
    · rw [if_pos hlt]
      exact .inr (.inl fun h => (by cases h))
    rw [if_neg hlt]
    by_cases hother : n.role ≠ .leader ∨ r.term ≠ n.currentTerm
    · rw [if_pos hother]
      exact .inl rfl
    · push Not at hother
      exact .inr (.inr ⟨hsender, hother⟩)
  · have hstep : n.step (.message v (.appendEntriesResponse r)) = ⟨n, []⟩ := if_neg hsender
    rw [hstep]
    exact .inl rfl

theorem leased_after (h : n.Constructed) (hleads : (n.after inputs).role = .leader) :
    n.Leased inputs (n.after inputs) := by
  induction inputs using List.reverseRecOn with
  | nil =>
    have hrole : n.role = .leader := hleads
    rw [h.fresh.2.1] at hrole
    cases hrole
  | append_singleton inputs input ih =>
    have hm' : n.after (inputs ++ [input]) = ((n.after inputs).step input).node :=
      n.after_append _ _
    rw [hm'] at hleads ⊢
    generalize hm : n.after inputs = m at ih hleads hm' ⊢
    have hacts := m.step_acts input
    by_cases hbefore : m.Leads (m.step input).node.currentTerm
    · obtain ⟨hrole, hterm⟩ := hbefore
      by_cases htick : input = .tick
      · subst htick
        exact (ih hrole).tick hm' hrole hleads hterm.symm
      by_cases hresponse : ∃ v r, input = .message v (.appendEntriesResponse r)
      · obtain ⟨v, r, rfl⟩ := hresponse
        rcases m.response_cases v r with hsame | hended | ⟨hsender, -, hr⟩
        · rw [hsame] at hm' ⊢
          exact (ih hrole).of_lease hm' rfl le_rfl le_rfl rfl
        · exact absurd hleads hended
        · exact (ih hrole).response hm hm' hrole hsender hr hterm.symm
            (response_lease hrole hsender hr hleads hterm.symm)
      · have hsteady := hacts.steady (by simpa using htick)
          (fun v r hinput => hresponse ⟨v, r, Option.some_inj.1 hinput⟩) hrole hleads hterm.symm
        exact (ih hrole).of_lease hm' hterm.symm hsteady.rounds hsteady.ticks.ge hsteady.lease
    · refine leased_of_unproved hm' (hm ▸ hbefore) hleads ?_
      refine hacts.unproved (fun {v r} hinput => ?_) hleads hbefore
      obtain rfl := Option.some_inj.1 hinput
      rcases m.response_cases v r with hsame | hended | ⟨-, hrole, hr⟩
      · rw [hsame] at hleads hbefore
        exact absurd ⟨hleads, rfl⟩ hbefore
      · exact absurd hleads hended
      · exact ⟨hrole, hr.symm⟩

/-- No `TimeoutNow` of the term has gone out while its leader has not authorised its deposition. -/
theorem timeoutNow_of_authorized {front back : List Input} {input : Input} {r : TimeoutNow}
    (hleads : (n.after (front ++ input :: back)).role = .leader)
    (hauthorized : (n.after (front ++ input :: back)).leader.depositionAuthorized = false)
    (h : .send v (.timeoutNow r) ∈ ((n.after front).step input).outputs) :
    r.term ≠ (n.after (front ++ input :: back)).currentTerm := by
  intro hterm
  obtain ⟨m, -, hforward, hrole, hr, hm⟩ := ((n.after front).step_acts input).licit h
  have hback := hforward.trans (forward_after _ back)
  have hafter : (((n.after front).step input).node).after back = n.after (front ++ input :: back) :=
    (n.after_append front (input :: back)).symm
  rw [hafter] at hback
  rcases hback.office hleads (hterm.symm.trans hr) with hcandidate | ⟨-, hkept⟩
  · rw [hrole] at hcandidate
    cases hcandidate
  · rw [hkept hm] at hauthorized
    cases hauthorized

/-- A leader of three nodes that serves reads from its lease. -/
def leaseHolder : NodeConfig where
  id := 1
  staticMembership := .stable threeVoters
  electionTimeoutTicks := 2
  electionTimeoutTicks_pos := Nat.two_pos
  requestedLeaseReads := true

/-- The answer of node 2 to the first round gives node 1 a lease. -/
def firstRound : List Input :=
  [.tick, .tick, .message 2 (.preVoteResponse ⟨1, 2, true⟩),
    .message 2 (.requestVoteResponse ⟨1, 2, true⟩),
    .message 2 (.appendEntriesResponse ⟨1, 2, true, 1, 1⟩)]

end Node

end Rafter
