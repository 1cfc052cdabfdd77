import Rafter.Conduct.Terms

/-!
# The authority of a leader

A leader counts the followers that answer it, for two purposes: once per election timeout it checks
that a quorum of them answered, and a round that a quorum answered gives it a lease.

Results:

* `Node.leader_hears_quorum`: twice the timeout brings two checks, and whoever was counted at the
  second answered since the first.
-/

namespace Rafter

namespace Node

variable {n : Node} {inputs : List Input}

/-! ## Followers that answer -/

/-- The input is an answer of the follower `v` to a leader of the term. -/
def AnswerOf (term : ℕ) (v : NodeId) (input : Input) : Prop :=
  ∃ m, input = .message v m ∧ m.senderId = v ∧ m.isResponse ∧ m.term = term

/-- Inputs other than ticks leave the clock of the check alone and count who answers. -/
theorem step_heeds {input : Input} (hinput : input ≠ .tick) (hrole : n.role = .leader)
    (hleads : (n.step input).node.role = .leader)
    (hterm : (n.step input).node.currentTerm = n.currentTerm) :
    (n.step input).node.leader.quorumCheckElapsed = n.leader.quorumCheckElapsed ∧
    ∀ v ∈ (n.step input).node.leader.quorumAcks.nodes,
      v ∈ n.leader.quorumAcks.nodes ∨ AnswerOf n.currentTerm v input := by
  have hheeds := (n.step_acts input).heeds (by simpa using hinput) hrole hleads hterm
  refine ⟨hheeds.elapsed, fun v hv => ?_⟩
  rcases hheeds.acks v hv with hold | ⟨m, hm, hresponse, hmterm⟩
  · exact .inl hold
  obtain rfl := Option.some_inj.1 hm
  by_cases hsender : m.senderId = v
  · exact .inr ⟨m, rfl, hsender, hresponse, hmterm⟩
  · -- a message under another name is not taken
    have hsame : n.step (.message v m) = ⟨n, []⟩ := if_neg hsender
    rw [hsame] at hv
    exact .inl hv

/-! ## The check -/

theorem tickLeadershipTransfer_node (n : Node) :
    ∃ transfer, n.tickLeadershipTransfer = { n with leader.pendingTransfer := transfer } := by
  unfold tickLeadershipTransfer
  cases hpending : n.leader.pendingTransfer with
  | none => exact ⟨n.leader.pendingTransfer, rfl⟩
  | some transfer => exact ⟨_, rfl⟩

/-- The check of a tick: not yet due, passed or failed. -/
theorem tickCheckQuorum_cases (hcheck : n.config.checkQuorum) :
    (n.leader.quorumCheckElapsed + 1 < n.config.electionTimeoutTicks ∧ n.tickCheckQuorum =
      ({ n with leader.quorumCheckElapsed := n.leader.quorumCheckElapsed + 1 }, none)) ∨
    (n.effectiveMembership.hasQuorum (n.id :: n.leader.quorumAcks.nodes) ∧
      ∃ acks : AcknowledgementSet, acks.nodes = [] ∧ n.tickCheckQuorum =
        ({ n with leader.quorumAcks := acks, leader.quorumCheckElapsed := 0 }, none)) ∨
    ∃ m outputs, n.tickCheckQuorum = (m, some outputs) ∧ m.role ≠ .leader := by
  have hheld := n.leader.quorumAcks.hasQuorumWithSelf_eq n.effectiveMembership n.id
  unfold tickCheckQuorum
  rw [if_neg (by simp [hcheck])]
  dsimp only
  split_ifs with hdue hquorum
  · exact .inl ⟨hdue, rfl⟩
  · exact .inr (.inl ⟨hheld ▸ hquorum, _, AcknowledgementSet.nodes_clear _, rfl⟩)
  · exact .inr (.inr ⟨_, _, rfl, fun h => (by cases h)⟩)

/-- Without a step down, the check changes nothing but what it keeps itself. -/
theorem tickCheckQuorum_node (n : Node) :
    (∃ acks elapsed, n.tickCheckQuorum = ({ n with
      leader.quorumAcks := acks
      leader.quorumCheckElapsed := elapsed }, none)) ∨
    ∃ m outputs, n.tickCheckQuorum = (m, some outputs) ∧ m.role ≠ .leader := by
  by_cases hcheck : n.config.checkQuorum
  · rcases tickCheckQuorum_cases hcheck with ⟨-, h⟩ | ⟨-, acks, -, h⟩ | hdown
    · exact .inl ⟨n.leader.quorumAcks, _, h⟩
    · exact .inl ⟨acks, 0, h⟩
    · exact .inr hdown
  · exact .inl ⟨n.leader.quorumAcks, n.leader.quorumCheckElapsed, if_pos (by simp [hcheck])⟩

/-- A leader after the clocks of a tick have advanced. -/
def clocked (n : Node) : Node :=
  { n with
    leader.ticks := n.leader.ticks + 1
    leader.heartbeatElapsed := saturatingAdd n.leader.heartbeatElapsed 1 }

/-- The tick of a node that stays leader: clocks, lease, transfer and check, and a contact round if
one is due. -/
theorem tick_leads (hrole : n.role = .leader) (hleads : n.tick.node.role = .leader) :
    ∃ transfer m, ({ n.clocked.tickReadLease with
        leader.pendingTransfer := transfer } : Node).tickCheckQuorum = (m, none) ∧
      (n.tick.node = m ∨
        ∃ progress, n.tick.node = { m.beginContactRound with leader.progress := progress }) := by
  have htick : n.tick = n.tickLeader := if_pos hrole
  obtain ⟨transfer, htransfer⟩ := tickLeadershipTransfer_node (tickReadLease { n with
    leader.ticks := n.leader.ticks + 1
    leader.heartbeatElapsed := saturatingAdd n.leader.heartbeatElapsed 1 })
  rw [htick] at hleads ⊢
  unfold tickLeader at hleads ⊢
  dsimp only at hleads ⊢
  rw [htransfer] at hleads ⊢
  rcases tickCheckQuorum_node { n.clocked.tickReadLease with leader.pendingTransfer := transfer }
    with ⟨acks, elapsed, hchecked⟩ | ⟨m, outputs, hchecked, hdeposed⟩
  · refine ⟨transfer, _, hchecked, ?_⟩
    unfold clocked at hchecked
    rw [hchecked]
    dsimp only
    split_ifs
    · exact .inl rfl
    · obtain ⟨⟨progress, hnode⟩, -⟩ := broadcastReplication_node _ .ensureContact
      rw [broadcastAppendEntries, hnode]
      exact .inr ⟨progress, rfl⟩
  · unfold clocked at hchecked
    rw [hchecked] at hleads
    exact absurd hleads hdeposed

/-- A tick of a node that stays leader counts towards the next check, or is a check passed. -/
theorem tick_watch (hcheck : n.config.checkQuorum) (hrole : n.role = .leader)
    (hleads : n.tick.node.role = .leader) :
    (n.leader.quorumCheckElapsed + 1 < n.config.electionTimeoutTicks ∧
      n.tick.node.leader.quorumCheckElapsed = n.leader.quorumCheckElapsed + 1 ∧
      ∀ v ∈ n.tick.node.leader.quorumAcks.nodes, v ∈ n.leader.quorumAcks.nodes) ∨
    (n.effectiveMembership.hasQuorum (n.id :: n.leader.quorumAcks.nodes) ∧
      n.tick.node.leader.quorumCheckElapsed = 0 ∧ n.tick.node.leader.quorumAcks.nodes = []) := by
  obtain ⟨transfer, m, hm, hnode⟩ := tick_leads hrole hleads
  obtain ⟨lease, hlease⟩ := n.clocked.tickReadLease_node
  -- a contact round leaves the watch alone
  have hwatch : n.tick.node.leader.quorumCheckElapsed = m.leader.quorumCheckElapsed ∧
      n.tick.node.leader.quorumAcks = m.leader.quorumAcks := by
    rcases hnode with hnode | ⟨progress, hnode⟩
    · rw [hnode]
      exact ⟨rfl, rfl⟩
    · rw [hnode]
      exact ⟨rfl, rfl⟩
  rw [hwatch.1, hwatch.2]
  rw [hlease] at hm
  rcases tickCheckQuorum_cases (n := { n.clocked with
      leader.lease := lease
      leader.pendingTransfer := transfer }) hcheck with
    ⟨hdue, hchecked⟩ | ⟨hquorum, acks, hacks, hchecked⟩ | ⟨m', outputs, hchecked, -⟩
  · obtain ⟨rfl, -⟩ := Prod.mk.inj (hm.symm.trans hchecked)
    exact .inl ⟨hdue, rfl, fun v hv => hv⟩
  · obtain ⟨rfl, -⟩ := Prod.mk.inj (hm.symm.trans hchecked)
    exact .inr ⟨hquorum, rfl, hacks⟩
  · cases (Prod.mk.inj (hm.symm.trans hchecked)).2

/-- Enough ticks bring a check that the node has passed. Whoever is counted then was counted before
or has answered since. -/
theorem evaluates (hcheck : n.config.checkQuorum) (hrole : n.role = .leader)
    (hleads : (n.after inputs).role = .leader)
    (hterm : (n.after inputs).currentTerm = n.currentTerm)
    (hticks : n.config.electionTimeoutTicks ≤ n.leader.quorumCheckElapsed + inputs.count .tick)
    (hpos : 0 < inputs.count .tick) :
    ∃ front back, inputs = front ++ .tick :: back ∧
      front.count .tick + 1 ≤ max 1 (n.config.electionTimeoutTicks - n.leader.quorumCheckElapsed) ∧
      (∃ followers, (n.after front).effectiveMembership.hasQuorum (n.id :: followers) ∧
        ∀ v ∈ followers, v ∈ n.leader.quorumAcks.nodes ∨ ∃ x ∈ front, AnswerOf n.currentTerm v x) ∧
      (n.after (front ++ [.tick])).leader.quorumCheckElapsed = 0 ∧
      (n.after (front ++ [.tick])).leader.quorumAcks.nodes = [] := by
  induction inputs generalizing n with
  | nil => simp at hpos
  | cons input rest ih =>
    have hstep := (n.step_acts input).forward
    obtain ⟨hleads', hterm'⟩ := hstep.between (forward_after _ rest) hrole hleads hterm
    have hconfig := hstep.config
    have hid : (n.step input).node.id = n.id := congrArg NodeConfig.id hconfig
    by_cases htick : input = .tick
    · subst htick
      rw [List.count_cons_self] at hticks hpos
      rcases tick_watch hcheck hrole hleads' with ⟨hdue, helapsed, hacks⟩ | ⟨hquorum, hzero, hnone⟩
      · change (n.step .tick).node.leader.quorumCheckElapsed = _ at helapsed
        obtain ⟨front, back, rfl, hcount, ⟨followers, hquorum, hcounted⟩, hreset⟩ :=
          ih (hconfig ▸ hcheck) hleads' hleads (hterm.trans hterm'.symm)
            (by rw [helapsed, hconfig]; omega) (by omega)
        refine ⟨.tick :: front, back, rfl, ?_, ⟨followers, hid ▸ hquorum, fun v hv => ?_⟩, hreset⟩
        · rw [List.count_cons_self]
          rw [helapsed, hconfig] at hcount
          omega
        · rcases hcounted v hv with hold | ⟨x, hx, hanswer⟩
          · exact .inl (hacks v hold)
          · exact .inr ⟨x, .tail _ hx, hterm' ▸ hanswer⟩
      · exact ⟨[], rest, rfl, by simp, ⟨_, hquorum, fun v hv => .inl hv⟩, hzero, hnone⟩
    · obtain ⟨helapsed, hacks⟩ := step_heeds htick hrole hleads' hterm'
      have hcount : (input :: rest).count .tick = rest.count .tick :=
        List.count_cons_of_ne htick
      rw [hcount] at hticks hpos
      obtain ⟨front, back, rfl, hbefore, ⟨followers, hquorum, hcounted⟩, hreset⟩ :=
        ih (hconfig ▸ hcheck) hleads' hleads (hterm.trans hterm'.symm)
          (by rw [helapsed, hconfig]; exact hticks) hpos
      refine ⟨input :: front, back, rfl, ?_, ⟨followers, hid ▸ hquorum, fun v hv => ?_⟩, hreset⟩
      · rw [List.count_cons_of_ne htick]
        rwa [helapsed, hconfig] at hbefore
      · rcases hcounted v hv with hold | ⟨x, hx, hanswer⟩
        · rcases hacks v hold with hold | hnew
          · exact .inl hold
          · exact .inr ⟨input, .head _, hnew⟩
        · exact .inr ⟨x, .tail _ hx, hterm' ▸ hanswer⟩

/-- A node that stays leader of a term for twice its election timeout has heard from a quorum of
its membership between two of the ticks. -/
theorem leader_hears_quorum (hcheck : n.config.checkQuorum) (hrole : n.role = .leader)
    (hleads : (n.after inputs).role = .leader)
    (hterm : (n.after inputs).currentTerm = n.currentTerm)
    (hticks : 2 * n.config.electionTimeoutTicks ≤ inputs.count .tick) :
    ∃ front mid back followers, inputs = front ++ .tick :: (mid ++ .tick :: back) ∧
      (∀ v ∈ followers, ∃ x ∈ mid, AnswerOf n.currentTerm v x) ∧
      (n.after (front ++ .tick :: mid)).effectiveMembership.hasQuorum (n.id :: followers) := by
  have hpos := n.config.electionTimeoutTicks_pos
  obtain ⟨front, rest, rfl, hfirst, -, hzero, hnone⟩ :=
    evaluates hcheck hrole hleads hterm (by omega) (by omega)
  rw [List.count_append, List.count_cons_self] at hticks
  -- the second check is due within the ticks that are left
  have hsplit : front ++ .tick :: rest = (front ++ [.tick]) ++ rest := by simp
  rw [hsplit, after_append] at hleads hterm
  have hforward := n.forward_after (front ++ [.tick])
  obtain ⟨hleads', hterm'⟩ := hforward.between (forward_after _ rest) hrole hleads hterm
  have hconfig := hforward.config
  have hid : (n.after (front ++ [.tick])).id = n.id := congrArg NodeConfig.id hconfig
  obtain ⟨mid, back, rfl, -, ⟨followers, hquorum, hcounted⟩, -⟩ :=
    evaluates (hconfig ▸ hcheck) hleads' hleads (hterm.trans hterm'.symm)
      (by rw [hzero, hconfig]; omega) (by omega)
  refine ⟨front, mid, back, followers, rfl, fun v hv => ?_, ?_⟩
  · rcases hcounted v hv with hold | ⟨x, hx, hanswer⟩
    · rw [hnone] at hold
      cases hold
    · exact ⟨x, hx, hterm' ▸ hanswer⟩
  · have hsplit' : front ++ .tick :: mid = (front ++ [.tick]) ++ mid := by simp
    rw [hsplit', after_append, ← hid]
    exact hquorum

/-- Node 1 of three voters, which checks its quorum every two ticks. -/
def watchful : NodeConfig where
  id := 1
  staticMembership := .stable threeVoters
  electionTimeoutTicks := 2
  electionTimeoutTicks_pos := Nat.two_pos
  requestedPreVote := false

/-- Four ticks in which node 2 answers twice. -/
def answeredTicks : List Input :=
  [.message 2 (.appendEntriesResponse ⟨1, 2, true, 1, 1⟩), .tick, .tick,
    .message 2 (.appendEntriesResponse ⟨1, 2, true, 1, 2⟩), .tick, .tick]

/-- Node 2 answers the leader once before each check. -/
theorem leader_hears_quorum_watchful :
    let n := (Node.new watchful).after
      [.tick, .tick, .message 2 (.requestVoteResponse ⟨1, 2, true⟩)]
    n.role = .leader ∧ (n.after answeredTicks).role = .leader ∧
    ∃ front mid back followers, answeredTicks = front ++ .tick :: (mid ++ .tick :: back) ∧
      (∀ v ∈ followers, ∃ x ∈ mid, AnswerOf n.currentTerm v x) ∧
      (n.after (front ++ .tick :: mid)).effectiveMembership.hasQuorum (n.id :: followers) := by
  intro n
  have hrole : n.role = .leader := by decide +kernel
  have hleads : (n.after answeredTicks).role = .leader := by decide +kernel
  refine ⟨hrole, hleads, ?_⟩
  exact leader_hears_quorum (by decide +kernel) hrole hleads (by decide +kernel) (by decide +kernel)

end Node

end Rafter
