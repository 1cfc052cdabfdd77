import Rafter.Node.Send
import Rafter.Refinement.Relation

/-!
# Role transitions and commitment refine the protocol

The functions of `Node/Commit.lean`. Losing leadership raises the term at most; emitting committed
outputs moves the dispatch cursor; the leader's commit rule is the protocol's `commit`, and
becoming leader is `elect` followed by `append` of the first entry.

Results:

* `NodeOk.becomeFollower`, `NodeOk.emitCommittedOutputs`, `NodeOk.advanceCommitIndex`;
* `NodeOk.becomeLeader`: a candidate with a quorum of votes.
-/

namespace Rafter

open Protocol

variable {initial : MembershipConfig} {s s' : Ghost} {i : NodeId} {n n' : Node}
variable {e : LogEntry} {c j k t : ℕ} {v : NodeId} {g : List LogEntry} {f : Progress → Progress}
variable (hI : (raftScheme initial).Inv s) (h : NodeOk initial i s n)

/-! ## Fields the relation does not read -/

/-- The node without the fields the refinement relation does not read. -/
def Node.core (n : Node) : Node where
  config := n.config
  persistent := n.persistent
  volatile :=
    { role := n.volatile.role
      commitIndex := n.volatile.commitIndex
      dispatchedIndex := n.volatile.dispatchedIndex }
  election := { votes := n.election.votes }
  leader := { progress := n.leader.progress }
  configuration := n.configuration

theorem Represents.core : Represents initial n.core g ↔ Represents initial n g :=
  ⟨fun h => ⟨h.static, h.log, h.index, h.snapshot, h.committed, h.snapshot_le, h.dispatched_le,
    h.commit_le⟩,
   fun h => ⟨h.static, h.log, h.index, h.snapshot, h.committed, h.snapshot_le, h.dispatched_le,
    h.commit_le⟩⟩

theorem nodeOk_core : NodeOk initial i s n.core ↔ NodeOk initial i s n :=
  ⟨fun h => ⟨h.id, h.term, Represents.core.1 h.rep, h.commit, h.vote,
    fun hr => ⟨(h.candidate hr).cand, (h.candidate hr).votes, (h.candidate hr).lead⟩,
    fun hr => ⟨(h.leader hr).lead, (h.leader hr).commits, (h.leader hr).rows,
      (h.leader hr).discipline⟩, h.progress⟩,
   fun h => ⟨h.id, h.term, Represents.core.2 h.rep, h.commit, h.vote,
    fun hr => ⟨(h.candidate hr).cand, (h.candidate hr).votes, (h.candidate hr).lead⟩,
    fun hr => ⟨(h.leader hr).lead, (h.leader hr).commits, (h.leader hr).rows,
      (h.leader hr).discipline⟩, h.progress⟩⟩

/-- Changes to fields outside the core are invisible. -/
theorem NodeOk.congr (h : NodeOk initial i s n) (hc : n'.core = n.core) :
    NodeOk initial i s n' :=
  nodeOk_core.1 (hc ▸ nodeOk_core.2 h)

theorem Reaches.of_core {o : Outcome} (h : NodeOk initial i s n) (hc : o.node.core = n.core)
    (ho : ∀ x ∈ o.outputs, OutputOk initial i s x) : Reaches initial i s o :=
  ⟨s, .refl, h.congr hc, ho⟩

/-! ## Losing leadership -/

theorem outputOk_dropOutputs (reason : LocalProposalDropReason) (p : LocalProposalTracker) :
    ∀ x ∈ Node.dropOutputs reason p, OutputOk initial i s x := by
  intro x hx
  obtain ⟨⟨index, q⟩, -, rfl⟩ := List.mem_map.1 hx
  trivial

theorem NodeOk.drainLocalProposals (h : NodeOk initial i s n) (reason : LocalProposalDropReason) :
    Reaches initial i s (n.drainLocalProposals reason) :=
  .of_core h rfl (outputOk_dropOutputs reason _)

theorem NodeOk.drainPendingReads (h : NodeOk initial i s n) (reason : ReadIndexCancelReason) :
    Reaches initial i s (n.drainPendingReads reason) := by
  refine .of_core h rfl fun x hx => ?_
  obtain ⟨pending, -, hx⟩ := List.mem_flatMap.1 hx
  obtain ⟨id, -, rfl⟩ := List.mem_map.1 hx
  trivial

/-- A follower of the present term keeps its vote. -/
theorem NodeOk.followerState_of_le (h : NodeOk initial i s n) {term : ℕ}
    (ht : term ≤ n.currentTerm) : NodeOk initial i s (n.followerState term) := by
  have hterm : (n.followerState term).currentTerm = n.currentTerm := max_eq_left ht
  refine ⟨h.id, by rw [hterm]; exact h.term, ?_, by rw [hterm]; exact h.commit, ?_,
    fun hr => by simp [Node.role, Node.followerState] at hr,
    fun hr => by simp [Node.role, Node.followerState] at hr, fun _ => rfl⟩
  · exact h.rep.of_eq rfl rfl rfl rfl rfl hterm.ge le_rfl h.rep.dispatched_le le_rfl
      h.rep.commit_le
  · intro c hv
    rw [hterm] at hv
    have : (n.followerState term).persistent.votedFor = n.persistent.votedFor :=
      if_neg (by omega)
    rw [this]
    exact h.vote c hv

include hI h in
/-- A higher term is adopted without a vote. -/
theorem NodeOk.followerState_of_lt {term : ℕ} (ht : n.currentTerm < term) :
    ∃ s', (raftScheme initial).Steps i s s' ∧ s'.log = s.log ∧
      NodeOk initial i s' (n.followerState term) := by
  have hterm : (n.followerState term).currentTerm = term := max_eq_right ht.le
  have hstep : (raftScheme initial).Step i s { s with term := Function.update s.term i term } :=
    .bump i term (by rw [h.term]; exact ht)
  refine ⟨_, .single hstep, rfl, h.id, by rw [hterm]; simp, ?_, ?_, ?_,
    fun hr => by simp [Node.role, Node.followerState] at hr,
    fun hr => by simp [Node.role, Node.followerState] at hr, fun _ => rfl⟩
  · exact h.rep.of_eq rfl rfl rfl rfl rfl (ht.le.trans hterm.ge) le_rfl h.rep.dispatched_le le_rfl
      h.rep.commit_le
  · rw [hterm]
    exact h.commit.mono hI (hI.extends hstep) ht.le
  · intro c hv
    rw [hterm] at hv
    exact absurd (h.term ▸ hI.vote_term hv) (by omega)

include hI h in
theorem NodeOk.becomeFollower (term : ℕ) : Reaches initial i s (n.becomeFollower term) := by
  refine ((h.drainLocalProposals .leadershipLost).andThen hI fun s' _ _ h' =>
    h'.drainPendingReads .leadershipLost).andThen hI fun s' hI' _ h' => ?_
  rcases Nat.lt_or_ge (Node.currentTerm _) term with ht | ht
  · obtain ⟨s'', hs, -, hn⟩ := h'.followerState_of_lt hI' ht
    exact ⟨s'', hs, hn, by simp⟩
  · exact .of_node (h'.followerState_of_le ht) (by simp)

/-! ## Committed outputs -/

theorem NodeOk.setDispatched (h : NodeOk initial i s n) (hk : n.dispatchedIndex ≤ k)
    (hkc : k ≤ n.commitIndex) : NodeOk initial i s { n with volatile.dispatchedIndex := k } where
  id := h.id
  term := h.term
  rep := h.rep.of_eq rfl rfl rfl rfl rfl le_rfl hk hkc le_rfl h.rep.commit_le
  commit := h.commit
  vote := h.vote
  candidate hr := ⟨(h.candidate hr).cand, (h.candidate hr).votes, (h.candidate hr).lead⟩
  leader hr := ⟨(h.leader hr).lead, (h.leader hr).commits, (h.leader hr).rows,
    (h.leader hr).discipline⟩
  progress := h.progress

include hI h in
theorem NodeOk.stepDownIfRemoved (m : MembershipConfig) : Reaches initial i s
    (n.stepDownIfRemoved m) := by
  unfold Node.stepDownIfRemoved
  split_ifs
  · exact h.becomeFollower hI _
  · exact .of_node h (by simp)

include hI h in
theorem NodeOk.emitEntry (hlt : n.dispatchedIndex < n.commitIndex)
    (he : n.entryAt (n.dispatchedIndex + 1) = some e) :
    Reaches initial i s (n.emitEntry (n.dispatchedIndex + 1) e) := by
  have hentry : CommittedEntry s (n.dispatchedIndex + 1) e := by
    rw [h.rep.entryAt_eq (Nat.lt_succ_of_le h.rep.snapshot_le)] at he
    refine h.commit.entry (Nat.succ_pos _) ?_
    rw [List.getElem?_take_of_lt (by omega), he]
  have hn := h.setDispatched (Nat.le_succ _) hlt
  obtain ⟨t, kind⟩ := e
  unfold Node.emitEntry
  cases kind with
  | application payload =>
    refine .of_core hn rfl fun x hx => ?_
    obtain rfl := List.mem_singleton.1 hx
    exact hentry
  | configuration c =>
    refine Reaches.andThen hI (.of_core hn rfl fun x hx => ?_)
      fun s' hI' _ h' => h'.stepDownIfRemoved hI' _
    obtain rfl := List.mem_singleton.1 hx
    exact hentry
  | noop => exact .of_core hn rfl (by simp)

include hI h in
/-- By induction on the turns of the loop. -/
theorem NodeOk.emitLoop (fuel : ℕ) : Reaches initial i s (Node.emitLoop fuel n) := by
  induction fuel generalizing n s with
  | zero => exact .of_node h (by simp)
  | succ fuel ih =>
    rw [Node.emitLoop]
    split_ifs with hlt
    · cases he : n.entryAt (n.dispatchedIndex + 1) with
      | none => exact .of_node h (by simp)
      | some e => exact (h.emitEntry hI hlt he).andThen hI fun s' hI' _ h' => ih hI' h'
    · exact .of_node h (by simp)

include hI h in
theorem NodeOk.emitCommittedOutputs : Reaches initial i s n.emitCommittedOutputs :=
  h.emitLoop hI _

/-- Dispatch moves the cursor and empties the tracker, and may end an office. -/
theorem Node.emitEntry_node (n : Node) (index : ℕ) (entry : LogEntry) :
    ∃ tracker, (n.emitEntry index entry).node = { n with
      volatile.dispatchedIndex := index
      volatile.localProposals := tracker } ∨
      n.role = .leader ∧ (n.emitEntry index entry).node = (Node.becomeFollower { n with
        volatile.dispatchedIndex := index
        volatile.localProposals := tracker } n.currentTerm).node := by
  unfold Node.emitEntry
  dsimp only
  refine ⟨(LocalProposalTracker.remove n.volatile.localProposals index).2, ?_⟩
  cases entry.kind with
  | application payload => exact .inl rfl
  | noop => exact .inl rfl
  | configuration configuration =>
    rw [Outcome.andThen_node, Node.stepDownIfRemoved]
    split_ifs with hout
    · exact .inr ⟨hout.1, rfl⟩
    · exact .inl rfl

/-- What emission leaves alone: all but the dispatch cursor, the tracked proposals and the
office. -/
structure Node.EmitKeeps (n n' : Node) : Prop where
  config : n'.config = n.config
  log : n'.persistent.log = n.persistent.log
  snapshot : n'.persistent.snapshot = n.persistent.snapshot
  commit : n'.commitIndex = n.commitIndex
  term : n'.currentTerm = n.currentTerm
  office : n'.role = .leader → n.role = .leader

theorem Node.EmitKeeps.refl (n : Node) : n.EmitKeeps n := ⟨rfl, rfl, rfl, rfl, rfl, fun h => h⟩

theorem Node.EmitKeeps.trans {n n' n'' : Node} (h : n.EmitKeeps n') (h' : n'.EmitKeeps n'') :
    n.EmitKeeps n'' :=
  ⟨h'.config.trans h.config, h'.log.trans h.log, h'.snapshot.trans h.snapshot,
    h'.commit.trans h.commit, h'.term.trans h.term, fun hr => h.office (h'.office hr)⟩

theorem Node.emitEntry_keeps (n : Node) (index : ℕ) (entry : LogEntry) :
    n.EmitKeeps (n.emitEntry index entry).node := by
  obtain ⟨tracker, hnode | ⟨hrole, hnode⟩⟩ := n.emitEntry_node index entry
  · rw [hnode]
    exact ⟨rfl, rfl, rfl, rfl, rfl, fun h => h⟩
  · rw [hnode]
    exact ⟨rfl, rfl, rfl, rfl, max_self _, fun _ => hrole⟩

theorem Node.emitLoop_keeps (fuel : ℕ) (n : Node) : n.EmitKeeps (emitLoop fuel n).node := by
  induction fuel generalizing n with
  | zero => exact .refl n
  | succ fuel ih =>
    rw [emitLoop]
    split_ifs
    · cases n.entryAt (n.dispatchedIndex + 1) with
      | none => exact .refl n
      | some entry => exact (n.emitEntry_keeps _ entry).trans (ih _)
    · exact .refl n

/-! ## Leader progress -/

include hI h in
theorem NodeOk.exists_lead (hr : n.role = .leader) :
    ∃ d, s.lead n.currentTerm = some d ∧ d.node = i ∧ d.log = s.log i := by
  obtain ⟨d, hd, hn⟩ := (h.leader hr).lead
  refine ⟨d, hd, hn, ?_⟩
  have := hI.lead_log hd (by rw [hn, h.term])
  rw [← this, hn]

include hI h in
/-- A node acknowledges what it shares with the leader's log. -/
theorem NodeOk.ack {d : Leadership NodeId LogEntry} (hd : s.lead n.currentTerm = some d)
    (hj : j ≤ d.log.length) (hp : d.log.take j <+: s.log i) :
    ∃ s', (raftScheme initial).Steps i s s' ∧ s'.log = s.log ∧ s'.lead = s.lead ∧
      NodeOk initial i s' n ∧ s'.acks i n.currentTerm j := by
  have hstep := Scheme.Step.ack (S := raftScheme initial) i n.currentTerm d j hd h.term hj hp
  have he := hI.extends hstep
  refine ⟨_, .single hstep, rfl, rfl, ⟨h.id, h.term, h.rep, ?_, h.vote, ?_, ?_, h.progress⟩,
    .inr ⟨rfl, rfl, rfl⟩⟩
  · exact h.commit.mono hI he le_rfl
  · exact fun hr => ⟨(h.candidate hr).cand, (h.candidate hr).votes, (h.candidate hr).lead⟩
  · refine fun hr => ⟨(h.leader hr).lead, (h.leader hr).commits, fun v row hv => ?_,
      (h.leader hr).discipline⟩
    obtain ⟨hle, hack⟩ := (h.leader hr).rows v row hv
    exact ⟨hle, hack.imp_right fun ⟨k, hk, ha⟩ => ⟨k, hk, he.acks ha⟩⟩

/-- A match index that the follower acknowledged to this leader. -/
def MatchOk (i : NodeId) (s : Ghost) (t : ℕ) (v : NodeId) (k : ℕ) : Prop :=
  k ≤ (s.log i).length ∧ (k = 0 ∨ ∃ j, k ≤ j ∧ s.acks v t j)

theorem MatchOk.max (hj : MatchOk i s t v j) (hk : MatchOk i s t v k) :
    MatchOk i s t v (max j k) := by
  rcases le_total j k with hle | hle
  · rwa [max_eq_right hle]
  · rwa [max_eq_left hle]

theorem NodeOk.setProgress (h : NodeOk initial i s n) (hr : n.role = .leader) {p : ProgressSet}
    (hrows : ∀ v row, p.get v = some row → MatchOk i s n.currentTerm v row.matchIndex) :
    NodeOk initial i s { n with leader.progress := p } where
  id := h.id
  term := h.term
  rep := h.rep.of_eq rfl rfl rfl rfl rfl le_rfl le_rfl h.rep.dispatched_le le_rfl h.rep.commit_le
  commit := h.commit
  vote := h.vote
  candidate hr' := absurd (hr.symm.trans hr') (by simp)
  leader _ := ⟨(h.leader hr).lead, (h.leader hr).commits, hrows, (h.leader hr).discipline⟩
  progress hr' := absurd hr hr'

theorem ProgressSet.modify_default (v : NodeId) (f : Progress → Progress) :
    (default : ProgressSet).modify v f = default := rfl

/-- Updating a row to a match index the follower acknowledged. -/
theorem NodeOk.modifyProgress (h : NodeOk initial i s n)
    (hf : ∀ row, n.leader.progress.get v = some row → n.role = .leader → MatchOk i s n.currentTerm v
      (f row).matchIndex) :
    NodeOk initial i s (n.modifyProgress v f) := by
  by_cases hr : n.role = .leader
  · refine h.setProgress hr fun k row hk => ?_
    rw [ProgressSet.get_modify] at hk
    split_ifs at hk with hkv
    · subst hkv
      obtain ⟨row', hrow', rfl⟩ := Option.map_eq_some_iff.1 hk
      exact hf row' hrow' hr
    · exact (h.leader hr).rows k row hk
  · have hcore : (n.modifyProgress v f).core = n.core := by
      simp [Node.modifyProgress, Node.core, h.progress hr, ProgressSet.modify_default]
    exact h.congr hcore

/-- Updates that keep the match index. -/
theorem NodeOk.modifyProgress_of_eq (h : NodeOk initial i s n)
    (hf : ∀ row, (f row).matchIndex = row.matchIndex) :
    NodeOk initial i s (n.modifyProgress v f) :=
  h.modifyProgress fun row hrow hr => by
    rw [hf row]
    exact (h.leader hr).rows v row hrow

/-- A row raised to an index its follower acknowledged. -/
theorem NodeOk.raiseRow (h : NodeOk initial i s n)
    (hf : ∀ row, (f row).matchIndex = max row.matchIndex k) (hk : k ≤ (s.log i).length)
    (hkj : k ≤ j) (hack : s.acks v n.currentTerm j) :
    NodeOk initial i s (n.modifyProgress v f) :=
  h.modifyProgress fun row hrow hr => by
    rw [hf row]
    exact MatchOk.max ((h.leader hr).rows v row hrow) ⟨hk, .inr ⟨j, hkj, hack⟩⟩

include hI h in
/-- Reconciling gives rows to new replicas and raises the leader's own row to its last index. -/
theorem NodeOk.reconcile :
    ∃ s', (raftScheme initial).Steps i s s' ∧ s'.log = s.log ∧
      NodeOk initial i s' n.reconcileReplicationProgress ∧
      (n.role = .leader → s'.acks i n.currentTerm (s.log i).length) := by
  unfold Node.reconcileReplicationProgress
  split_ifs with hr
  · exact ⟨s, .refl, rfl, h, fun hr' => absurd hr' hr⟩
  rw [not_not] at hr
  obtain ⟨d, hd, hn, hlog⟩ := h.exists_lead hI hr
  obtain ⟨s', hs, hlog', hlead', h', hack⟩ := h.ack hI hd (j := (s.log i).length)
    (by rw [hlog]) (by rw [hlog, List.take_length])
  refine ⟨s', hs, hlog', h'.setProgress hr fun v row hv => ?_, fun _ => hack⟩
  rw [ProgressSet.get_reconcileMembership] at hv
  obtain ⟨-, hv⟩ := Option.ite_none_right_eq_some.1 hv
  obtain rfl := Option.some_inj.1 hv
  have hself : MatchOk i s' n.currentTerm i n.lastLogIndex := by
    rw [h.rep.lastLogIndex_eq]
    exact ⟨by rw [hlog'], .inr ⟨_, le_rfl, hack⟩⟩
  have hzero : MatchOk i s' n.currentTerm v 0 := ⟨Nat.zero_le _, .inl rfl⟩
  have hid : n.id = i := h.id
  unfold ProgressSet.reconciledRow
  by_cases hv' : v = n.id
  · subst hv'
    rw [← hid] at hself
    simp only [if_true, Progress.applyLocalFloor]
    refine hid ▸ MatchOk.max ?_ hself
    cases hrow : n.leader.progress.get n.id with
    | none => exact hself
    | some row => exact hid.symm ▸ (h'.leader hr).rows n.id row hrow
  · simp only [hv', if_false]
    cases hrow : n.leader.progress.get v with
    | none => exact hzero
    | some row => exact (h'.leader hr).rows v row hrow

include hI h in
theorem NodeOk.recordLocalProgress (hr : n.role = .leader) : ∃ s',
    (raftScheme initial).Steps i s s' ∧ s'.log = s.log ∧
      NodeOk initial i s' n.recordLocalProgress := by
  obtain ⟨s', hs, hlog, h', hack⟩ := h.reconcile hI
  have hterm : n.reconcileReplicationProgress.currentTerm = n.currentTerm := by
    rw [Node.reconcileReplicationProgress, if_neg (by simp [hr])]
    rfl
  have hid : n.reconcileReplicationProgress.id = i := h'.id
  refine ⟨s', hs, hlog, h'.modifyProgress fun row _ _ => ?_⟩
  rw [hterm, hid, h'.rep.lastLogIndex_eq, hlog]
  exact ⟨by rw [hlog], .inr ⟨_, le_rfl, hack hr⟩⟩

/-! ## The commit rule -/

theorem quorumReplicatedIndex_default : quorumReplicatedIndex default = none := by decide

theorem matchIndexOf_eq {p : ProgressSet} (h : 0 < p.matchIndexOf v) :
    ∃ row, p.get v = some row ∧ row.matchIndex = p.matchIndexOf v := by
  cases hrow : p.get v with
  | none => simp [ProgressSet.matchIndexOf, hrow] at h
  | some row => exact ⟨row, rfl, by simp [ProgressSet.matchIndexOf, hrow]⟩

include hI h in
/-- An index of the current term that a quorum acknowledged is committed. -/
theorem NodeOk.commitTo (hr : n.role = .leader)
    (hfor : n.leader.progress.index.IsFor n.effectiveMembership n.id)
    (hq : quorumReplicatedIndex n.leader.progress = some c) (hc : n.commitIndex < c)
    (ht : n.termAt c = some n.currentTerm) :
    ∃ s', (raftScheme initial).Steps i s s' ∧ s'.log = s.log ∧
      NodeOk initial i s' { n with volatile.commitIndex := c } := by
  obtain ⟨d, hd, hn, hlog⟩ := h.exists_lead hI hr
  have hterm := h.rep.termOf_of_termAt ht
  have hcle := le_of_termOf_eq_some hterm
  rw [termOf_of_pos (by omega), Option.map_eq_some_iff] at hterm
  obtain ⟨e, he, hte⟩ := hterm
  have hquorum : (raftScheme initial).quorum ((raftScheme initial).configOf d.log)
      {v | ∃ j, c ≤ j ∧ s.acks v n.currentTerm j} := by
    have hmaj := quorumReplicatedIndex_quorum hfor hq
    rw [h.rep.effectiveMembership_eq, membershipOf, ← hlog] at hmaj
    refine ⟨_, hmaj, fun v hv => ?_⟩
    · obtain ⟨-, hv⟩ := List.mem_filter.1 hv
      have hle : c ≤ n.leader.progress.matchIndexOf v := by simpa using hv
      obtain ⟨row, hrow, hmi⟩ := matchIndexOf_eq (by omega : 0 < n.leader.progress.matchIndexOf v)
      rcases ((h.leader hr).rows v row hrow).2 with h0 | ⟨j, hj, ha⟩
      · omega
      · exact ⟨j, by omega, ha⟩
  have hstep := Scheme.Step.commit (S := raftScheme initial) n.currentTerm d c e hd
    (by rw [hlog]; exact he) (by omega) hte
    (fun k hk => ((h.leader hr).commits k hk).trans_lt hc) hquorum
  rw [hn] at hstep
  have hex := hI.extends hstep
  refine ⟨_, .single hstep, rfl, h.id, h.term, ?_, ?_, h.vote,
    fun hr' => absurd (hr.symm.trans hr') (by simp), fun _ => ?_, h.progress⟩
  · exact h.rep.of_eq rfl rfl rfl rfl rfl le_rfl le_rfl (h.rep.dispatched_le.trans hc.le) hc.le hcle
  · refine .inr ⟨n.currentTerm, c, le_rfl, .inr ⟨rfl, rfl⟩, ?_⟩
    show (s.log i).take c <+: s.pre n.currentTerm c
    rw [State.pre_eq hd, hlog]
  · refine ⟨(h.leader hr).lead, ?_, (h.leader hr).rows, ?_⟩
    · rintro k (hk | ⟨-, rfl⟩)
      · exact ((h.leader hr).commits k hk).trans hc.le
      · exact le_rfl
    · intro q p e e' hqp hp hq' hp' hce hce' ht'
      exact ((h.leader hr).discipline q p e e' hqp hp hq' hp' hce hce' ht').trans hc

include hI h in
theorem NodeOk.advanceCommitIndex : Reaches initial i s n.advanceCommitIndex := by
  obtain ⟨s', hs, -, h', -⟩ := h.reconcile hI
  have hI' := (hI.steps hs).1
  refine .of_steps hs ?_
  unfold Node.advanceCommitIndex
  dsimp only
  cases hq : quorumReplicatedIndex n.reconcileReplicationProgress.leader.progress with
  | none => exact .of_node h' (by simp)
  | some c =>
    dsimp only
    split_ifs with hc ht
    · exact .of_node h' (by simp)
    · exact .of_node h' (by simp)
    · have hr : n.role = .leader := by
        by_contra hr
        have hsame : n.reconcileReplicationProgress = n := by
          rw [Node.reconcileReplicationProgress, if_pos hr]
        rw [hsame, h.progress hr, quorumReplicatedIndex_default] at hq
        exact absurd hq (by simp)
      have heq : n.reconcileReplicationProgress = { n with
          leader.progress := n.leader.progress.reconcileMembership n.effectiveMembershipShortcut
            n.id (n.snapshotIndex + 1) n.lastLogIndex } := by
        rw [Node.reconcileReplicationProgress, if_neg (by simp [hr])]
      have hr' : n.reconcileReplicationProgress.role = .leader := by rw [heq]; exact hr
      have hfor : n.reconcileReplicationProgress.leader.progress.index.IsFor
          n.reconcileReplicationProgress.effectiveMembership
          n.reconcileReplicationProgress.id := by
        rw [heq]
        have := n.leader.progress.reconcileMembership_isFor n.effectiveMembershipShortcut n.id
          (n.snapshotIndex + 1) n.lastLogIndex
        rw [n.effectiveMembershipShortcut_eq] at this ⊢
        exact this
      obtain ⟨s'', hs', -, h''⟩ := h'.commitTo hI' hr' hfor hq (by omega) (not_not.1 ht)
      exact .of_steps hs' (h''.emitCommittedOutputs (hI'.steps hs').1)

/-! ## Appending as leader -/

include hI h in
/-- What is committed up to a leader's commit index covers its configurations when none stands
above it. -/
theorem NodeOk.covered (hr : n.role = .leader)
    (hnone : ∀ e ∈ (s.log i).drop n.commitIndex, e.configurationEntry = none) :
    (raftScheme initial).Covered s n.currentTerm (s.log i) := by
  obtain ⟨d, hd, hn, hlog⟩ := h.exists_lead hI hr
  rcases h.commit with hnil | ⟨t, j, ht, hc, hp⟩
  · left
    rw [configs_eq_nil_iff]
    intro e he
    rw [← List.take_append_drop n.commitIndex (s.log i), hnil, List.nil_append] at he
    exact hnone e he
  · right
    refine ⟨t, j, ht, hc, ?_, ?_⟩
    · rcases ht.lt_or_eq with hlt | rfl
      · exact hlog ▸ (hI.complete_lead hc hlt hd).trans (hI.lead hd).base
      · rw [State.pre_eq hd, hlog]
        exact List.take_prefix ..
    · have hjle : n.commitIndex ≤ j := by
        have := hp.length_le
        rw [List.length_take, min_eq_left h.rep.commit_le] at this
        exact this.trans (List.length_take_le ..)
      rw [configs_eq_nil_iff]
      intro e he
      refine hnone e ?_
      rw [← Nat.add_sub_cancel' hjle, ← List.drop_drop] at he
      exact List.mem_of_mem_drop he

/-- An entry the leader may append: of its term and, if it is a configuration, a successor of the
present one while none is uncommitted. -/
structure Appendable (initial : MembershipConfig) (g : List LogEntry) (t c : ℕ) (e : LogEntry) :
    Prop where
  term : e.term = t
  next : ∀ cfg, e.configurationEntry = some cfg →
    (raftScheme initial).next ((raftScheme initial).configOf g) (cfg.configId, cfg.membershipConfig)
  committed : e.isConfiguration → ∀ e' ∈ g.drop c, e'.configurationEntry = none

theorem Appendable.discipline (h : Appendable initial g t c e) (hd : Disciplined g t g.length c) :
    Disciplined (g ++ [e]) t (g ++ [e]).length c := by
  intro q p a b hqp hp hq hpb ha hb htb
  have hplt : p < g.length + 1 := by simpa using hp
  rw [List.getElem?_append_left (by omega)] at hq
  rcases Nat.lt_or_ge p g.length with hlt | hge
  · rw [List.getElem?_append_left hlt] at hpb
    exact hd q p a b hqp hlt hq hpb ha hb htb
  · -- the new entry is the configuration: nothing before it is above the commit index
    obtain rfl : p = g.length := by omega
    obtain rfl : e = b := by simpa using hpb
    by_contra hqc
    have hmem : a ∈ g.drop c := by
      refine List.mem_of_getElem? (i := q - c) ?_
      rw [List.getElem?_drop, Nat.add_sub_cancel' (by omega), hq]
    have := h.committed hb a hmem
    simp [LogEntry.isConfiguration, this] at ha

include hI h in
theorem NodeOk.append (hr : n.role = .leader)
    (ha : Appendable initial (s.log i) n.currentTerm n.commitIndex e) :
    ∃ s', (raftScheme initial).Steps i s s' ∧ NodeOk initial i s' (n.appendLogEntry e) := by
  obtain ⟨d, hd, hn, hlog⟩ := h.exists_lead hI hr
  have hcfg : ∀ c ∈ (raftScheme initial).config e,
      (raftScheme initial).next ((raftScheme initial).configOf d.log) c ∧
        (raftScheme initial).Covered s n.currentTerm d.log := by
    intro c hc
    obtain ⟨cfg, hcfg, rfl⟩ := Option.map_eq_some_iff.1 hc
    rw [hlog]
    exact ⟨ha.next cfg hcfg, h.covered hI hr (ha.committed
      (by simp [LogEntry.isConfiguration, hcfg]))⟩
  have hstep := Scheme.Step.append (S := raftScheme initial) n.currentTerm d e hd
    (by rw [hn, h.term]) ha.term hcfg
  rw [hn, hlog] at hstep
  have hex := hI.extends hstep
  have hlog' : Function.update s.log i (s.log i ++ [e]) i = s.log i ++ [e] := by simp
  refine ⟨_, .single hstep, h.id, h.term, ?_, ?_, h.vote,
    fun hr' => absurd (hr.symm.trans hr') (by simp), fun _ => ?_, fun hr' => absurd hr hr'⟩
  · simp only [hlog']
    exact h.rep.append e
  · simp only [hlog']
    show CommittedPrefix _ n.currentTerm ((s.log i ++ [e]).take n.commitIndex)
    rw [List.take_append_of_le_length h.rep.commit_le]
    exact h.commit.mono hI hex le_rfl
  · refine ⟨⟨_, Function.update_self .., rfl⟩,
      (h.leader hr).commits, fun v row hv => ?_, ?_⟩
    · obtain ⟨hle, hack⟩ := (h.leader hr).rows v row hv
      simp only [hlog']
      exact ⟨hle.trans (by simp), hack⟩
    · simp only [hlog']
      exact ha.discipline (h.leader hr).discipline

theorem NodeOk.appendable_of_not_configuration (ht : e.term = t)
    (hc : e.configurationEntry = none) :
    Appendable initial g t c e where
  term := ht
  next cfg h := by simp [hc] at h
  committed h := by simp [LogEntry.isConfiguration, hc] at h

/-! ## Gaining leadership -/

include hI h in
/-- A candidate with a quorum of votes is elected. -/
theorem NodeOk.elect (hr : n.role = .candidate) (hq : n.hasEffectiveQuorum n.election.votes) :
    ∃ s', (raftScheme initial).Steps i s s' ∧ s'.log = s.log ∧
      NodeOk initial i s' { n with volatile.role := .leader, leader := {} } := by
  have hcand := h.candidate hr
  rw [Node.hasEffectiveQuorum, MembershipIndex.hasQuorum_eq, n.effectiveMembershipShortcut_eq,
    h.rep.effectiveMembership_eq] at hq
  have hquorum : (raftScheme initial).quorum ((raftScheme initial).configOf (s.log i))
      {v | s.votes v n.currentTerm i} := ⟨_, hq, hcand.votes⟩
  have hnone : s.lead n.currentTerm = none := by
    cases hd : s.lead n.currentTerm with
    | none => rfl
    | some d => exact absurd (hI.elect_unique hd hcand.cand hquorum) (hcand.lead d hd)
  have hstep := Scheme.Step.elect (S := raftScheme initial) n.currentTerm i (s.log i) hcand.cand
    h.term rfl hnone hquorum
  have hex := hI.extends hstep
  refine ⟨_, .single hstep, rfl, h.id, h.term, ?_, h.commit.mono hI hex le_rfl, h.vote,
    fun hr' => by simp [Node.role] at hr', fun _ => ?_, fun _ => rfl⟩
  · exact h.rep.of_eq rfl rfl rfl rfl rfl le_rfl le_rfl h.rep.dispatched_le le_rfl h.rep.commit_le
  · refine ⟨⟨_, Function.update_self .., rfl⟩, fun k hk => ?_, fun v row hv => ?_, ?_⟩
    · -- a term without leader has committed nothing
      obtain ⟨d, lc, hrec⟩ := hI.commit hk
      exact absurd (hnone.symm.trans hrec.lead) (by simp)
    · exact absurd hv (by
        simp [ProgressSet.get, show (default : ProgressSet).index.slot v = none from rfl])
    · intro q p e e' _ _ _ hp _ _ ht
      exact absurd (hI.cand_lt hcand.cand e' (List.mem_of_getElem? hp)) (by
        show ¬ e'.term < n.currentTerm
        have : e'.term = n.currentTerm := ht
        omega)

include hI h in
theorem NodeOk.leaderState (hr : n.role = .candidate) (hq : n.hasEffectiveQuorum n.election.votes) :
    ∃ s', (raftScheme initial).Steps i s s' ∧ NodeOk initial i s' n.leaderState := by
  obtain ⟨s₁, hs₁, hlog₁, h₁⟩ := h.elect hI hr hq
  have hI₁ := (hI.steps hs₁).1
  obtain ⟨s₂, hs₂, h₂⟩ := h₁.append hI₁ rfl (e := { term := n.currentTerm, kind := .noop })
    (NodeOk.appendable_of_not_configuration rfl rfl)
  have hI₂ := (hI₁.steps hs₂).1
  obtain ⟨d, hd, hn, hdlog⟩ := h₂.exists_lead hI₂ rfl
  obtain ⟨s₃, hs₃, hlog₃, -, h₃, hack⟩ := h₂.ack hI₂ hd (j := (s₂.log i).length)
    (by rw [hdlog]) (by rw [hdlog, List.take_length])
  refine ⟨s₃, (hs₁.trans hs₂).trans hs₃, ?_⟩
  have hlast := h₃.rep.lastLogIndex_eq
  have hid : n.id = i := h.id
  refine (h₃.setProgress (p := ProgressSet.reset n.leaderState.effectiveMembership n.id
    n.leaderState.lastLogIndex n.leaderState.lastLogIndex) rfl fun v row hv => ?_).congr rfl
  rw [ProgressSet.get_reset] at hv
  obtain ⟨-, hv⟩ := Option.ite_none_right_eq_some.1 hv
  obtain rfl := Option.some_inj.1 hv
  split_ifs with hv'
  · have hvi : v = i := hv'.trans hid
    subst hvi
    refine ⟨hlast.le, .inr ⟨_, ?_, hack⟩⟩
    exact hlast.le.trans (by rw [hlog₃])
  · exact ⟨Nat.zero_le _, .inl rfl⟩

include hI h in
theorem NodeOk.becomeLeader (hr : n.role = .candidate)
    (hq : n.hasEffectiveQuorum n.election.votes) : Reaches initial i s n.becomeLeader := by
  obtain ⟨s', hs, h'⟩ := h.leaderState hI hr hq
  exact .of_steps hs (h'.advanceCommitIndex (hI.steps hs).1)

end Rafter
