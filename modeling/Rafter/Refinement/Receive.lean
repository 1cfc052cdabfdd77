import Rafter.Node.Receive
import Rafter.Refinement.Lifecycle

/-!
# Receiving entries refines the protocol

The functions of `Node/Receive.lean`. A frame of the leader of the node's term whose previous
entry matches is spliced: the node's log up to the frame's end becomes the leader's, which is the
protocol's `adopt`, and the node acknowledges it.

Results:

* `NodeOk.spliceEntriesAfter`: the splice of a genuine frame succeeds, with the overlap check of
  uncommitted configurations never in its way, and leaves the leader's log;
* `NodeOk.appendAsFollower`.
-/

namespace Rafter

open Protocol

variable {initial : MembershipConfig} {s : Ghost} {i : NodeId} {n : Node}
variable {e : LogEntry} {entries g l rest : List LogEntry} {j k t : ℕ}
  {d : Leadership NodeId LogEntry} {m : AppendEntries}
variable (hI : (raftScheme initial).Inv s) (h : NodeOk initial i s n)

/-! ## Terms of full logs -/

/-- Every entry of a log has the positive term of some leader. -/
theorem term_pos_of_validLog (hI : (raftScheme initial).Inv s)
    (hl : (raftScheme initial).ValidLog s l) (he : e ∈ l) : 0 < e.term := by
  obtain ⟨k, hk⟩ := List.getElem?_of_mem he
  obtain ⟨d, hd, -⟩ := hl k e hk
  exact hI.cand_pos (hI.lead hd).cand

/-- Term zero is found at index zero only. -/
theorem eq_zero_of_termOf_eq_zero (hI : (raftScheme initial).Inv s)
    (hl : (raftScheme initial).ValidLog s l) (h : termOf l k = some 0) : k = 0 := by
  rcases k with _ | k
  · rfl
  · rw [termOf_succ, Option.map_eq_some_iff] at h
    obtain ⟨e, he, ht⟩ := h
    have := term_pos_of_validLog hI hl (List.mem_of_getElem? he)
    omega

/-- Logs with one term at an index agree up to it. -/
theorem take_eq_of_termOf_eq {m : List LogEntry} (hl : (raftScheme initial).ValidLog s l)
    (hm : (raftScheme initial).ValidLog s m) (hlk : termOf l k = some t)
    (hmk : termOf m k = some t) :
    l.take k = m.take k := by
  rcases k with _ | k
  · simp
  · rw [termOf_succ, Option.map_eq_some_iff] at hlk hmk
    obtain ⟨e, he, ht⟩ := hlk
    obtain ⟨e', he', ht'⟩ := hmk
    exact Scheme.Inv.take_eq_of_term_eq hl hm he he' (ht.trans ht'.symm)

/-! ## Finding the divergence -/

/-- The slice of `l` from index `k + 1` on that a frame carries. -/
structure Slice (l entries : List LogEntry) (k : ℕ) : Prop where
  le : k + entries.length ≤ l.length
  eq : entries = (l.drop k).take entries.length

theorem Slice.head (h : Slice l (e :: rest) k) : l[k]? = some e := by
  have := congrArg (·[0]?) h.eq
  simpa using this.symm

theorem Slice.tail (h : Slice l (e :: rest) k) : Slice l rest (k + 1) := by
  refine ⟨by have := h.le; simp only [List.length_cons] at this; omega, ?_⟩
  have hd : l.drop k = e :: l.drop (k + 1) := by
    have hlt := (List.getElem?_eq_some_iff.1 h.head).1
    rw [List.drop_eq_getElem_cons hlt, (List.getElem?_eq_some_iff.1 h.head).2]
  have := h.eq
  rw [hd, List.length_cons, List.take_succ_cons] at this
  exact (List.cons.inj this).2

/-- A slice after the part before it is the log up to its end. -/
theorem Slice.append (h : Slice l entries k) :
    l.take k ++ entries = l.take (k + entries.length) := by
  rw [List.take_add, ← h.eq]

theorem Slice.getElem? (h : Slice l entries k) (he : entries[j]? = some e) :
    l[k + j]? = some e := by
  have hj := (List.getElem?_eq_some_iff.1 he).1
  rw [h.eq, List.getElem?_take_of_lt hj, List.getElem?_drop] at he
  exact he

/-- Where the local log leaves the leader's: nowhere in the batch, or from some index above the
commit index on. By induction on the batch; so far the logs agree. -/
theorem findDivergence_spec (h : Represents initial n g) (hvg : (raftScheme initial).ValidLog s g)
    (hvl : (raftScheme initial).ValidLog s l) (hcommit : g.take n.commitIndex <+: l)
    (hs : n.snapshotIndex ≤ k) (hslice : Slice l entries k) (hagree : g.take k = l.take k)
    (hk : k ≤ g.length) :
    (n.findDivergence entries (k + 1) = .ok none ∧
      g.take (k + entries.length) = l.take (k + entries.length)) ∨
    ∃ rest f, n.findDivergence entries (k + 1) = .ok (some (rest, f + 1)) ∧ k ≤ f ∧
      Slice l rest f ∧ f + rest.length = k + entries.length ∧ g.take f = l.take f ∧
      n.commitIndex ≤ f ∧ f ≤ g.length ∧ ¬ l.take (f + rest.length) <+: g := by
  induction entries generalizing k with
  | nil => exact .inl ⟨rfl, by simpa using hagree⟩
  | cons e rest ih =>
    have hhead := hslice.head
    have hnotPrefix : ∀ (_ : g[k]? ≠ some e), ¬ l.take (k + (e :: rest).length) <+: g := by
      intro hne hp
      refine hne (getElem?_of_isPrefix hp ?_)
      rw [List.getElem?_take_of_lt (by simp), hhead]
    have htermAt : n.termAt (k + 1) = g[k]?.map (·.term) := by
      rw [h.termAt_eq (by omega), termOf_succ]
    rw [Node.findDivergence, htermAt]
    cases hgk : g[k]? with
    | none =>
      right
      refine ⟨e :: rest, k, rfl, le_rfl, hslice, rfl, hagree, ?_, hk, hnotPrefix (by simp [hgk])⟩
      have := List.getElem?_eq_none_iff.1 hgk
      exact h.commit_le.trans this
    | some a =>
      simp only [Option.map_some]
      by_cases hterm : a.term = e.term
      · -- equal terms: the entries are equal and the search goes on
        have hae : g.take (k + 1) = l.take (k + 1) :=
          Scheme.Inv.take_eq_of_term_eq hvg hvl hgk hhead hterm
        rw [if_pos hterm]
        have hlen := (List.getElem?_eq_some_iff.1 hgk).1
        rcases ih (by omega) hslice.tail hae hlen with ⟨hnone, heq⟩ | ⟨r, f, hf, hkf, hrest⟩
        · refine .inl ⟨hnone, ?_⟩
          rwa [List.length_cons, show k + (rest.length + 1) = k + 1 + rest.length by omega]
        · refine .inr ⟨r, f, hf, by omega, hrest.1, ?_, hrest.2.2⟩
          rw [hrest.2.1, List.length_cons]
          omega
      · -- different terms: not within what is committed, which the leader has
        have hcle : ¬ k + 1 ≤ n.commitIndex := by
          intro hle
          have hgl : (g.take n.commitIndex)[k]? = some a := by
            rw [List.getElem?_take_of_lt (by omega), hgk]
          have := getElem?_of_isPrefix hcommit hgl
          rw [hhead] at this
          exact hterm (congrArg LogEntry.term (Option.some_inj.1 this)).symm
        rw [if_neg hterm, if_neg hcle]
        right
        refine ⟨e :: rest, k, rfl, le_rfl, hslice, rfl, hagree, by omega, hk,
          hnotPrefix fun hne => hterm ?_⟩
        rw [hgk] at hne
        rw [Option.some_inj.1 hne]

/-! ## The overlap check -/

theorem incomingConfigurations_eq (entries : List LogEntry) (first floor : ℕ) :
    Node.incomingConfigurations entries first floor =
      ((entries.zipIdx first).filter fun x => floor < x.2 ∧ x.1.isConfiguration).map (·.1) := by
  unfold Node.incomingConfigurations
  induction entries.zipIdx first with
  | nil => rfl
  | cons x xs ih =>
    by_cases hx : floor < x.2 ∧ x.1.isConfiguration <;> simp_all

/-- After a frame's divergence at most one configuration above the floor counts, if one of them is
of the leader's term: the discipline of the leader puts the others below its commit index. -/
theorem not_overlapping {f c : ℕ} (floor : ℕ) (h : Represents initial n g) (hslice : Slice l rest f)
    (hagree : g.take f = l.take f) (hdisc : Disciplined l t (f + rest.length) c)
    (hfloor : min c (f + rest.length) ≤ floor)
    (hlater : ∀ (p q : ℕ) (e e' : LogEntry), p < q → l[p]? = some e → l[q]? = some e' → e.term = t →
      e'.term = t) :
    ((Node.incomingConfigurations rest (f + 1) floor).any (·.term = t) &&
      decide (1 < n.configuration.countBetween (n.snapshotIndex + 1) floor (f + 1) +
        (Node.incomingConfigurations rest (f + 1) floor).length)) = false := by
  rw [incomingConfigurations_eq]
  set inc := (rest.zipIdx (f + 1)).filter fun x => floor < x.2 ∧ x.1.isConfiguration with hinc
  -- what an element of the incoming list is
  have hmem : ∀ x ∈ inc, ∃ p, x.2 = p + 1 ∧ f ≤ p ∧ p < f + rest.length ∧ floor ≤ p ∧
      l[p]? = some x.1 ∧ x.1.isConfiguration := by
    rintro ⟨e, j⟩ hx
    obtain ⟨hz, hcond⟩ := List.mem_filter.1 hx
    obtain ⟨hjle, hat⟩ := List.mk_mem_zipIdx_iff_le_and_getElem?_sub.1 hz
    simp only [decide_eq_true_eq] at hcond
    have hlt := (List.getElem?_eq_some_iff.1 hat).1
    refine ⟨j - 1, by simp only; omega, by omega, by omega, by omega, ?_, hcond.2⟩
    have := hslice.getElem? hat
    rwa [show f + (j - (f + 1)) = j - 1 by omega] at this
  -- a configuration above the floor is not before one of the leader's term
  have hcontra : ∀ (q p : ℕ) (e e' : LogEntry), q < p → p < f + rest.length → floor ≤ q →
    l[q]? = some e →
      l[p]? = some e' → e.isConfiguration → e'.isConfiguration → e'.term = t → False := by
    intro q p e e' hqp hp hq he he' hce hce' hte
    have := hdisc q p e e' hqp hp he he' hce hce' hte
    omega
  rw [Bool.and_eq_false_iff]
  by_contra hcon
  push Not at hcon
  obtain ⟨hany, hcount⟩ := hcon
  rw [ne_eq, Bool.not_eq_false, List.any_eq_true] at hany
  obtain ⟨e, he, hte⟩ := hany
  obtain ⟨x, hx, rfl⟩ := List.mem_map.1 he
  obtain ⟨p, -, hfp, hplt, hpf, hlp, hcp⟩ := hmem x hx
  have htx : x.1.term = t := by simpa using hte
  have hsurviving : n.configuration.countBetween (n.snapshotIndex + 1) floor (f + 1) = 0 := by
    rw [ConfigurationIndex.countBetween, List.length_eq_zero_iff, List.filter_eq_nil_iff]
    intro j hj hcond
    obtain ⟨o, ho, rfl⟩ := List.mem_map.1 hj
    rw [h.index, ConfigurationIndex.mem_fromLog] at ho
    obtain ⟨a, ha, hca⟩ := ho
    simp only [Bool.and_eq_true, decide_eq_true_eq] at hcond
    rw [h.log, List.getElem?_drop] at ha
    have hla : l[n.snapshotIndex + o]? = some a := by
      have hlt : n.snapshotIndex + o < f := by omega
      rw [← List.getElem?_take_of_lt hlt, ← hagree, List.getElem?_take_of_lt hlt, ha]
    exact hcontra _ p a x.1 (by omega) hplt (by omega) hla hlp hca hcp htx
  have hincoming : inc.length ≤ 1 := by
    have hsorted : inc.Pairwise fun x y => x.2 < y.2 := by
      refine List.Pairwise.filter _ ?_
      rw [List.pairwise_iff_getElem]
      intro a b ha hb hab
      simpa using hab
    rcases hcase : inc with _ | ⟨y, _ | ⟨z, r⟩⟩
    · simp
    · simp
    · exfalso
      rw [hcase] at hsorted
      have hyz : y.2 < z.2 := (List.pairwise_cons.1 hsorted).1 z (by simp)
      obtain ⟨py, hpy, -, -, hfy, hly, hcy⟩ := hmem y (by rw [hcase]; simp)
      obtain ⟨pz, hpz, -, hzlt, hfz, hlz, hcz⟩ := hmem z (by rw [hcase]; simp)
      rcases lt_trichotomy pz p with hlt | rfl | hgt
      · exact hcontra pz p z.1 x.1 hlt hplt hfz hlz hlp hcz hcp htx
      · obtain hzx := Option.some_inj.1 (hlz.symm.trans hlp)
        exact hcontra py pz y.1 z.1 (by omega) hzlt hfy hly hlz hcy hcz (hzx ▸ htx)
      · exact hcontra py pz y.1 z.1 (by omega) hzlt hfy hly hlz hcy hcz
          (hlater p pz x.1 z.1 hgt hlp hlz htx)
  have : 1 < 0 + inc.length := by simpa [hsurviving] using hcount
  omega

/-! ## The splice -/

theorem Represents.foldl_append (h : Represents initial n g) (entries : List LogEntry) :
    Represents initial (entries.foldl Node.appendLogEntry n) (g ++ entries) := by
  induction entries generalizing n g with
  | nil => simpa using h
  | cons e rest ih => simpa using ih (h.append e)

/-- Appending entries touches the log and its index only. -/
theorem Node.foldl_appendLogEntry (n : Node) (entries : List LogEntry) :
    ∃ log configuration, entries.foldl Node.appendLogEntry n =
      { n with configuration := configuration, persistent.log := log } := by
  induction entries generalizing n with
  | nil => exact ⟨n.persistent.log, n.configuration, rfl⟩
  | cons e rest ih =>
    obtain ⟨log, configuration, h⟩ := ih (n.appendLogEntry e)
    exact ⟨log, configuration, by rw [List.foldl_cons, h]; rfl⟩

include hI h in
/-- Adopting the leader's log up to `j`, on a follower whose retained log already changed so. -/
theorem NodeOk.adopt {n' : Node}
    (hd : s.lead n.currentTerm = some d) (hr : n.role = .follower) (hp : ¬ d.log.take j <+: s.log i)
    (hcore : n'.core =
      { n.core with configuration := n'.configuration, persistent.log := n'.persistent.log })
    (hrep : Represents initial n' (d.log.take j)) :
    ∃ s', (raftScheme initial).Steps i s s' ∧ s'.log i = d.log.take j ∧ s'.lead = s.lead ∧
      NodeOk initial i s' n' := by
  have hstep := Scheme.Step.adopt (S := raftScheme initial) i n.currentTerm d j hd h.term hp
  have hex := hI.extends hstep
  have hlog : Function.update s.log i (d.log.take j) i = d.log.take j := by simp
  have hterm : n'.currentTerm = n.currentTerm := congrArg (fun m => m.persistent.currentTerm) hcore
  have hvote : n'.persistent.votedFor = n.persistent.votedFor :=
    congrArg (fun m => m.persistent.votedFor) hcore
  have hcommit : n'.commitIndex = n.commitIndex := congrArg (fun m => m.volatile.commitIndex) hcore
  have hrole : n'.role = n.role := congrArg (fun m => m.volatile.role) hcore
  have hprog : n'.leader.progress = n.leader.progress := congrArg (fun m => m.leader.progress) hcore
  have hid : n'.config = n.config := congrArg (fun m => m.config) hcore
  refine ⟨_, .single hstep, hlog, rfl, by rw [hid]; exact h.id, by rw [hterm]; exact h.term, ?_, ?_,
    by rw [hterm, hvote]; exact h.vote, fun hr' => ?_, fun hr' => ?_, fun _ => ?_⟩
  · simpa only [hlog] using hrep
  · -- the leader's log begins with what was committed here
    simp only [hlog]
    rw [hterm]
    have hle := hrep.commit_le
    rw [hcommit, List.length_take] at hle
    rw [hcommit, List.take_take, min_eq_left (by omega)]
    have hpre := h.commit.prefix_lead hI hd
    have hlen : ((s.log i).take n.commitIndex).length = n.commitIndex := by
      rw [List.length_take, min_eq_left h.rep.commit_le]
    have : d.log.take n.commitIndex = (s.log i).take n.commitIndex := by
      rw [List.prefix_iff_eq_take.1 hpre, hlen]
    rw [this]
    exact h.commit.mono hI hex le_rfl
  · rw [hrole, hr] at hr'
    exact absurd hr' (by simp)
  · rw [hrole, hr] at hr'
    exact absurd hr' (by simp)
  · rw [hprog]
    exact h.progress (by rw [hr]; simp)

/-- Within a leader's log what follows an entry of its term is of its term. -/
theorem term_eq_of_later (hI : (raftScheme initial).Inv s) (hd : s.lead t = some d) {p q : ℕ}
    {e' : LogEntry} (hpq : p < q) (he : d.log[p]? = some e) (he' : d.log[q]? = some e')
    (ht : e.term = t) : e'.term = t := by
  have hb := hI.base_le hd he ht
  refine (hI.lead hd).new e' (List.mem_of_getElem? (i := q - d.base.length) ?_)
  rw [List.getElem?_drop, Nat.add_sub_cancel' (by omega), he']

include hI h in
/-- The splice of a genuine frame whose previous entry matches succeeds. The node then holds the
leader's log up to the frame's end and acknowledges it. -/
theorem NodeOk.spliceEntriesAfter (hd : s.lead n.currentTerm = some d) (hr : n.role = .follower)
    (hm : m.term = n.currentTerm)
    (hf : FrameOk s d.log m) (hprev : n.termAt m.prevLogIndex = some m.prevLogTerm) {floor : ℕ}
    (hfloor : min m.leaderCommit (m.prevLogIndex + m.entries.length) ≤ floor) :
    ∃ spliced s', n.spliceEntriesAfter m.prevLogIndex m.entries floor = .ok spliced ∧
      spliced.node.currentTerm = n.currentTerm ∧ spliced.node.role = .follower ∧
      spliced.node.commitIndex = n.commitIndex ∧
      (raftScheme initial).Steps i s s' ∧ NodeOk initial i s' spliced.node ∧
      s'.acks i n.currentTerm (m.prevLogIndex + m.entries.length) ∧
      ∀ x ∈ spliced.outputs, OutputOk initial i s' x := by
  have hvg := hI.log_valid i
  have hvl := (hI.lead hd).valid
  have hgprev := h.rep.termOf_of_termAt hprev
  have hagree := take_eq_of_termOf_eq hvg hvl hgprev hf.prev
  have hs : n.snapshotIndex ≤ m.prevLogIndex := by
    by_contra hlt
    rw [Node.termAt_eq_none (by omega)] at hprev
    exact absurd hprev (by simp)
  unfold Node.spliceEntriesAfter Node.spliceFrom
  rcases findDivergence_spec h.rep hvg hvl (h.commit.prefix_lead hI hd) hs ⟨hf.le, hf.entries⟩
    hagree (le_of_termOf_eq_some hgprev) with ⟨hnone, heq⟩ | ⟨rest, f, hsome, -, hslice, hlen, hgf,
      hcf, hfg, hnp⟩
  · -- the whole batch is there already
    rw [hnone]
    have hp : d.log.take (m.prevLogIndex + m.entries.length) <+: s.log i := by
      rw [← heq]
      exact List.take_prefix ..
    obtain ⟨s', hs', -, -, h', hack⟩ := h.ack hI hd hf.le hp
    exact ⟨_, s', rfl, rfl, hr, rfl, hs', h', hack, by simp⟩
  · rw [hsome]
    dsimp only
    have hover := not_overlapping floor h.rep hslice hgf
      (t := n.currentTerm) (c := m.leaderCommit)
      (by rw [hlen, ← hm]; exact hf.discipline) (by rw [hlen]; exact hfloor)
      (fun p q e e' hpq he he' ht => term_eq_of_later hI hd hpq he he' ht)
    rw [if_neg (by rw [hover]; simp)]
    -- the truncated log is the shared part; the rest is appended
    set truncated : Outcome := if f + 1 ≤ n.lastLogIndex then
      n.truncateFrom (f + 1) .logOverwritten else { node := n, outputs := [] } with htr
    have hrep : Represents initial truncated.node ((s.log i).take f) := by
      rw [htr]
      split_ifs with hle
      · exact h.rep.truncateFrom (by omega) (by omega) _
      · rw [h.rep.lastLogIndex_eq] at hle
        rw [List.take_of_length_le (by omega)]
        exact h.rep
    have hout : ∀ s' : Ghost, ∀ x ∈ truncated.outputs, OutputOk initial i s' x := by
      intro s'
      rw [htr]
      split_ifs
      · exact outputOk_dropOutputs _ _
      · simp
    have htcore : ∃ log configuration, truncated.node.core =
        { n.core with configuration := configuration, persistent.log := log } := by
      rw [htr]
      split_ifs
      · exact ⟨_, _, rfl⟩
      · exact ⟨n.persistent.log, n.configuration, rfl⟩
    have hrep' := hrep.foldl_append rest
    rw [hgf, hslice.append] at hrep'
    obtain ⟨log, configuration, hfold⟩ := truncated.node.foldl_appendLogEntry rest
    obtain ⟨log', configuration', htc⟩ := htcore
    have hcore : (rest.foldl Node.appendLogEntry truncated.node).core = { n.core with
        configuration := (rest.foldl Node.appendLogEntry truncated.node).configuration
        persistent.log := (rest.foldl Node.appendLogEntry truncated.node).persistent.log } := by
      rw [hfold]
      have : ({ truncated.node with configuration := configuration, persistent.log := log } :
          Node).core = { truncated.node.core with
            configuration := configuration, persistent.log := log } := rfl
      rw [this, htc]
    obtain ⟨s₁, hs₁, hlog₁, hlead₁, h₁⟩ := h.adopt hI hd hr hnp hcore hrep'
    have hterm : (rest.foldl Node.appendLogEntry truncated.node).currentTerm = n.currentTerm :=
      congrArg (fun m => m.persistent.currentTerm) hcore
    have hrole : (rest.foldl Node.appendLogEntry truncated.node).role = n.role :=
      congrArg (fun m => m.volatile.role) hcore
    have hcommit : (rest.foldl Node.appendLogEntry truncated.node).commitIndex = n.commitIndex :=
      congrArg (fun m => m.volatile.commitIndex) hcore
    obtain ⟨s₂, hs₂, -, -, h₂, hack⟩ := h₁.ack (hI.steps hs₁).1
      (by rw [hterm, hlead₁]; exact hd) hf.le (by rw [hlog₁, hlen])
    rw [hterm] at hack
    exact ⟨_, s₂, rfl, hterm, hrole.trans hr, hcommit, hs₁.trans hs₂, h₂, hack, hout s₂⟩

/-! ## The whole request -/

theorem Node.adoptLeaderCommit_currentTerm (n : Node) (leaderCommit confirmed : ℕ) :
    (n.adoptLeaderCommit leaderCommit confirmed).node.currentTerm = n.currentTerm := by
  unfold Node.adoptLeaderCommit
  split_ifs
  · exact (Node.emitLoop_keeps _ _).term
  · rfl

/-- Raising the commit index to a committed index of the log. -/
theorem NodeOk.setCommit (h : NodeOk initial i s n) (hr : n.role = .follower) {c : ℕ}
    (hc : n.commitIndex ≤ c) (hle : c ≤ (s.log i).length)
    (hcp : CommittedPrefix s n.currentTerm ((s.log i).take c)) :
    NodeOk initial i s { n with volatile.commitIndex := c } where
  id := h.id
  term := h.term
  rep := h.rep.of_eq rfl rfl rfl rfl rfl le_rfl le_rfl (h.rep.dispatched_le.trans hc) hc hle
  commit := hcp
  vote := h.vote
  candidate hr' := absurd (hr.symm.trans hr') (by simp)
  leader hr' := absurd (hr.symm.trans hr') (by simp)
  progress := h.progress

include hI h in
/-- What a node acknowledged in its present term is in its log. -/
theorem NodeOk.prefix_of_ack (ha : s.acks i n.currentTerm j) : s.pre n.currentTerm j <+: s.log i :=
  hI.ack_log ha le_rfl fun w _ htw hw => by
    rw [h.term] at hw
    omega

include hI h in
theorem NodeOk.adoptLeaderCommit (hr : n.role = .follower) (hd : s.lead n.currentTerm = some d)
    (hm : m.term = n.currentTerm)
    (hf : FrameOk s d.log m) (hack : s.acks i n.currentTerm (m.prevLogIndex + m.entries.length)) :
    Reaches initial i s (n.adoptLeaderCommit m.leaderCommit
      (n.confirmedCommitIndex m (m.prevLogIndex + m.entries.length))) := by
  unfold Node.adoptLeaderCommit
  split_ifs with hlt
  · refine NodeOk.emitCommittedOutputs hI (h.setCommit hr (le_max_left _ _) ?_ ?_)
    all_goals
      set k := min m.leaderCommit (m.prevLogIndex + m.entries.length) with hk
      have hpre := h.prefix_of_ack hI hack
      rw [State.pre_eq hd] at hpre
      have hklog : k ≤ (s.log i).length := by
        have := hpre.length_le
        rw [List.length_take, min_eq_left hf.le] at this
        omega
    · exact max_le h.rep.commit_le hklog
    · rcases le_total n.commitIndex k with hle | hle
      · have htake : (s.log i).take k = d.log.take k := by
          rw [take_eq_of_isPrefix hpre (by rw [List.length_take, min_eq_left hf.le]; omega),
            List.take_take, min_eq_left (by omega)]
        rw [Node.confirmedCommitIndex, ← hk, max_eq_right hle, htake]
        have hcp := hf.commit
        rw [hm] at hcp
        exact hcp.of_isPrefix (List.take_prefix_take_left (by omega))
      · rw [Node.confirmedCommitIndex, ← hk, max_eq_left hle]
        exact h.commit
  · exact .of_node h (by simp)

include hI h in
/-- A frame whose previous entry the node reports is a slice of the leader's log. -/
theorem NodeOk.frameOk_of_termAt {j : NodeId} (hm : AppendOk j s m)
    (hprev : n.termAt m.prevLogIndex = some m.prevLogTerm) :
    ∃ d, s.lead m.term = some d ∧ FrameOk s d.log m := by
  obtain ⟨d, hd, -, ⟨h0, hpos⟩ | hf⟩ := hm
  · -- a compacted previous entry is sent with term zero, which the node cannot report
    rw [h0] at hprev
    have := eq_zero_of_termOf_eq_zero hI (hI.log_valid i) (h.rep.termOf_of_termAt hprev)
    omega
  · exact ⟨d, hd, hf⟩

theorem NodeOk.reject (h : NodeOk initial i s n) (r : NodeId) (sequence : ℕ) :
    Reaches initial i s { node := n, outputs := [n.rejectAppendEntries r sequence] } := by
  refine .of_node h fun x hx => ?_
  obtain rfl := List.mem_singleton.1 hx
  intro hs
  exact absurd hs (by simp)

include hI h in
theorem NodeOk.appendAsFollower (hr : n.role = .follower) {j r : NodeId}
    (ht : m.term = n.currentTerm) (hm : AppendOk j s m) :
    Reaches initial i s (n.appendAsFollower r m) := by
  unfold Node.appendAsFollower Node.appendAsFollowerBy
  dsimp only
  generalize hn' : ({ n with election.elapsed := 0, volatile.leaderHint := some r } : Node) = n'
  have h' : NodeOk initial i s n' := hn' ▸ h.congr rfl
  have hr' : n'.role = .follower := by rw [← hn']; exact hr
  have ht' : m.term = n'.currentTerm := by rw [← hn']; exact ht
  split_ifs with hprev
  · exact h'.reject r _
  rw [not_not] at hprev
  obtain ⟨d, hd, hf⟩ := h'.frameOk_of_termAt hI hm hprev
  rw [ht'] at hd
  have hfloor : min m.leaderCommit (m.prevLogIndex + m.entries.length) ≤
      n'.confirmedCommitIndex m (m.prevLogIndex + m.entries.length) := le_max_right _ _
  obtain ⟨spliced, s', hok, hterm, hrole, hcommit, hs, hn'', hack, hout⟩ :=
    h'.spliceEntriesAfter hI hd hr' ht' hf hprev hfloor
  unfold Node.requestMatchIndex
  rw [hok]
  have hI' := (hI.steps hs).1
  have hconf : n'.confirmedCommitIndex m (m.prevLogIndex + m.entries.length) =
      spliced.node.confirmedCommitIndex m (m.prevLogIndex + m.entries.length) := by
    rw [Node.confirmedCommitIndex, Node.confirmedCommitIndex, hcommit]
  rw [hconf]
  refine .of_steps hs ?_
  -- the lead of the term is the same one, with a longer log at most
  obtain ⟨d', hd', -, -, -, hlog⟩ := (hI.steps hs).2.1.lead hd
  have hf' := hf.mono hI (hI.steps hs).2.1 hlog
  refine ((Reaches.of_node hn'' hout).andThen hI' fun s₁ hI₁ he₁ h₁ => ?_).andThen hI'
    fun s₂ hI₂ he₂ h₂ => ?_
  · obtain ⟨d₁, hd₁, -, -, -, hlog₁⟩ := he₁.lead hd'
    exact h₁.adoptLeaderCommit hI₁ hrole (by rw [hterm]; exact hd₁) (ht'.trans hterm.symm)
      (hf'.mono hI' he₁ hlog₁) (by rw [hterm]; exact he₁.acks hack)
  · refine .of_node h₂ fun x hx => ?_
    obtain rfl := List.mem_singleton.1 hx
    intro _
    show s₂.acks i (Node.currentTerm _) _
    rw [Outcome.andThen_node, Node.adoptLeaderCommit_currentTerm, hterm]
    exact he₂.acks hack

/-- Adopting a message's term leaves a follower of that term. -/
theorem Node.adopt_term (n : Node) {term : ℕ} (ht : ¬ term < n.currentTerm) :
    let o : Outcome := if n.currentTerm < term ∨ n.role ≠ .follower then n.becomeFollower term
      else { node := n, outputs := [] }
    o.node.role = .follower ∧ o.node.currentTerm = term := by
  dsimp only
  split_ifs with hcase
  · exact ⟨rfl, max_eq_right (Nat.le_of_not_lt ht)⟩
  · push Not at hcase
    exact ⟨hcase.2, Nat.le_antisymm (Nat.le_of_not_lt ht) hcase.1⟩

include hI h in
theorem NodeOk.adopt_term (term : ℕ) : Reaches initial i s
    (if n.currentTerm < term ∨ n.role ≠ .follower then
      n.becomeFollower term else { node := n, outputs := [] }) := by
  split_ifs
  · exact h.becomeFollower hI term
  · exact .of_node h (by simp)

end Rafter
