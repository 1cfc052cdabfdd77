import Rafter.Cluster.Basic
import Rafter.Refinement.Represents

/-!
# The refinement relation

How one node and one output of a node stand to a state of the abstract protocol. The abstract
state holds the full log of every node, so that of node `i` is the log `NodeOk` speaks about.

Results:

* `NodeOk.frame`: the actions of another node do not disturb a node;
* `OutputOk.mono`: what an output says stays true as the history grows;
* `Reaches.andThen`: transitions compose.
-/

namespace Rafter

variable {e : LogEntry} {k t : ℕ} {l : List LogEntry} {i : NodeId}

open Protocol

/-- A state of the abstract protocol over raft entries. -/
abbrev Ghost := State NodeId LogEntry

theorem take_eq_of_isPrefix {α : Type*} {l m : List α} (h : l <+: m) (hk : k ≤ l.length) :
    m.take k = l.take k := by
  obtain ⟨r, rfl⟩ := h
  exact List.take_append_of_le_length hk

theorem getElem?_of_isPrefix {α : Type*} {l m : List α} (h : l <+: m) {a : α}
    (ha : l[k]? = some a) :
    m[k]? = some a := by
  obtain ⟨r, rfl⟩ := h
  rw [List.getElem?_append_left (List.getElem?_eq_some_iff.1 ha).1, ha]

/-! ## Committed prefixes -/

/-- The entries are a prefix of what was committed in a term up to `t`. -/
def CommittedPrefix (s : Ghost) (t : ℕ) (l : List LogEntry) : Prop :=
  l = [] ∨ ∃ t' i, t' ≤ t ∧ s.commits t' i ∧ l <+: s.pre t' i

/-- The entry at an index was committed. -/
def CommittedEntry (s : Ghost) (index : ℕ) (e : LogEntry) : Prop :=
  0 < index ∧ ∃ t i, s.commits t i ∧ (s.pre t i)[index - 1]? = some e

variable {initial : MembershipConfig} {s s' : Ghost}
variable (hI : (raftScheme initial).Inv s) (he : Extends s s')

theorem CommittedPrefix.of_isPrefix {m : List LogEntry} (h : CommittedPrefix s t m) (hp : l <+: m) :
    CommittedPrefix s t l := by
  rcases h with rfl | ⟨t', i, ht, hc, hm⟩
  · exact .inl (List.prefix_nil.1 hp)
  · exact .inr ⟨t', i, ht, hc, hp.trans hm⟩

include hI he in
theorem CommittedPrefix.mono {t' : ℕ}
    (ht : t ≤ t') (h : CommittedPrefix s t l) : CommittedPrefix s' t' l := by
  rcases h with rfl | ⟨u, i, hu, hc, hp⟩
  · exact .inl rfl
  · exact .inr ⟨u, i, hu.trans ht, he.commits hc, by rwa [he.pre (hI.commit_le hc)]⟩

/-- What was committed up to a term is in the log of that term's leader. -/
theorem CommittedPrefix.prefix_lead (hI : (raftScheme initial).Inv s)
    {d : Leadership NodeId LogEntry} (h : CommittedPrefix s t l) (hd : s.lead t = some d) :
    l <+: d.log := by
  rcases h with rfl | ⟨u, i, hu, hc, hp⟩
  · exact List.nil_prefix
  · rcases hu.lt_or_eq with hlt | rfl
    · exact (hp.trans (hI.complete_lead hc hlt hd)).trans (hI.lead hd).base
    · rw [State.pre_eq hd] at hp
      exact hp.trans (List.take_prefix ..)

theorem CommittedPrefix.entry (h : CommittedPrefix s t l) (hk : 0 < k) (he : l[k - 1]? = some e) :
    CommittedEntry s k e := by
  rcases h with rfl | ⟨u, i, -, hc, hp⟩
  · simp at he
  · exact ⟨hk, u, i, hc, getElem?_of_isPrefix hp he⟩

include hI he in
theorem CommittedEntry.mono (h : CommittedEntry s k e) : CommittedEntry s' k e := by
  obtain ⟨hk, t, i, hc, hat⟩ := h
  exact ⟨hk, t, i, he.commits hc, by rwa [he.pre (hI.commit_le hc)]⟩

/-- One index has one committed entry. -/
theorem CommittedEntry.unique (hI : (raftScheme initial).Inv s) {e' : LogEntry}
    (h : CommittedEntry s k e) (h' : CommittedEntry s k e') : e = e' := by
  obtain ⟨-, t, i, hc, hat⟩ := h
  obtain ⟨-, t', i', hc', hat'⟩ := h'
  rcases hI.commits_comparable hc hc' with hp | hp
  · exact Option.some_inj.1 ((getElem?_of_isPrefix hp hat).symm.trans hat')
  · exact Option.some_inj.1 (hat.symm.trans (getElem?_of_isPrefix hp hat'))

/-! ## Outputs -/

/-- Below `j`, a configuration of the leader's own term is preceded only by configurations up to
index `c`. -/
def Disciplined (g : List LogEntry) (t j c : ℕ) : Prop :=
  ∀ q p e e', q < p → p < j → g[q]? = some e → g[p]? = some e' → e.isConfiguration →
    e'.isConfiguration → e'.term = t → q < c

/-- The entries of a frame are a slice of its leader's log. -/
structure FrameOk (s : Ghost) (l : List LogEntry) (m : AppendEntries) : Prop where
  le : m.prevLogIndex + m.entries.length ≤ l.length
  prev : termOf l m.prevLogIndex = some m.prevLogTerm
  entries : m.entries = (l.drop m.prevLogIndex).take m.entries.length
  commit_le : m.leaderCommit ≤ l.length
  commit : CommittedPrefix s m.term (l.take m.leaderCommit)
  discipline : Disciplined l m.term (m.prevLogIndex + m.entries.length) m.leaderCommit

/-- A frame of the leader of its term. A leader that compacted past the previous index sends term
zero there, which no log has above index zero. -/
def AppendOk (i : NodeId) (s : Ghost) (m : AppendEntries) : Prop :=
  ∃ d, s.lead m.term = some d ∧ d.node = i ∧
    (m.prevLogTerm = 0 ∧ 0 < m.prevLogIndex ∨ FrameOk s d.log m)

/-- A chunk directive of the leader of its term for a snapshot of its committed log. -/
structure ChunkOk (initial : MembershipConfig) (i : NodeId) (s : Ghost) (c : SnapshotChunkSend) :
    Prop where
  leader : c.leaderId = i
  describes : ∃ d, s.lead c.term = some d ∧ d.node = i ∧
    SnapshotDescribes initial d.log c.metadata ∧
    CommittedPrefix s c.term (d.log.take c.metadata.lastIncludedIndex)
  hardState : c.metadata.hardStateTerm ≤ c.term
  total_le : c.totalPayloadLen ≤ u64Max
  transferId : c.transferId =
    snapshotTransferIdFromParts c.metadata c.totalPayloadLen c.applicationPayloadCrc32
  bounds : c.offset + c.len ≤ c.totalPayloadLen
  done_iff : c.done = decide (c.offset + c.len = c.totalPayloadLen)
  len_pos : c.done = false → 0 < c.len

/-- What a message from `i` to `r` says is true. -/
def MessageOk (initial : MembershipConfig) (i : NodeId) (s : Ghost) (r : NodeId) :
    Message → Prop
  | .appendEntries m => AppendOk i s m
  | .appendEntriesResponse m => m.success → s.acks i m.term m.matchIndex
  | .installSnapshot _ => False
  | .installSnapshotChunk m => ∃ c bytes, ChunkOk initial i s c ∧ c.resolve bytes = some m
  | .installSnapshotResponse m => m.success → s.acks i m.term m.lastIncludedIndex
  | .requestVote m => ∃ y, s.cand m.term i = some y ∧ y.length = m.lastLogIndex ∧
      (raftScheme initial).lastTerm y = m.lastLogTerm
  | .requestVoteResponse m => m.voteGranted → s.votes i m.term r
  | .preVote _ | .preVoteResponse _ | .timeoutNow _ => True

/-- What an output of `i` says is true. -/
def OutputOk (initial : MembershipConfig) (i : NodeId) (s : Ghost) : Output → Prop
  | .send r m => MessageOk initial i s r m
  | .sendSnapshotChunk _ c => ChunkOk initial i s c
  | .apply index term payload _ => CommittedEntry s index ⟨term, .application payload⟩
  | .configurationCommitted index term _ c => CommittedEntry s index ⟨term, .configuration c⟩
  | _ => True

theorem Disciplined.of_isPrefix {g g' : List LogEntry} {j c : ℕ} (h : Disciplined g t j c)
    (hp : g <+: g') (hj : j ≤ g.length) : Disciplined g' t j c := by
  intro q p e e' hqp hpj hq hp'
  have hback : ∀ {k : ℕ} {a : LogEntry}, k < j → g'[k]? = some a → g[k]? = some a := by
    intro k a hk ha
    obtain ⟨r, rfl⟩ := hp
    rwa [List.getElem?_append_left (by omega)] at ha
  exact h q p e e' hqp hpj (hback (by omega) hq) (hback hpj hp')

theorem termOf_of_isPrefix {m : List LogEntry} (h : l <+: m) (ht : termOf l k = some t) :
    termOf m k = some t := by
  rw [← ht]
  have hk := le_of_termOf_eq_some ht
  exact termOf_eq_of_take_eq (take_eq_of_isPrefix h hk) le_rfl

include hI he in
theorem FrameOk.mono {l' : List LogEntry}
    (hl : l <+: l') {m : AppendEntries} (h : FrameOk s l m) : FrameOk s' l' m where
  le := h.le.trans hl.length_le
  prev := termOf_of_isPrefix hl h.prev
  entries := by
    have hle := h.le
    conv_lhs => rw [h.entries]
    obtain ⟨r, rfl⟩ := hl
    rw [List.drop_append_of_le_length (by omega), List.take_append_of_le_length (by simp; omega)]
  commit_le := h.commit_le.trans hl.length_le
  commit := by
    rw [take_eq_of_isPrefix hl h.commit_le]
    exact h.commit.mono hI he le_rfl
  discipline := h.discipline.of_isPrefix hl h.le

include hI he in
theorem AppendOk.mono {m : AppendEntries} (h : AppendOk i s m) : AppendOk i s' m := by
  obtain ⟨d, hd, hn, hm⟩ := h
  obtain ⟨d', hd', hn', -, -, hlog⟩ := he.lead hd
  exact ⟨d', hd', hn'.trans hn, hm.imp_right fun hf => hf.mono hI he hlog⟩

include hI he in
theorem ChunkOk.mono {c : SnapshotChunkSend}
    (h : ChunkOk initial i s c) : ChunkOk initial i s' c where
  leader := h.leader
  describes := by
    obtain ⟨d, hd, hn, hdesc, hcp⟩ := h.describes
    obtain ⟨d', hd', hn', -, -, hlog⟩ := he.lead hd
    have htake := take_eq_of_isPrefix hlog hdesc.le
    refine ⟨d', hd', hn'.trans hn, hdesc.of_take (hdesc.le.trans hlog.length_le) htake.symm, ?_⟩
    rw [htake]
    exact hcp.mono hI he le_rfl
  hardState := h.hardState
  total_le := h.total_le
  transferId := h.transferId
  bounds := h.bounds
  done_iff := h.done_iff
  len_pos := h.len_pos

include hI he in
theorem MessageOk.mono {r : NodeId}
    {m : Message} (h : MessageOk initial i s r m) : MessageOk initial i s' r m := by
  cases m with
  | appendEntries m => exact AppendOk.mono hI he h
  | appendEntriesResponse | installSnapshotResponse => exact fun hs => he.acks (h hs)
  | installSnapshot m => exact h
  | installSnapshotChunk m =>
    obtain ⟨c, bytes, hc, hr⟩ := h
    exact ⟨c, bytes, hc.mono hI he, hr⟩
  | requestVote m =>
    obtain ⟨y, hy, hrest⟩ := h
    exact ⟨y, he.cand hy, hrest⟩
  | requestVoteResponse m => exact fun hs => he.votes (h hs)
  | preVote m => trivial
  | preVoteResponse m => trivial
  | timeoutNow m => trivial

include hI he in
theorem OutputOk.mono {o : Output} (h : OutputOk initial i s o) : OutputOk initial i s' o := by
  cases o with
  | send r m => exact MessageOk.mono hI he h
  | sendSnapshotChunk r c => exact ChunkOk.mono hI he h
  | apply | configurationCommitted => exact CommittedEntry.mono hI he h
  | _ => trivial

/-! ## Inputs -/

/-- What an input must satisfy: a peer message is true, and the raw proposal is not used. -/
def InputOk (initial : MembershipConfig) (i : NodeId) (s : Ghost) : Input → Prop
  | .message sender message => MessageOk initial sender s i message
  | input => input.isLocal

include hI he in
theorem InputOk.mono {input : Input}
    (h : InputOk initial i s input) : InputOk initial i s' input := by
  cases input with
  | message sender message => exact MessageOk.mono hI he h
  | _ => exact h

/-! ## Nodes -/

/-- What holds of the leader of a term. -/
structure LeaderOk (i : NodeId) (s : Ghost) (n : Node) : Prop where
  lead : ∃ d, s.lead n.currentTerm = some d ∧ d.node = i
  commits : ∀ k, s.commits n.currentTerm k → k ≤ n.commitIndex
  rows : ∀ v row, n.leader.progress.get v = some row → row.matchIndex ≤ (s.log i).length ∧
    (row.matchIndex = 0 ∨ ∃ j, row.matchIndex ≤ j ∧ s.acks v n.currentTerm j)
  discipline : Disciplined (s.log i) n.currentTerm (s.log i).length n.commitIndex

/-- The campaign and the votes of a candidate are in the history. -/
structure CandidateOk (i : NodeId) (s : Ghost) (n : Node) : Prop where
  cand : s.cand n.currentTerm i = some (s.log i)
  votes : ∀ v ∈ n.election.votes, s.votes v n.currentTerm i
  lead : ∀ d, s.lead n.currentTerm = some d → d.node ≠ i

/-- The node agrees with the history. -/
structure NodeOk (initial : MembershipConfig) (i : NodeId) (s : Ghost) (n : Node) : Prop where
  id : n.config.id = i
  term : s.term i = n.currentTerm
  rep : Represents initial n (s.log i)
  commit : CommittedPrefix s n.currentTerm ((s.log i).take n.commitIndex)
  vote : ∀ c, s.votes i n.currentTerm c → n.persistent.votedFor = some c
  candidate : n.role = .candidate → CandidateOk i s n
  leader : n.role = .leader → LeaderOk i s n
  progress : n.role ≠ .leader → n.leader.progress = default

include hI he in
/-- The actions of node `i` do not disturb node `j`. -/
theorem NodeOk.frame {j : NodeId}
    (hf : Scheme.Frame i s s') (hij : j ≠ i) {n : Node} (h : NodeOk initial j s n) :
    NodeOk initial j s' n where
  id := h.id
  term := (hf.term j hij).trans h.term
  rep := by rw [hf.log j hij]; exact h.rep
  commit := by rw [hf.log j hij]; exact h.commit.mono hI he le_rfl
  vote c hv := h.vote c (hf.votes j _ c hij hv)
  candidate hr := by
    obtain ⟨hc, hv, hl⟩ := h.candidate hr
    refine ⟨by rw [hf.cand _ j hij, hf.log j hij, hc], fun v hm => he.votes (hv v hm), ?_⟩
    intro d hd hdn
    exact hl d (hf.lead hd (by rw [hdn]; exact hij)) hdn
  leader hr := by
    obtain ⟨⟨d, hd, hdn⟩, hc, hrows, hdisc⟩ := h.leader hr
    obtain ⟨d', hd', hn', -⟩ := he.lead hd
    refine ⟨⟨d', hd', hn'.trans hdn⟩, ?_, ?_, ?_⟩
    · intro k hk
      rcases hf.commits hk with hk | ⟨d'', hd'', hn''⟩
      · exact hc k hk
      · obtain rfl := Option.some_inj.1 (hd'.symm.trans hd'')
        exact absurd (hdn.symm.trans (hn'.symm.trans hn'')) hij
    · intro v row hv
      obtain ⟨hle, hack⟩ := hrows v row hv
      rw [hf.log j hij]
      exact ⟨hle, hack.imp_right fun ⟨k, hk, ha⟩ => ⟨k, hk, he.acks ha⟩⟩
    · rw [hf.log j hij]
      exact hdisc
  progress := h.progress

/-! ## Transitions -/

/-- Some actions of node `i` lead to a state that its node and outputs agree with. -/
def Reaches (initial : MembershipConfig) (i : NodeId) (s : Ghost) (o : Outcome) : Prop :=
  ∃ s', (raftScheme initial).Steps i s s' ∧ NodeOk initial i s' o.node ∧
    ∀ x ∈ o.outputs, OutputOk initial i s' x

theorem Reaches.of_node {n : Node} (h : NodeOk initial i s n) {outputs : List Output}
    (ho : ∀ x ∈ outputs, OutputOk initial i s x) :
    Reaches initial i s { node := n, outputs := outputs } :=
  ⟨s, .refl, h, ho⟩

theorem Reaches.of_steps {o : Outcome} (hs : (raftScheme initial).Steps i s s')
    (h : Reaches initial i s' o) : Reaches initial i s o := by
  obtain ⟨s'', hs', h⟩ := h
  exact ⟨s'', hs.trans hs', h⟩

theorem Reaches.andThen {o : Outcome} {f : Node → Outcome} (hI : (raftScheme initial).Inv s)
    (ho : Reaches initial i s o)
    (hf : ∀ s', (raftScheme initial).Inv s' → Extends s s' → NodeOk initial i s' o.node →
      Reaches initial i s' (f o.node)) :
    Reaches initial i s (o.andThen f) := by
  obtain ⟨s₁, hs₁, hn₁, ho₁⟩ := ho
  obtain ⟨hI₁, he₁, -⟩ := hI.steps hs₁
  obtain ⟨s₂, hs₂, hn₂, ho₂⟩ := hf s₁ hI₁ he₁ hn₁
  obtain ⟨-, he₂, -⟩ := hI₁.steps hs₂
  refine ⟨s₂, hs₁.trans hs₂, hn₂, fun x hx => ?_⟩
  rcases List.mem_append.1 hx with hx | hx
  · exact (ho₁ x hx).mono hI₁ he₂
  · exact ho₂ x hx

end Rafter
