import Rafter.Conduct.Rows

/-!
# Transitions made of acts

What one walk through the functions of a node establishes of each of them: the transition is a path
of deeds, and its frames come last. A deed is an act together with what the act leaves unsaid of the
term and the vote, the snapshot under reception and the outputs.

Results:

* `Node.Acts.andThen`: transitions compose, a part that sends frames last;
* `Node.Acts.bounded`: rows stay within the log, whatever the inputs;
* `Node.Acts.forward`: terms and votes only move forward;
* `Node.Acts.unstaged`: only snapshot messages touch the snapshot and its reception.
-/

namespace Rafter

open Protocol

/-! ## Outputs -/

/-- The frame an output carries, if it is one. -/
def Output.frame? : Output → Option AppendEntries
  | .send _ (.appendEntries frame) => some frame
  | _ => none

/-- The frames a transition emits. -/
def Outcome.frames (o : Outcome) : List AppendEntries := o.outputs.filterMap Output.frame?

theorem Outcome.frames_andThen (o : Outcome) (f : Node → Outcome) :
    (o.andThen f).frames = o.frames ++ (f o.node).frames :=
  List.filterMap_append

/-- The outputs that a runtime carries out on its snapshot store. -/
def Output.isStaging : Output → Bool
  | .stageSnapshotChunk _ | .applySnapshot _ => true
  | _ => false

/-- The input brings a part of a snapshot. -/
def Occasion.stages (c : Occasion) : Bool :=
  match c.input with
  | some (.message _ (.installSnapshot _)) | some (.message _ (.installSnapshotChunk _)) => true
  | _ => false

variable {c : Occasion} {x : Output}

theorem Occasion.replicates_of_stages (h : c.stages) :
    ∃ v m, c.input = some (.message v m) ∧ m.isReplication := by
  unfold stages at h
  split at h
  · rename_i v m hinput
    exact ⟨v, _, hinput, rfl⟩
  · rename_i v m hinput
    exact ⟨v, _, hinput, rfl⟩
  · cases h

/-- The input is a configuration that no command derived. -/
def Occasion.raw (c : Occasion) : Bool :=
  match c.input with
  | some (.dangerousRawConfigurationProposal _ _) => true
  | _ => false

/-- What stands behind an output of a node on an occasion. -/
def Output.Licit (c : Occasion) (n : Node) : Output → Prop
  | .stageSnapshotChunk _ | .applySnapshot _ => c.stages
  | .send v (.requestVoteResponse r) =>
    r.voteGranted → ∃ request, c.input = some (.message v (.requestVote request))
  | .send _ (.requestVote r) => c.node.currentTerm < r.term ∧ r.term ≤ u64Max
  | .send _ (.preVote r) => c.node.currentTerm < r.term ∧ r.term ≤ u64Max
  | .send _ (.timeoutNow r) =>
    n.role = .leader ∧ r.term = n.currentTerm ∧ n.leader.depositionAuthorized
  | _ => True

/-- An output that nothing needs to stand behind, and no frame. -/
def Output.isPlain : Output → Bool
  | .stageSnapshotChunk _ | .applySnapshot _ => false
  | .send _ (.requestVoteResponse r) => !r.voteGranted
  | .send _ (.requestVote _) | .send _ (.preVote _) | .send _ (.timeoutNow _) => false
  | .send _ (.appendEntries _) => false
  | _ => true

/-- A plain output that no other node relies on. -/
def Output.isIdle : Output → Bool
  | .send _ _ | .sendSnapshotChunk _ _ | .stageSnapshotChunk _ | .applySnapshot _ => false
  | .apply .. | .configurationCommitted .. => false
  | _ => true

theorem Output.isPlain_of_isIdle (h : x.isIdle) : x.isPlain := by
  unfold isPlain
  split <;> simp_all [isIdle]

theorem Output.licit_of_isPlain {n : Node} (h : x.isPlain) :
    x.Licit c n := by
  unfold Licit
  split <;> simp_all [isPlain]

theorem Output.frame?_of_isPlain (h : x.isPlain) : x.frame? = none := by
  unfold frame?
  split <;> simp_all [isPlain]

theorem Output.isStaging_of_licit {n : Node} (hc : c.stages = false) (h : x.Licit c n) :
    x.isStaging = false := by
  unfold Licit at h
  split at h <;> simp_all [isStaging]

/-- The messages with which a follower answers a leader. -/
def Message.isResponse : Message → Bool
  | .appendEntriesResponse _ | .installSnapshotResponse _ => true
  | _ => false

namespace Node

variable {c : Occasion} {n n' m : Node} {l : List Observation} {b : Bool}

/-! ## Frames of a log -/

/-- The frame describes the log of the leader `n`: it follows an index of the log or the snapshot
boundary, under the term recorded there, with the entries above it. -/
structure Describes (n : Node) (frame : AppendEntries) : Prop where
  role : n.role = .leader
  author : frame.leaderId = n.id
  term : frame.term = n.currentTerm
  commit : frame.leaderCommit = n.commitIndex
  above : n.snapshotIndex ≤ frame.prevLogIndex
  below : frame.prevLogIndex ≤ n.lastLogIndex
  prev : n.termAt frame.prevLogIndex = some frame.prevLogTerm
  entries : frame.entries <+: n.persistent.log.drop (frame.prevLogIndex - n.snapshotIndex)

variable {frame : AppendEntries} {v : NodeId}

/-- Rows are no part of what a frame describes. -/
theorem Describes.of_progress (h : n.Describes frame)
    (hnode : ∃ progress, m = { n with leader.progress := progress }) : m.Describes frame := by
  obtain ⟨progress, rfl⟩ := hnode
  exact ⟨h.role, h.author, h.term, h.commit, h.above, h.below, h.prev, h.entries⟩

theorem describes_message {next : ℕ} {entries : List LogEntry} (hrole : n.role = .leader)
    (hlow : n.snapshotIndex < next) (hhigh : next ≤ n.lastLogIndex + 1)
    (hentries : entries <+: n.persistent.log.drop (next - 1 - n.snapshotIndex))
    (h : (n.appendEntriesMessage v next entries).frame? = some frame) : n.Describes frame := by
  obtain rfl := Option.some_inj.1 h
  have hsome : (n.termAt (next - 1)).isSome := isSome_termAt.2 ⟨by omega, by omega⟩
  refine ⟨hrole, rfl, rfl, rfl, ?_, ?_, ?_, hentries⟩
  · show n.snapshotIndex ≤ next - 1
    omega
  · show next - 1 ≤ n.lastLogIndex
    omega
  · show n.termAt (next - 1) = some ((n.termAt (next - 1)).getD 0)
    obtain ⟨term, hterm⟩ := Option.isSome_iff_exists.1 hsome
    rw [hterm, Option.getD_some]

/-! ## Terms and votes -/

/-- Terms and votes move forward. A candidacy is of a new term that exists, an office one of a
candidacy of the same term, and a leader that authorised its deposition does not take that back. -/
structure Forward (n n' : Node) : Prop where
  config : n'.config = n.config
  term : n.currentTerm ≤ n'.currentTerm
  vote : n'.currentTerm = n.currentTerm → n.persistent.votedFor.isSome →
    n'.persistent.votedFor = n.persistent.votedFor
  candidacy : n'.role = .candidate → n.role = .candidate ∧ n'.currentTerm = n.currentTerm ∨
    n.currentTerm < n'.currentTerm
  campaign : n.currentTerm < n'.currentTerm → n'.role = .candidate ∨ n'.role = .leader →
    n'.currentTerm ≤ u64Max
  office : n'.role = .leader → n'.currentTerm = n.currentTerm →
    n.role = .candidate ∨ n.role = .leader ∧
      (n.leader.depositionAuthorized → n'.leader.depositionAuthorized)

theorem Forward.trans {n'' : Node} (h : n.Forward n') (h' : n'.Forward n'') : n.Forward n'' where
  config := h'.config.trans h.config
  term := h.term.trans h'.term
  vote hterm hsome := by
    have hle := h.term
    have hle' := h'.term
    have hvote := h.vote (by omega) hsome
    rw [h'.vote (by omega) (hvote ▸ hsome), hvote]
  candidacy hrole := by
    have hle := h.term
    rcases h'.candidacy hrole with ⟨hrole', hterm⟩ | hlt
    · rw [hterm]
      exact h.candidacy hrole'
    · exact .inr (by omega)
  campaign hlt hrole := by
    by_cases hlater : n'.currentTerm < n''.currentTerm
    · exact h'.campaign hlater hrole
    · -- the campaign was in the first part, and the second keeps the candidacy or the office
      have hterm := h'.term.antisymm (not_lt.1 hlater)
      rw [← hterm] at hlt ⊢
      refine h.campaign hlt ?_
      rcases hrole with hrole | hrole
      · rcases h'.candidacy hrole with ⟨hrole', -⟩ | hlater'
        · exact .inl hrole'
        · exact absurd hlater' hlater
      · exact (h'.office hrole hterm.symm).imp_right And.left
  office hrole hterm := by
    have hle := h.term
    have hle' := h'.term
    rcases h'.office hrole (by omega) with hcandidate | ⟨hleader, hauthorized⟩
    · rcases h.candidacy hcandidate with ⟨hrole', -⟩ | hlt
      · exact .inl hrole'
      · omega
    · exact (h.office hleader (by omega)).imp_right
        fun ⟨hrole', himp⟩ => ⟨hrole', fun h => hauthorized (himp h)⟩

/-- A node that leads its term at the end has led it throughout. -/
theorem Forward.between (h : n.Forward m) (h' : m.Forward n') (hrole : n.role = .leader)
    (hleads : n'.role = .leader) (hterm : n'.currentTerm = n.currentTerm) :
    m.role = .leader ∧ m.currentTerm = n.currentTerm := by
  have hle := h.term
  have hle' := h'.term
  refine ⟨?_, by omega⟩
  rcases h'.office hleads (by omega) with hcandidate | ⟨hleader, -⟩
  · rcases h.candidacy hcandidate with ⟨hrole', -⟩ | hlt
    · rw [hrole] at hrole'
      cases hrole'
    · omega
  · exact hleader

/-- What most acts leave alone. -/
def footing (n : Node) : (NodeConfig × ℕ × Option NodeId × Role × Bool) ×
    ℕ × Option RaftSnapshot × Option IncomingSnapshotTransfer × AcknowledgementSet × ℕ :=
  ((n.config, n.currentTerm, n.persistent.votedFor, n.role, n.leader.depositionAuthorized),
    n.commitIndex, n.persistent.snapshot, n.volatile.incomingSnapshot, n.leader.quorumAcks,
    n.leader.quorumCheckElapsed)

/-- The footing and the log. -/
def ground (n : Node) := (n.footing, n.persistent.log)

theorem Forward.of_eq (h : n'.footing.1 = n.footing.1) : n.Forward n' := by
  simp only [footing, Prod.mk.injEq] at h
  obtain ⟨hconfig, hterm, hvote, hrole, hauthorized⟩ := h
  exact ⟨hconfig, hterm.ge, fun _ _ => hvote, fun hr => .inl ⟨hrole ▸ hr, hterm⟩,
    fun hlt => absurd hterm hlt.ne', fun hr _ => .inr ⟨hrole ▸ hr, fun h => hauthorized ▸ h⟩⟩

theorem Forward.refl (n : Node) : n.Forward n := .of_eq rfl

/-! ## Followers heard from -/

/-- The follower `v` answers a leader of the term. -/
def Answers (c : Occasion) (term : ℕ) (v : NodeId) : Prop :=
  ∃ m, c.input = some (.message v m) ∧ m.isResponse ∧ m.term = term

/-- The node hears only from followers that answer it. -/
structure Heeds (c : Occasion) (n n' : Node) : Prop where
  elapsed : n'.leader.quorumCheckElapsed = n.leader.quorumCheckElapsed
  acks : ∀ v ∈ n'.leader.quorumAcks.nodes,
    v ∈ n.leader.quorumAcks.nodes ∨ Answers c n.currentTerm v

theorem Heeds.of_eq (hacks : n'.leader.quorumAcks = n.leader.quorumAcks)
    (helapsed : n'.leader.quorumCheckElapsed = n.leader.quorumCheckElapsed) : Heeds c n n' :=
  ⟨helapsed, fun _ hv => .inl (hacks ▸ hv)⟩

theorem heeds_recordQuorumAck (h : Answers c n.currentTerm v) :
    Heeds c n (n.recordQuorumAck v) := by
  refine ⟨rfl, fun w hw => ?_⟩
  rcases (AcknowledgementSet.mem_nodes_insert.1 hw).2 with rfl | hold
  · exact .inr h
  · exact .inl hold

/-! ## Configurations that a log gains -/

/-- The new voters of a configuration are learners whose rows have reached the commit index. -/
def Cleared (n : Node) (configuration : ConfigurationEntry) : Prop :=
  ∀ v, configuration.membershipConfig.containsVoter v → ¬ n.effectiveMembership.containsVoter v →
    n.effectiveMembership.containsLearner v ∧ n.commitIndex ≤ n.leader.progress.matchIndexOf v

/-- A configuration that the log gains comes from a leader elsewhere, is raw, or was cleared. -/
def Gains (c : Occasion) (n n' : Node) : Prop :=
  ∀ k e configuration, n'.entryAt k = some e → e.configurationEntry = some configuration →
    n.entryAt k = some e ∨ n.role ≠ .leader ∧
    (∃ v m, c.input = some (.message v m) ∧ m.isReplication)
      ∨ c.raw ∨ c.node.Cleared configuration

theorem Gains.of_eq (hsnapshot : n'.persistent.snapshot = n.persistent.snapshot)
    (hlog : n'.persistent.log = n.persistent.log) : Gains c n n' := fun k _ _ he _ =>
  .inl (by rwa [entryAt_congr hsnapshot hlog k] at he)

theorem Gains.append {entry : LogEntry} (hsnapshot : n'.persistent.snapshot = n.persistent.snapshot)
    (hlog : n'.persistent.log = n.persistent.log ++ [entry])
    (h : ∀ configuration, entry.configurationEntry = some configuration →
      c.raw ∨ c.node.Cleared configuration) : Gains c n n' := by
  intro k e configuration he hconfiguration
  by_cases hk : k ≤ n.lastLogIndex
  · exact .inl (by rwa [entryAt_append hsnapshot hlog hk] at he)
  · rw [entryAt_congr (n := n.appendLogEntry entry) hsnapshot hlog k] at he
    have hlow := (isSome_entryAt.1 (by rw [he]; rfl)).1
    have hlast : (n.appendLogEntry entry).entryAt k =
        (n.persistent.log ++ [entry])[k - n.firstRetainedLogIndex]? := if_neg (not_le.2 hlow)
    unfold lastLogIndex at hk
    rw [hlast, List.getElem?_append_right (by unfold firstRetainedLogIndex; omega)] at he
    have hmem := List.mem_of_getElem? he
    rw [List.mem_singleton.1 hmem] at hconfiguration
    exact .inr (.inr (h configuration hconfiguration))

/-! ## Deeds -/

/-- The snapshot stays, and the transfer under way stays or is dropped. -/
def Unmoved (n n' : Node) : Prop :=
  n'.persistent.snapshot = n.persistent.snapshot ∧
    (n'.volatile.incomingSnapshot = n.volatile.incomingSnapshot ∨
      n'.volatile.incomingSnapshot = none)

/-- An act with what it leaves unsaid. -/
structure Deed (c : Occasion) (n : Node) (l : List Observation) (n' : Node) : Prop where
  act : Act c n l n'
  forward : n.Forward n'
  unmoved : c.stages ∨ n.Unmoved n'
  heeds : n.role = .leader → n'.role = .leader → c.input = some .tick ∨ Heeds c n n'
  gains : Gains c n n'
  licit : ∀ x ∈ l.filterMap Sum.getRight?, x.Licit c n'

theorem Act.deed (h : Act c n l n') (hfooting : n'.footing = n.footing) (hgains : Gains c n n')
    (hplain : ∀ x ∈ l.filterMap Sum.getRight?, x.isPlain) : Deed c n l n' where
  act := h
  forward := .of_eq (congrArg Prod.fst hfooting)
  unmoved := by
    simp only [footing, Prod.mk.injEq] at hfooting
    exact .inr ⟨hfooting.2.2.1, .inl hfooting.2.2.2.1⟩
  heeds _ _ := by
    simp only [footing, Prod.mk.injEq] at hfooting
    obtain ⟨-, -, -, -, hacks, helapsed⟩ := hfooting
    exact .inr (.of_eq hacks helapsed)
  gains := hgains
  licit x hx := Output.licit_of_isPlain (hplain x hx)

/-! ## Transitions -/

/-- A transition is a path of deeds that takes `requests` and gives the outputs. On a sound node it
dispatches what it commits. It emits no frame unless it `speaks`, and then its frames describe the
node it leaves. -/
structure Acts (n : Node) (c : Occasion) (speaks : Bool) (requests : List Request) (o : Outcome) :
    Prop where
  path : ∃ trace, Path (Deed c) n trace o.node ∧ trace.filterMap Sum.getLeft? = requests ∧
    trace.filterMap Sum.getRight? = o.outputs
  settles : n.Sound → n.Settles o.node
  silent : speaks = false → o.frames = []
  describes : n.Bounded → ∀ frame ∈ o.frames, o.node.Describes frame

variable {o : Outcome} {rs rs' : List Request}
variable {x : Output} {f : Node → Outcome} {I : Node → Prop}

/-- What every act keeps. -/
theorem Acts.invariant (h : n.Acts c b rs o) (hact : ∀ {n l n'}, Act c n l n' → I n → I n')
    (hn : I n) : I o.node := by
  obtain ⟨trace, hpath, -, -⟩ := h.path
  exact hpath.invariant (I := I) (fun hdeed => hact hdeed.act) hn

theorem Acts.sound (h : n.Acts c b rs o) (hn : n.Sound) : o.node.Sound :=
  h.invariant (fun hact => hact.move.sound) hn

theorem Acts.bounded (h : n.Acts c b rs o) (hn : n.Bounded) : o.node.Bounded :=
  h.invariant (fun hact => hact.bounded) hn

theorem Acts.forward (h : n.Acts c b rs o) : n.Forward o.node := by
  obtain ⟨trace, hpath, -, -⟩ := h.path
  exact hpath.invariant (I := n.Forward) (fun hdeed hn => hn.trans hdeed.forward) (.refl n)

theorem Acts.refl (n : Node) : n.Acts c b [] ⟨n, []⟩ where
  path := ⟨[], .refl n, rfl, rfl⟩
  settles _ := .inl ⟨rfl, le_rfl⟩
  silent _ := rfl
  describes _ frame hmem := by cases hmem

/-- Two transitions one after the other, if the frames of the first describe the node at the end. -/
theorem Acts.compose {b' : Bool} (h : n.Acts c b rs o) (hf : o.node.Acts c b' rs' (f o.node))
    (hframes : n.Bounded → ∀ frame ∈ o.frames, (f o.node).node.Describes frame) :
    n.Acts c (b || b') (rs ++ rs') (o.andThen f) where
  path := by
    obtain ⟨t, ht, hrs, hos⟩ := h.path
    obtain ⟨t', ht', hrs', hos'⟩ := hf.path
    exact ⟨t ++ t', ht.trans ht', by rw [List.filterMap_append, hrs, hrs'],
      by rw [List.filterMap_append, hos, hos']; rfl⟩
  settles hn := (h.settles hn).trans (hf.settles (h.sound hn))
  silent hb := by
    rw [Bool.or_eq_false_iff] at hb
    rw [Outcome.frames_andThen, h.silent hb.1, hf.silent hb.2, List.append_nil]
  describes hn frame hmem := by
    rw [Outcome.frames_andThen] at hmem
    rcases List.mem_append.1 hmem with hmem | hmem
    · exact hframes hn frame hmem
    · exact hf.describes (h.bounded hn) frame hmem

/-- Frames come after all other changes. -/
theorem Acts.andThen (h : n.Acts c false rs o) (hf : o.node.Acts c b rs' (f o.node)) :
    n.Acts c b (rs ++ rs') (o.andThen f) := by
  have hall := h.compose hf fun _ frame hmem => by
    rw [h.silent rfl] at hmem
    cases hmem
  rwa [Bool.false_or] at hall

theorem Acts.then (h : n.Acts c false rs o) (hf : o.node.Acts c b [] (f o.node)) :
    n.Acts c b rs (o.andThen f) := by
  simpa using h.andThen hf

theorem Acts.of_left (hn : n.Acts c false [] ⟨m, []⟩) (h : m.Acts c b rs o) : n.Acts c b rs o :=
  hn.andThen (f := fun _ => o) h

/-- One deed without a frame. -/
theorem Deed.acts (h : Deed c n l n') (hsettles : n.Sound → n.Settles n')
    (hframes : ∀ x ∈ l.filterMap Sum.getRight?, x.frame? = none) :
    n.Acts c b (l.filterMap Sum.getLeft?) ⟨n', l.filterMap Sum.getRight?⟩ where
  path := ⟨l, .single h, rfl, rfl⟩
  settles := hsettles
  silent _ := List.filterMap_eq_nil_iff.2 hframes
  describes _ frame hmem := by
    rw [Outcome.frames, List.filterMap_eq_nil_iff.2 hframes] at hmem
    cases hmem

/-- One act that leaves the footing and gives plain outputs. -/
theorem Acts.gaining (h : Act c n l n') (hfooting : n'.footing = n.footing) (hgains : Gains c n n')
    (hplain : ∀ x ∈ l.filterMap Sum.getRight?, x.isPlain) :
    n.Acts c b (l.filterMap Sum.getLeft?) ⟨n', l.filterMap Sum.getRight?⟩ := by
  have hcommit : n'.commitIndex = n.commitIndex := congrArg (·.2.1) hfooting
  exact (h.deed hfooting hgains hplain).acts (fun _ => .inl ⟨hcommit, h.move.dispatched_le⟩)
    fun x hx => Output.frame?_of_isPlain (hplain x hx)

/-- One act that leaves the log too. -/
theorem Acts.single (h : Act c n l n') (hground : n'.ground = n.ground)
    (hplain : ∀ x ∈ l.filterMap Sum.getRight?, x.isPlain) :
    n.Acts c b (l.filterMap Sum.getLeft?) ⟨n', l.filterMap Sum.getRight?⟩ :=
  .gaining h (congrArg Prod.fst hground)
    (.of_eq (congrArg (·.1.2.2.1) hground) (congrArg Prod.snd hground)) hplain

theorem Act.acts {l : List Output} (h : Act c n (given l) n') (hground : n'.ground = n.ground)
    (hplain : ∀ x ∈ l, x.isPlain) : n.Acts c b [] ⟨n', l⟩ := by
  simpa using Acts.single h hground (by simpa using hplain)

/-- One act without outputs. -/
theorem Act.idle (h : Act c n [] n') (hground : n'.ground = n.ground) :
    n.Acts c b [] ⟨n', []⟩ :=
  Act.acts (l := []) h hground (by simp)

/-- An act without outputs may come first. -/
theorem Acts.of_act (hact : Act c n [] m) (hground : m.ground = n.ground) (h : m.Acts c b rs o) :
    n.Acts c b rs o :=
  .of_left (hact.idle hground) h

/-- Changes outside the spine, the footing and the log. -/
theorem still_acts (hspine : m.spine = n.spine)
    (htransfer : m.leader.pendingTransfer.isSome → n.leader.pendingTransfer.isSome)
    (hground : m.ground = n.ground) : n.Acts c b [] ⟨m, []⟩ :=
  (Act.quiet hspine htransfer).idle hground

/-- Changes outside the spine, of the transfer under way, the snapshot under reception or the
followers heard from. -/
theorem quiet_acts (hspine : m.spine = n.spine)
    (htransfer : m.leader.pendingTransfer.isSome → n.leader.pendingTransfer.isSome)
    (hauthorized : n.leader.depositionAuthorized → m.leader.depositionAuthorized)
    (hincoming : c.stages ∨ m.volatile.incomingSnapshot = n.volatile.incomingSnapshot)
    (hheeds : c.input = some .tick ∨ Heeds c n m) : n.Acts c b [] ⟨m, []⟩ := by
  have hcommit := eq_of_spine (f := commitIndex) hspine fun _ => rfl
  have hdispatched := eq_of_spine (f := dispatchedIndex) hspine fun _ => rfl
  have hterm := eq_of_spine (f := currentTerm) hspine fun _ => rfl
  have hrole := eq_of_spine (f := role) hspine fun _ => rfl
  have hdeed : Deed c n [] m :=
    { act := .quiet hspine htransfer
      forward := ⟨eq_of_spine (f := (·.config)) hspine fun _ => rfl, hterm.ge,
        fun _ _ => eq_of_spine (f := (·.persistent.votedFor)) hspine fun _ => rfl,
        fun hr => .inl ⟨hrole ▸ hr, hterm⟩, fun hlt => absurd hterm hlt.ne',
        fun hr _ => .inr ⟨hrole ▸ hr, hauthorized⟩⟩
      unmoved := hincoming.imp_right fun h =>
        ⟨eq_of_spine (f := (·.persistent.snapshot)) hspine fun _ => rfl, .inl h⟩
      heeds := fun _ _ => hheeds
      gains := .of_eq (eq_of_spine (f := (·.persistent.snapshot)) hspine fun _ => rfl)
        (eq_of_spine (f := (·.persistent.log)) hspine fun _ => rfl)
      licit := by simp }
  exact hdeed.acts (fun _ => .inl ⟨hcommit, hdispatched.ge⟩) (by simp)

theorem emit_acts (n : Node) (hx : x.isNotice) (hlicit : x.Licit c n) : n.Acts c b [] ⟨n, [x]⟩ := by
  have hdeed : Deed c n [.inr x] n :=
    ⟨.emit n x hx, .refl n, .inr ⟨rfl, .inl rfl⟩, fun _ _ => .inr (.of_eq rfl rfl), .of_eq rfl rfl,
      by simpa using hlicit⟩
  refine hdeed.acts (fun _ => .inl ⟨rfl, le_rfl⟩) fun y hy => ?_
  obtain rfl : y = x := by simpa using hy
  unfold Output.frame?
  split
  · simp [Output.isNotice] at hx
  · rfl

theorem emitAll_acts (n : Node) {outputs : List Output}
    (h : ∀ x ∈ outputs, x.isNotice ∧ x.Licit c n) : n.Acts c b [] ⟨n, outputs⟩ := by
  induction outputs with
  | nil => exact .refl n
  | cons x rest ih =>
    have hx := h x (.head _)
    exact (n.emit_acts hx.1 hx.2).andThen (f := fun n => ⟨n, rest⟩)
      (ih fun y hy => h y (.tail _ hy))

/-! ## Runs of deeds -/

/-- Something stands behind every output, at a node on the way. -/
theorem Acts.licit (h : n.Acts c b rs o) (hx : x ∈ o.outputs) :
    ∃ m, n.Forward m ∧ m.Forward o.node ∧ x.Licit c m := by
  obtain ⟨trace, hpath, -, houtputs⟩ := h.path
  have hall := hpath.history (P := fun past m => n.Forward m ∧
    ∀ x ∈ past.filterMap Sum.getRight?, ∃ k, n.Forward k ∧ k.Forward m ∧ x.Licit c k) ?_
    (p := []) ⟨.refl n, by simp⟩
  · rw [List.nil_append, houtputs] at hall
    exact hall.2 x hx
  · rintro m l m' hdeed past ⟨hforward, hpast⟩
    have hforward' := hforward.trans hdeed.forward
    refine ⟨hforward', fun x hx => ?_⟩
    rw [List.filterMap_append] at hx
    rcases List.mem_append.1 hx with hx | hx
    · obtain ⟨k, hk, hkm, hlicit⟩ := hpast x hx
      exact ⟨k, hk, hkm.trans hdeed.forward, hlicit⟩
    · exact ⟨m', hforward', .refl m', hdeed.licit x hx⟩

/-- What every deed of a leader of the term keeps holds of a node that still leads it. -/
theorem Acts.while_leading (h : n.Acts c b rs o)
    (hdeed : ∀ {m l m'}, Deed c m l m' → m.role = .leader → m'.role = .leader →
      m.currentTerm = n.currentTerm → I m → I m') (hrole : n.role = .leader)
    (hleads : o.node.role = .leader) (hterm : o.node.currentTerm = n.currentTerm) (hn : I n) :
    I o.node := by
  obtain ⟨trace, hpath, -, -⟩ := h.path
  have hall := hpath.invariant (I := fun m => n.Forward m ∧
    (m.role = .leader → m.currentTerm = n.currentTerm → I m)) ?_ ⟨.refl n, fun _ _ => hn⟩
  · exact hall.2 hleads hterm
  · rintro m l m' hd ⟨hforward, hm⟩
    refine ⟨hforward.trans hd.forward, fun hrole' hterm' => ?_⟩
    obtain ⟨hmid, htermMid⟩ := hforward.between hd.forward hrole hrole' hterm'
    exact hdeed hd hmid hrole' htermMid (hm hmid htermMid)

/-- Unless time passes, a leader hears only from those that answer it. -/
theorem Acts.heeds (h : n.Acts c b rs o) (hc : c.input ≠ some .tick) (hrole : n.role = .leader)
    (hleads : o.node.role = .leader) (hterm : o.node.currentTerm = n.currentTerm) :
    Heeds c n o.node := by
  refine h.while_leading (I := Heeds c n) ?_ hrole hleads hterm (.of_eq rfl rfl)
  intro m l m' hdeed hm hm' hmterm hbefore
  have hnext := (hdeed.heeds hm hm').resolve_left hc
  refine ⟨hnext.elapsed.trans hbefore.elapsed, fun v hv => ?_⟩
  rcases hnext.acks v hv with hold | hnew
  · exact hbefore.acks v hold
  · exact .inr (hmterm ▸ hnew)

/-! ## Snapshots under reception -/

/-- No snapshot is received: the transfer under way stays or is dropped. -/
structure Unstaged (n : Node) (o : Outcome) : Prop where
  transfer : o.node.volatile.incomingSnapshot = n.volatile.incomingSnapshot ∨
    o.node.volatile.incomingSnapshot = none
  snapshot : o.node.persistent.snapshot = n.persistent.snapshot
  outputs : ∀ x ∈ o.outputs, x.isStaging = false

/-- Only the two snapshot messages begin, continue or finish a reception. -/
theorem Acts.unstaged (h : n.Acts c b rs o) (hc : c.stages = false) : n.Unstaged o := by
  obtain ⟨trace, hpath, -, houtputs⟩ := h.path
  have hall := hpath.history (P := fun past m => n.Unmoved m ∧
    ∀ x ∈ past.filterMap Sum.getRight?, x.isStaging = false) ?_ (p := []) ⟨⟨rfl, .inl rfl⟩, by simp⟩
  · rw [List.nil_append, houtputs] at hall
    exact ⟨hall.1.2, hall.1.1, hall.2⟩
  · rintro m l m' hdeed past ⟨⟨hsnapshot, hincoming⟩, hpast⟩
    obtain ⟨hsnapshot', hincoming'⟩ := hdeed.unmoved.resolve_left (by simp [hc])
    refine ⟨⟨hsnapshot'.trans hsnapshot, ?_⟩, fun x hx => ?_⟩
    · rcases hincoming' with h' | h'
      · rw [h']
        exact hincoming
      · exact .inr h'
    · rw [List.filterMap_append] at hx
      rcases List.mem_append.1 hx with hx | hx
      · exact hpast x hx
      · exact Output.isStaging_of_licit hc (hdeed.licit x hx)

end Node

end Rafter
