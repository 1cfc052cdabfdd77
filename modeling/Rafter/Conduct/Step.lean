import Rafter.Conduct.Campaign
import Rafter.Refinement.Snapshot

/-!
# Every call is a path of acts

What a follower receives, the inputs of a node, batches of them and all public calls.

Results:

* `Node.step_performs`: what a step does, one lemma for each input;
* `Node.step_conducts`, `Node.stepBatch_conducts`, `Node.calls_conducts`: so every call is a path of
  moves.
-/

namespace Rafter

open Protocol

namespace Node

variable {c : Occasion} {n n' : Node} {b : Bool}
variable {v : NodeId} {request : InstallSnapshotChunk} {m : Message} {reply : SnapshotReply}

/-! ## Append frames -/

/-- On a message of the leader, a follower that has heard it stays so. -/
theorem Act.heard {l : List Observation} (h : Act c n l n') (hinput : c.input = some (.message v m))
    (hm : m.isReplication) (hn : n.Heard m.term) :
    n'.Heard m.term := by
  have hleader : n.role ≠ .leader := by simp [hn.role]
  -- the acts of ticks, votes and campaigns are not acts on this message
  have htick : c.input ≠ some .tick := by simp [hinput]
  have hother : ∀ {w m'}, c.input = some (.message w m') → m'.isReplication := by
    intro w m' h'
    obtain ⟨-, rfl⟩ := Input.message.inj (Option.some_inj.1 (hinput.symm.trans h'))
    exact hm
  have hmay : ¬ ∃ i, c.input = some i ∧ i.mayCampaign := by
    rintro ⟨i, hi, hmay⟩
    obtain rfl := Option.some_inj.1 (hinput.symm.trans hi)
    cases m <;> simp [Message.isReplication, Input.mayCampaign] at hm hmay
  cases h with
  | quiet hspine =>
    exact ⟨(eq_of_spine (f := role) hspine fun _ => rfl).trans hn.role,
      (eq_of_spine (f := currentTerm) hspine fun _ => rfl).trans hn.term,
      (eq_of_spine (f := (·.volatile.leaderHint.isSome)) hspine fun _ => rfl).trans hn.hint,
      (eq_of_spine (f := (·.election.elapsed)) hspine fun _ => rfl).trans hn.elapsed⟩
  | clock hinput' | elapse hinput' | forget hinput' | poll hinput' | rearm hinput' =>
    exact absurd hinput' htick
  | rest hinput' => exact absurd hinput' hmay
  | follow term hterm hwhy =>
    exfalso
    rcases hwhy with hlt | hrole | ⟨w, m', h'⟩
    · rcases hterm with rfl | ⟨w, m', h', rfl⟩
      · exact lt_irrefl _ hlt
      · obtain ⟨-, rfl⟩ := Input.message.inj (Option.some_inj.1 (hinput.symm.trans h'))
        exact hlt.ne hn.term
    · exact hrole hn.role
    · simpa [Message.isReplication] using hother h'
  | campaign _ hinput' => exact absurd hinput' hmay
  | lead hrole => simp [hn.role] at hrole
  | vote _ _ h' | renew _ _ h' | acknowledge _ _ h' => simpa [Message.isReplication] using hother h'
  | configure _ hrole | propose _ hrole | register _ _ hrole => exact absurd hrole hleader
  | dispatch entry =>
    rw [dispatchEntry_node]
    exact ⟨hn.role, hn.term, hn.hint, hn.elapsed⟩
  | hear w m' h' _ hterm hrole =>
    exact ⟨hrole, hn.term, rfl, rfl⟩
  | splice _ hprev hsplice =>
    obtain ⟨f, rest, hspliced, -⟩ := spliced_of_ok hprev hsplice
    obtain ⟨tracker, configuration, hnode, -⟩ := hspliced.node
    rw [hnode]
    exact ⟨hn.role, hn.term, hn.hint, hn.elapsed⟩
  | install snapshot =>
    obtain ⟨tracker, dropped, heq, -⟩ := n.installSnapshotState_eq snapshot
    rw [heq]
    exact ⟨hn.role, hn.term, hn.hint, hn.elapsed⟩
  | reconcile =>
    obtain ⟨progress, hp⟩ := n.reconcileReplicationProgress_node
    rw [hp]
    exact ⟨hn.role, hn.term, hn.hint, hn.elapsed⟩
  | record =>
    obtain ⟨progress, hp⟩ := n.recordLocalProgress_node
    rw [hp]
    exact ⟨hn.role, hn.term, hn.hint, hn.elapsed⟩
  | emit | refuse | reply | answer | frame | grant | reject => exact hn
  | commit | row | resume | beat | transfer => exact ⟨hn.role, hn.term, hn.hint, hn.elapsed⟩

theorem Acts.heard {rs : List Request} {o : Outcome} (h : n.Acts c b rs o)
    (hinput : c.input = some (.message v m)) (hm : m.isReplication) (hn : n.Heard m.term) :
    o.node.Heard m.term := by
  exact h.invariant (fun hact => hact.heard hinput hm) hn

theorem adoptLeaderCommit_acts (n : Node) (leaderCommit : ℕ) {confirmed : ℕ}
    (hle : n.commitIndex ≤ confirmed) (hmax : confirmed ≤ max n.commitIndex n.lastLogIndex) :
    n.Acts c b [] (n.adoptLeaderCommit leaderCommit confirmed) := by
  unfold adoptLeaderCommit
  split_ifs
  · exact n.commit_acts confirmed hle hmax
  · exact .refl n

theorem reply_acts {request : AppendEntries} (success : Bool) (k : ℕ)
    (hinput : c.input = some (.message v (.appendEntries request)))
    (hle : request.term ≤ n.currentTerm)
    (hheard : request.term = n.currentTerm → n.Heard request.term) :
    n.Acts c b [] ⟨n, [n.appendEntriesResponse v success k request.sequence]⟩ :=
  Act.acts (l := [_]) (.reply n v request success k hinput hle hheard) rfl
    (by simp [appendEntriesResponse, Output.isPlain])

theorem appendAsFollower_acts {request : AppendEntries}
    (hinput : c.input = some (.message v (.appendEntries request))) (hrole : n.role = .follower)
    (hterm : n.currentTerm = request.term) : n.Acts c b [] (n.appendAsFollower v request) ∧
      (n.appendAsFollower v request).node.role = .follower := by
  suffices hrest : Acts { n with election.elapsed := 0, volatile.leaderHint := some v } c b []
      (n.appendAsFollower v request) from
    ⟨.of_act (.hear n v _ hinput rfl hterm.symm hrole) rfl hrest,
      (hrest.heard hinput rfl ⟨hrole, hterm, rfl, rfl⟩).role⟩
  unfold appendAsFollower appendAsFollowerBy
  dsimp only
  have hheard : Heard { n with election.elapsed := 0, volatile.leaderHint := some v }
      request.term := ⟨hrole, hterm, rfl, rfl⟩
  generalize ({ n with
    election.elapsed := 0
    volatile.leaderHint := some v } : Node) = n₁ at hheard
  have hreply : ∀ {b} {m : Node} (success : Bool) (k : ℕ), m.Heard request.term →
      m.Acts c b [] ⟨m, [m.appendEntriesResponse v success k request.sequence]⟩ :=
    fun success k hm => reply_acts success k hinput hm.term.ge fun _ => hm
  by_cases hprev : n₁.termAt request.prevLogIndex ≠ some request.prevLogTerm
  · rw [if_pos hprev]
    exact hreply false 0 hheard
  rw [if_neg hprev]
  have hsome : (n₁.termAt request.prevLogIndex).isSome := by
    rw [not_not.1 hprev]
    rfl
  generalize hconfirmed : n₁.confirmedCommitIndex request
    (requestMatchIndex request.prevLogIndex request.entries.length) = confirmed
  cases hsplice : n₁.spliceEntriesAfter request.prevLogIndex request.entries confirmed with
  | error e => exact hreply false 0 hheard
  | ok o =>
    obtain ⟨f, rest, hspliced, hlen, -⟩ := spliced_of_ok hsome hsplice
    have hlast := hspliced.lastLogIndex_eq
    have hfooting : o.node.footing = n₁.footing := by
      obtain ⟨tracker, configuration, hnode, -⟩ := hspliced.node
      rw [hnode]
      rfl
    have hcommit : o.node.commitIndex = n₁.commitIndex := congrArg (·.2.1) hfooting
    have hcut : n₁.Acts c false [] o := by
      have hrole : n₁.role ≠ .leader := by simp [hheard.role]
      have hacts := Acts.gaining (c := c) (b := false) (.splice hrole hsome hsplice) hfooting
        (fun _ _ _ _ _ => .inr (.inl ⟨hrole, _, _, hinput, rfl⟩)) ?_
      · simpa using hacts
      obtain ⟨reason, dropped, houtputs, -⟩ := hspliced.outputs
      rw [filterMap_getRight_given, houtputs]
      exact fun x hx => Output.isPlain_of_isIdle (isIdle_dropOutputs reason dropped x hx)
    have hlog := hcut.then (f := (·.adoptLeaderCommit request.leaderCommit confirmed))
      (adoptLeaderCommit_acts (b := false) _ _ ?_ ?_)
    · exact hlog.then (hreply true _ (hlog.heard hinput rfl hheard))
    · rw [hcommit, ← hconfirmed]
      exact le_max_left _ _
    · rw [hcommit, hlast, ← hconfirmed]
      unfold confirmedCommitIndex requestMatchIndex
      omega

theorem appendAsFollower_performs {request : AppendEntries}
    (hinput : c.input = some (.message v (.appendEntries request))) (hrole : n.role = .follower)
    (hterm : n.currentTerm = request.term) : n.Performs c b [] (n.appendAsFollower v request) := by
  obtain ⟨hacts, hend⟩ := appendAsFollower_acts (b := b) hinput hrole hterm
  exact ⟨hacts, fun _ _ _ hI hc hn => hn.appendAsFollower hI hrole hterm.symm (hc _ hinput),
    fun _ _ => settled_of_role (by simp [hend])⟩

/-- Frames, chunks and whole snapshots first make the node a follower of their term. -/
theorem adopt_performs (hinput : c.input = some (.message v m)) (hle : n.currentTerm ≤ m.term)
    {f : Node → Outcome}
    (hf : ∀ n : Node, n.role = .follower → n.currentTerm = m.term → n.Performs c b [] (f n)) :
    n.Performs c b [] ((if n.currentTerm < m.term ∨ n.role ≠ .follower then n.becomeFollower m.term
      else ⟨n, []⟩).andThen f) := by
  by_cases h : n.currentTerm < m.term ∨ n.role ≠ .follower
  · rw [if_pos h]
    have hfollow : n.Performs c false [] (n.becomeFollower m.term) :=
      follow_performs m.term (.inr ⟨v, m, hinput, rfl⟩) (h.imp_right .inl)
    exact hfollow.then (hf _ rfl (max_eq_right hle))
  · rw [if_neg h]
    push Not at h
    exact (Performs.refl n).then (hf n h.2 (hle.antisymm h.1))

theorem handleAppendEntries_performs (n : Node) {request : AppendEntries}
    (hinput : c.input = some (.message v (.appendEntries request))) :
    n.Performs c b [] (n.handleAppendEntries v request) := by
  unfold handleAppendEntries handleAppendEntriesBy
  by_cases hstale : request.term < n.currentTerm
  · rw [if_pos hstale]
    exact ⟨reply_acts false 0 hinput hstale.le fun heq => absurd heq hstale.ne,
      fun _ _ _ _ _ hn => hn.reject v _, fun _ hs => hs⟩
  · rw [if_neg hstale]
    exact adopt_performs hinput (not_lt.1 hstale) fun n' hrole hterm =>
      appendAsFollower_performs hinput hrole hterm

/-! ## Snapshots -/

theorem answer_acts (n : Node) (v : NodeId) (reply : SnapshotReply) :
    n.Acts c b [] ⟨n, [n.snapshotReply v reply]⟩ :=
  Act.acts (l := [_]) (.answer n v reply) rfl (by simp [snapshotReply, Output.isPlain])

theorem refuseChunk_acts (n : Node) (v : NodeId) (rejection : SnapshotChunkRejection)
    (reply : SnapshotReply) : n.Acts c b [] (n.refuseChunk v rejection reply) :=
  .of_act (m := n.recordSnapshotChunkRejection rejection) (.quiet rfl fun h => h) rfl
    ((n.recordSnapshotChunkRejection rejection).answer_acts v reply)

/-- The message is one of a leader of the term. -/
def Led (c : Occasion) (term : ℕ) : Prop :=
  ∀ ⦃initial i s⦄, c.Genuine initial i s → ∃ d, s.lead term = some d

/-- The message brings a snapshot of the committed log of the leader of the term. -/
def Founded (c : Occasion) (term : ℕ) (snapshot : RaftSnapshot) : Prop :=
  ∀ ⦃initial i s⦄, c.Genuine initial i s → ∃ d, s.lead term = some d ∧
    SnapshotDescribes initial d.log snapshot.metadata ∧
    CommittedPrefix s term (d.log.take snapshot.metadata.lastIncludedIndex) ∧
    snapshot.metadata.hardStateTerm ≤ term ∧ snapshot.applicationPayloadLen ≤ u64Max

theorem Founded.led {term : ℕ} {snapshot : RaftSnapshot} (h : Founded c term snapshot) :
    Led c term := by
  intro initial i s hc
  obtain ⟨d, hd, -⟩ := h hc
  exact ⟨d, hd⟩

theorem founded_of_chunk (hinput : c.input = some (.message v (.installSnapshotChunk request))) :
    Founded c request.term
      ⟨request.metadata, request.totalPayloadLen, request.applicationPayloadCrc32⟩ := by
  intro initial i s hc
  obtain ⟨send, bytes, hsend, hresolve⟩ := hc _ hinput
  obtain ⟨-, rfl⟩ := SnapshotChunkSend.resolve_eq_some hresolve
  obtain ⟨d, hd, -, hdescribes, hcommitted⟩ := hsend.describes
  exact ⟨d, hd, hdescribes, hcommitted, hsend.hardState, hsend.total_le⟩

/-- A reply that accepts nothing above the commit index. -/
theorem answer_performs (v : NodeId) (reply : SnapshotReply)
    (hled : reply.accepted → Led c n.currentTerm)
    (hcovered : reply.accepted → reply.lastIncludedIndex ≤ n.snapshotCoveredThrough) :
    n.Performs c b [] ⟨n, [n.snapshotReply v reply]⟩ := by
  refine ⟨n.answer_acts v reply, fun initial i s hI hc hn => ?_, fun _ hs => hs⟩
  by_cases haccepted : reply.accepted
  · obtain ⟨d, hd⟩ := hled haccepted hc
    have hcommit : n.snapshotCoveredThrough ≤ n.commitIndex :=
      max_le (hn.rep.snapshot_le.trans hn.rep.dispatched_le) le_rfl
    obtain ⟨s', hs, hn', hack⟩ := hn.ack_committed hI hd ((hcovered haccepted).trans hcommit)
    refine ⟨s', hs, hn', fun x hx => ?_⟩
    obtain rfl := List.mem_singleton.1 hx
    exact fun _ => hack
  · refine .of_node hn fun x hx => ?_
    obtain rfl := List.mem_singleton.1 hx
    exact fun h => absurd h haccepted

theorem refuseChunk_performs (n : Node) (v : NodeId) (rejection : SnapshotChunkRejection)
    (hreply : reply.accepted = false) : n.Performs c b [] (n.refuseChunk v rejection reply) := by
  have hanswer := answer_performs (c := c) (b := b)
    (n := n.recordSnapshotChunkRejection rejection) v
    reply (fun h => by simp [hreply] at h) (fun h => by simp [hreply] at h)
  exact .of_act (m := n.recordSnapshotChunkRejection rejection) (.quiet rfl fun h => h) rfl rfl
    hanswer

/-- What a node tracks of the snapshot it receives. -/
theorem reception_performs (hstages : c.stages) (incoming : Option IncomingSnapshotTransfer) :
    n.Performs c b [] ⟨{ n with volatile.incomingSnapshot := incoming }, []⟩ :=
  quiet_performs rfl rfl (fun h => h) (fun h => h) (.inl hstages) (.inr (.of_eq rfl rfl))

/-- An installation ends with the reply to the leader. -/
theorem install_acts (n : Node) (snapshot : RaftSnapshot) (staged : StagedSnapshotChunk)
    (v : NodeId) (reply : SnapshotReply) (hstages : c.stages) (hrole : n.role ≠ .leader)
    (hnew : n.snapshotCoveredThrough < snapshot.metadata.lastIncludedIndex) :
    n.Acts c b [] ((n.installSnapshotState snapshot).andThen fun n =>
      ⟨n, [.stageSnapshotChunk staged, .applySnapshot snapshot, n.snapshotReply v reply]⟩) := by
  have hplain : ∀ x ∈ (n.installSnapshotState snapshot).outputs, x.isPlain := by
    obtain ⟨tracker, dropped, heq, -⟩ := n.installSnapshotState_eq snapshot
    rw [heq]
    exact fun x hx => Output.isPlain_of_isIdle (isIdle_dropOutputs _ dropped x hx)
  have hdeed : Deed c n _ _ :=
    { act := .install n snapshot staged hrole hnew
      forward := .of_eq rfl
      unmoved := .inl hstages
      heeds := fun _ _ => .inr (.of_eq rfl rfl)
      gains := fun _ _ _ _ _ => .inr (.inl ⟨hrole, Occasion.replicates_of_stages hstages⟩)
      licit := by
        simp only [filterMap_getRight_given, List.mem_append, List.mem_pair]
        rintro x (hx | rfl | rfl)
        · exact Output.licit_of_isPlain (hplain x hx)
        · exact hstages
        · exact hstages }
  have hinstall : n.Acts c false [] ⟨(n.installSnapshotState snapshot).node,
      (n.installSnapshotState snapshot).outputs ++
        [.stageSnapshotChunk staged, .applySnapshot snapshot]⟩ := by
    have hacts := hdeed.acts (b := false) (fun _ => .inr ?_) ?_
    · simpa using hacts
    · have hcovered : n.commitIndex ≤ snapshot.metadata.lastIncludedIndex :=
        (le_max_right _ _).trans hnew.le
      exact (max_le hcovered le_rfl).trans (le_max_right _ _)
    · simp only [filterMap_getRight_given, List.mem_append, List.mem_pair]
      rintro x (hx | rfl | rfl)
      · exact Output.frame?_of_isPlain (hplain x hx)
      · rfl
      · rfl
  have h := hinstall.then (b := b) (f := fun n => ⟨n, [n.snapshotReply v reply]⟩)
    (answer_acts _ v reply)
  simpa [Outcome.andThen] using h

theorem install_performs {snapshot : RaftSnapshot} {staged : StagedSnapshotChunk}
    (hstages : c.stages) (hrole : n.role = .follower)
    (hnew : n.snapshotCoveredThrough < snapshot.metadata.lastIncludedIndex)
    (hfounded : Founded c n.currentTerm snapshot)
    (hreply : reply.lastIncludedIndex = snapshot.metadata.lastIncludedIndex) :
    n.Performs c b [] ((n.installSnapshotState snapshot).andThen fun n =>
      ⟨n, [.stageSnapshotChunk staged, .applySnapshot snapshot, n.snapshotReply v reply]⟩) := by
  have hinstall : n.Refines c (n.installSnapshotState snapshot) := by
    intro initial i s hI hc hn
    obtain ⟨d, hd, hdescribes, hcommitted, hhard, hlen⟩ := hfounded hc
    obtain ⟨s', hs, -, hn'⟩ := hn.installSnapshotState hI hrole snapshot hd hdescribes hcommitted
      hhard hlen ((le_max_right _ _).trans_lt hnew)
    exact ⟨s', hs, hn', outputOk_dropOutputs _ _⟩
  refine ⟨n.install_acts snapshot staged v reply hstages (by simp [hrole]) hnew,
    hinstall.andThen fun initial i s hI hc hn => ?_, fun _ _ => settled_of_role fun h => ?_⟩
  · obtain ⟨d, hd⟩ := hfounded.led hc
    obtain ⟨s', hs, hn', hack⟩ := hn.ack_committed hI hd (k := reply.lastIncludedIndex)
      (hreply.le.trans (le_max_right _ _))
    refine ⟨s', hs, hn', fun x hx => ?_⟩
    rcases List.mem_cons.1 hx with rfl | hx
    · trivial
    rcases List.mem_pair.1 hx with rfl | rfl
    · trivial
    · exact fun _ => hack
  · exact absurd (hrole.symm.trans h) (by simp)

theorem acceptCurrentSnapshotChunk_performs (receivedLen : ℕ)
    (hinput : c.input = some (.message v (.installSnapshotChunk request)))
    (hrole : n.role = .follower) (hterm : n.currentTerm = request.term)
    (hnew : n.snapshotCoveredThrough < request.metadata.lastIncludedIndex)
    {transfer : IncomingSnapshotTransfer} (htransfer : n.volatile.incomingSnapshot = some transfer)
    (hmetadata : transfer.metadata = request.metadata) :
    n.Performs c b [] (n.acceptCurrentSnapshotChunk v request receivedLen) := by
  have hstages : c.stages := by rw [Occasion.stages, hinput]
  have hfounded := founded_of_chunk hinput
  rw [← hterm] at hfounded
  unfold acceptCurrentSnapshotChunk installFinalSnapshotChunk
  rw [htransfer]
  dsimp only
  split_ifs
  · exact n.refuseChunk_performs _ _ rfl
  · refine .of_left (reception_performs hstages none) ?_
    rw [hmetadata]
    exact install_performs hstages hrole hnew hfounded rfl
  · have hstaged := (n.emit_performs (x := stageSnapshotChunk v request) rfl hstages trivial).then
      (b := false) (f := fun n => ⟨n, [n.snapshotReply v (.acceptedTransfer n.snapshotIndex
        transfer.transferId (receivedLen + request.chunk.length))]⟩)
      (answer_performs v _ (fun _ => hfounded.led) fun _ => le_max_left _ _)
    exact hstaged.then (f := fun _ => ⟨_, []⟩) (reception_performs hstages _)

theorem snapshotChunkAsFollower_performs
    (hinput : c.input = some (.message v (.installSnapshotChunk request)))
    (hrole : n.role = .follower) (hterm : n.currentTerm = request.term) :
    n.Performs c b [] (n.snapshotChunkAsFollower v request) := by
  have hstages : c.stages := by rw [Occasion.stages, hinput]
  have hled := (founded_of_chunk hinput).led
  unfold snapshotChunkAsFollower
  cases n.validateInstallSnapshotChunkHeader v request with
  | error rejection => exact n.refuseChunk_performs _ _ rfl
  | ok u =>
    dsimp only
    refine .of_act (.hear n v _ hinput rfl hterm.symm hrole) rfl rfl ?_
    have hrole₁ : (n.recordAcceptedSnapshotLeader v).role = .follower := hrole
    have hterm₁ : (n.recordAcceptedSnapshotLeader v).currentTerm = request.term := hterm
    change (n.recordAcceptedSnapshotLeader v).Performs c b [] _
    generalize n.recordAcceptedSnapshotLeader v = n₁ at hrole₁ hterm₁
    rw [← hterm₁] at hled
    cases hclass : n₁.classifySnapshotChunk v request with
    | error rejection => exact n₁.refuseChunk_performs _ _ rfl
    | ok p =>
      obtain ⟨n₂, disposition⟩ := p
      obtain ⟨⟨incoming, rfl⟩, hcovered, haccept⟩ := classifySnapshotChunk_ok hclass
      refine .of_left (reception_performs hstages incoming) ?_
      cases disposition with
      | alreadyCovered k =>
        have hanswer := answer_performs (c := c) (b := false)
          (n := { n₁ with volatile.incomingSnapshot := incoming }) v
          (.acceptedTransfer k request.transferId request.totalPayloadLen)
          (fun _ => hled) fun _ => (hcovered k rfl).le
        exact hanswer.then (f := fun _ => ⟨_, []⟩) (reception_performs hstages _)
      | retransmission k => exact answer_performs v _ (fun _ => hled) fun _ => le_max_left _ _
      | outOfOrder k => exact refuseChunk_performs _ _ _ rfl
      | accept k =>
        obtain ⟨hnew, transfer, htransfer, hmetadata⟩ := haccept k rfl
        exact acceptCurrentSnapshotChunk_performs _ hinput hrole₁ hterm₁ hnew htransfer hmetadata

theorem handleInstallSnapshotChunk_performs (n : Node)
    (hinput : c.input = some (.message v (.installSnapshotChunk request))) :
    n.Performs c b [] (n.handleInstallSnapshotChunk v request) := by
  unfold handleInstallSnapshotChunk
  by_cases hstale : request.term < n.currentTerm
  · rw [if_pos hstale]
    exact n.refuseChunk_performs _ _ rfl
  · rw [if_neg hstale]
    exact adopt_performs hinput (not_lt.1 hstale) fun n' hrole hterm =>
      snapshotChunkAsFollower_performs hinput hrole hterm

theorem wholeSnapshotAsFollower_performs {request : InstallSnapshot}
    (hinput : c.input = some (.message v (.installSnapshot request))) (hrole : n.role = .follower)
    (hterm : n.currentTerm = request.term) :
    n.Performs c b [] (n.wholeSnapshotAsFollower v request) := by
  have hstages : c.stages := by rw [Occasion.stages, hinput]
  -- nobody sends a whole snapshot
  have hled : Led c n.currentTerm := fun _ _ _ hc => (hc _ hinput).elim
  unfold wholeSnapshotAsFollower
  dsimp only
  cases n.validateSnapshotTransferHeader v
    (RaftSnapshot.fromPayload request.metadata request.applicationPayload).metadata
    request.term with
  | error rejection => exact answer_performs v _ (fun _ => hled) fun _ => le_max_left _ _
  | ok u =>
    dsimp only
    refine .of_act (.hear n v _ hinput rfl hterm.symm hrole) rfl rfl ?_
    refine .of_left (n := n.recordAcceptedSnapshotLeader v) (reception_performs hstages none) ?_
    split_ifs with hcovered
    · exact answer_performs v _ (fun _ => hled) fun _ => le_rfl
    · exact install_performs hstages hrole (not_le.1 hcovered)
        (fun _ _ _ hc => (hc _ hinput).elim) rfl

theorem handleInstallSnapshot_performs (n : Node) {request : InstallSnapshot}
    (hinput : c.input = some (.message v (.installSnapshot request))) :
    n.Performs c b [] (n.handleInstallSnapshot v request) := by
  unfold handleInstallSnapshot
  by_cases hstale : request.term < n.currentTerm
  · rw [if_pos hstale]
    exact answer_performs v _ (fun h => (by cases h)) fun h => (by cases h)
  · rw [if_neg hstale]
    exact adopt_performs hinput (not_lt.1 hstale) fun n' hrole hterm =>
      wholeSnapshotAsFollower_performs hinput hrole hterm

/-! ## Inputs -/

theorem receive_performs {message : Message} (hinput : c.input = some (.message v message))
    (hnode : c.node = n) : n.Performs c true [] (n.receive v message) := by
  unfold receive
  split_ifs
  · cases message with
    | appendEntries request => exact n.handleAppendEntries_performs hinput
    | appendEntriesResponse response => exact n.handleAppendEntriesResponse_performs hinput
    | installSnapshot request => exact n.handleInstallSnapshot_performs hinput
    | installSnapshotChunk request => exact n.handleInstallSnapshotChunk_performs hinput
    | installSnapshotResponse response => exact handleInstallSnapshotResponse_performs hinput hnode
    | preVote request => exact n.emit_performs rfl trivial trivial
    | preVoteResponse response => exact n.handlePreVoteResponse_performs hinput hnode
    | timeoutNow request => exact n.handleTimeoutNow_performs hinput hnode
    | requestVote request => exact n.handleRequestVote_performs hinput
    | requestVoteResponse response => exact n.handleRequestVoteResponse_performs hinput
  · exact .refl n

end Node

/-- The requests an input makes. -/
def Input.requests : Input → List Request
  | .clientProposal payload => [.propose ⟨none, payload⟩]
  | .trackedClientProposal proposalId payload => [.propose ⟨some proposalId, payload⟩]
  | .readIndex readId => [.read readId]
  | _ => []

namespace Node

variable {c : Occasion} {n n' : Node} {b : Bool} {o : Outcome} {requests : List Request}

/-- What a step does. -/
theorem step_performs (n : Node) (input : Input) :
    n.Performs ⟨n, some input⟩ true input.requests (n.step input) := by
  cases input with
  | tick => exact tick_performs rfl rfl
  | message sender message => exact receive_performs rfl rfl
  | clientProposal | trackedClientProposal => exact n.stepClientProposal_performs _
  | addLearner learnerId => exact n.addLearner_performs learnerId
  | promoteLearner learnerId barrier => exact n.promoteLearner_performs learnerId barrier
  | removeVoter voterId => exact n.removeVoter_performs voterId
  | enterJoint target barriers => exact n.enterJoint_performs target barriers
  | leaveJoint => exact n.leaveJoint_performs
  | changeMembership target barriers => exact n.changeMembership_performs target barriers
  | dangerousRawConfigurationProposal configuration barriers =>
    exact n.proposeConfiguration_performs barriers (.ok configuration) fun _ _ => .inl rfl
  | transferLeadership target => exact n.transferLeadership_performs target
  | readIndex readId => exact n.readIndexBatch_performs [readId]

/-- Every step is a path of the acts its input may give rise to. -/
theorem step_acts (n : Node) (input : Input) :
    n.Acts ⟨n, some input⟩ true input.requests (n.step input) :=
  (n.step_performs input).toActs

/-- What a leader adds to its log: unless the step takes entries of another leader and ends the
office, every new configuration was cleared. -/
theorem cleared_of_step {n : Node} {x : Input} (hrole : n.role = .leader)
    (hraw : ∀ configuration barriers, x ≠ .dangerousRawConfigurationProposal configuration barriers)
    (hown : (n.step x).node.role = .leader ∧ (n.step x).node.currentTerm = n.currentTerm ∨
      ∀ v m, x = .message v m → m.isReplication = false) :
    ∀ k e configuration, (n.step x).node.entryAt k = some e →
      e.configurationEntry = some configuration →
      n.entryAt k = some e ∨ n.Cleared configuration := by
  have hnot : ¬ Occasion.raw ⟨n, some x⟩ := by
    intro h
    unfold Occasion.raw at h
    split at h
    · rename_i configuration barriers hinput
      exact hraw _ _ (Option.some_inj.1 hinput)
    · cases h
  have hstep : ∀ {m l m'}, Deed ⟨n, some x⟩ m l m' →
      (m.role = .leader ∨ ∀ v m, x = .message v m → m.isReplication = false) →
      (∀ k e configuration, m.entryAt k = some e → e.configurationEntry = some configuration →
        n.entryAt k = some e ∨ n.Cleared configuration) →
      ∀ k e configuration, m'.entryAt k = some e → e.configurationEntry = some configuration →
        n.entryAt k = some e ∨ n.Cleared configuration := by
    intro m l m' hdeed hwhy hm k e configuration he hconfiguration
    rcases hdeed.gains k e configuration he hconfiguration with hold | ⟨hnone, v, msg,
      hinput, hmsg⟩ |
      h | h
    · exact hm k e configuration hold hconfiguration
    · rcases hwhy with hleads | hother
      · exact absurd hleads hnone
      · rw [hother v msg (Option.some_inj.1 hinput)] at hmsg
        cases hmsg
    · exact absurd h hnot
    · exact .inr h
  rcases hown with ⟨hleads, hterm⟩ | hother
  · exact (n.step_acts x).while_leading (fun hdeed hm _ _ => hstep hdeed (.inl hm)) hrole
      hleads hterm
      fun _ _ _ he _ => .inl he
  · obtain ⟨trace, hpath, -, -⟩ := (n.step_acts x).path
    exact hpath.invariant (fun hdeed => hstep hdeed (.inr hother)) fun _ _ _ he _ => .inl he

/-! ## Conducts -/

/-- A transition is a path of moves that takes `requests` and gives the outputs. On a sound node it
dispatches what it commits. -/
def Conducts (n : Node) (requests : List Request) (o : Outcome) : Prop :=
  (∃ trace, Path Move n trace o.node ∧ trace.filterMap Sum.getLeft? = requests ∧
    trace.filterMap Sum.getRight? = o.outputs) ∧ (n.Sound → n.Settles o.node)

theorem Acts.conducts (h : n.Acts c b requests o) : n.Conducts requests o := by
  obtain ⟨trace, hpath, hrequests, houtputs⟩ := h.path
  have hmoves : Path Move n trace o.node :=
    hpath.map (I := fun _ => True) (fun n => n) (fun hdeed _ => ⟨trivial, hdeed.act.move⟩) trivial
  exact ⟨⟨trace, hmoves, hrequests, houtputs⟩, h.settles⟩

theorem Conducts.sound (h : n.Conducts requests o) (hn : n.Sound) : o.node.Sound := by
  obtain ⟨⟨trace, hpath, -, -⟩, -⟩ := h
  exact hpath.invariant (fun hm => hm.sound) hn

theorem Conducts.refl (n : Node) : n.Conducts [] ⟨n, []⟩ :=
  (Acts.refl (c := ⟨n, none⟩) (b := false) n).conducts

theorem Conducts.andThen {f : Node → Outcome} {rs rs' : List Request} (h : n.Conducts rs o)
    (hf : o.node.Conducts rs' (f o.node)) : n.Conducts (rs ++ rs') (o.andThen f) := by
  refine ⟨?_, fun hn => (h.2 hn).trans (hf.2 (h.sound hn))⟩
  obtain ⟨⟨t, ht, hrs, hos⟩, -⟩ := h
  obtain ⟨⟨t', ht', hrs', hos'⟩, -⟩ := hf
  exact ⟨t ++ t', ht.trans ht', by rw [List.filterMap_append, hrs, hrs'],
    by rw [List.filterMap_append, hos, hos']; rfl⟩

/-- One move that does not commit. -/
theorem Conducts.single {l : List Observation} (h : Move n l n')
    (hcommit : n'.commitIndex = n.commitIndex) :
    n.Conducts (l.filterMap Sum.getLeft?) ⟨n', l.filterMap Sum.getRight?⟩ :=
  ⟨⟨_, .single h, rfl, rfl⟩, fun _ => .inl ⟨hcommit, h.dispatched_le⟩⟩

theorem step_conducts (n : Node) (input : Input) : n.Conducts input.requests (n.step input) :=
  (n.step_acts input).conducts

theorem stepProposalBatch_conducts (n : Node) (ps : List ClientProposalInput) :
    n.Conducts (ps.map .propose) (n.stepProposalBatch ps) :=
  (n.stepProposalBatch_performs (c := ⟨n, none⟩) ps).conducts

theorem readIndexBatch_conducts (n : Node) (ids : List ReadId) :
    n.Conducts (ids.map .read) (n.readIndexBatch ids) :=
  (n.readIndexBatch_performs (c := ⟨n, none⟩) ids).conducts

theorem emitCommittedOutputs_conducts (n : Node) : n.Conducts [] n.emitCommittedOutputs :=
  (n.emitCommittedOutputs_acts (c := ⟨n, none⟩) (b := false)).conducts

end Node

/-! ## Batches -/

namespace PendingBatch

/-- The requests that await the batched transition. -/
def requests : PendingBatch → List Request
  | empty => []
  | proposals ps => ps.map .propose
  | reads rs => rs.map .read

theorem flush_performs (n : Node) (batch : PendingBatch) :
    n.Performs ⟨n, none⟩ true batch.requests (batch.flush n) := by
  cases batch with
  | empty => exact .refl n
  | proposals ps => exact n.stepProposalBatch_performs ps
  | reads rs => exact n.readIndexBatch_performs rs

theorem flush_conducts (n : Node) (batch : PendingBatch) :
    n.Conducts batch.requests (batch.flush n) :=
  (flush_performs n batch).conducts

/-- An input joins the pending batch, or comes after its flush. -/
theorem accept_cases (n : Node) (batch : PendingBatch) (input : Input) :
    (batch.accept n input).1 = ⟨n, []⟩ ∨ (batch.accept n input).1 = batch.flush n ∨
      batch.accept n input = ((batch.flush n).andThen (·.step input), empty) := by
  cases input with
  | clientProposal | trackedClientProposal =>
    cases batch with
    | empty | proposals => exact .inl rfl
    | reads => exact .inr (.inl rfl)
  | readIndex =>
    cases batch with
    | empty | reads => exact .inl rfl
    | proposals => exact .inr (.inl rfl)
  | tick | message | addLearner | promoteLearner | removeVoter | enterJoint | leaveJoint
  | changeMembership | dangerousRawConfigurationProposal | transferLeadership =>
    exact .inr (.inr rfl)

/-- Accepting an input serves some of the requests and keeps the others in order. -/
theorem accept_conducts (n : Node) (batch : PendingBatch) (input : Input) :
    ∃ served, n.Conducts served (batch.accept n input).1 ∧
      served ++ (batch.accept n input).2.requests = batch.requests ++ input.requests := by
  have hflush : ∀ input : Input, n.Conducts (batch.requests ++ input.requests)
      ((batch.flush n).andThen (·.step input)) := fun input =>
    (flush_conducts n batch).andThen (Node.step_conducts _ input)
  cases input with
  | clientProposal payload | trackedClientProposal proposalId payload =>
    cases batch with
    | empty => exact ⟨[], .refl n, rfl⟩
    | proposals ps => exact ⟨[], .refl n, by simp [accept, pushProposal, requests, Input.requests]⟩
    | reads rs => exact ⟨_, n.readIndexBatch_conducts rs, rfl⟩
  | readIndex readId =>
    cases batch with
    | empty => exact ⟨[], .refl n, rfl⟩
    | proposals ps => exact ⟨_, n.stepProposalBatch_conducts ps, rfl⟩
    | reads rs => exact ⟨[], .refl n, by simp [accept, pushRead, requests, Input.requests]⟩
  | tick | message | addLearner | promoteLearner | removeVoter | enterJoint | leaveJoint
  | changeMembership | dangerousRawConfigurationProposal | transferLeadership =>
    exact ⟨_, hflush _, by simp [accept, requests]⟩

theorem run_conducts (n : Node) (batch : PendingBatch) (inputs : List Input) :
    n.Conducts (batch.requests ++ inputs.flatMap Input.requests) (batch.run n inputs) := by
  induction inputs generalizing n batch with
  | nil => simpa [run] using flush_conducts n batch
  | cons input rest ih =>
    obtain ⟨served, hserved, heq⟩ := accept_conducts n batch input
    have hrun := hserved.andThen (f := fun n' => (batch.accept n input).2.run n' rest) (ih _ _)
    rw [← List.append_assoc, heq, List.append_assoc] at hrun
    simpa [run] using hrun

end PendingBatch

namespace Node

theorem stepBatch_conducts (n : Node) (inputs : List Input) :
    n.Conducts (inputs.flatMap Input.requests) (n.stepBatch inputs) := by
  match inputs with
  | [] => exact .refl n
  | [input] => simpa [stepBatch] using n.step_conducts input
  | i₁ :: i₂ :: rest => exact PendingBatch.run_conducts n .empty (i₁ :: i₂ :: rest)

/-- The requests a call makes. -/
def Call.requests : Call → List Request
  | .step input => input.requests
  | .stepBatch inputs => inputs.flatMap Input.requests
  | .stepProposalBatch proposals => proposals.map .propose
  | .installLocalSnapshot snapshot => [.compact snapshot]
  | .drainCommittedOutputs => []

theorem call_conducts (n : Node) (c : Call) : n.Conducts c.requests (n.call c) := by
  cases c with
  | step input => exact n.step_conducts input
  | stepBatch inputs => exact n.stepBatch_conducts inputs
  | stepProposalBatch proposals => exact n.stepProposalBatch_conducts proposals
  | installLocalSnapshot snapshot =>
    unfold call Call.requests
    dsimp only
    cases h : n.installLocalSnapshot snapshot with
    | ok o =>
      simpa [List.filterMap_cons] using Conducts.single (.compact h) (compacted_of_ok h).commit
    | error e => exact .single (.decline n snapshot) rfl
  | drainCommittedOutputs => exact n.emitCommittedOutputs_conducts

/-- A run of calls is a path of moves that takes the requests of the calls in order and gives their
outputs in order. -/
theorem calls_conducts (n : Node) (cs : List Call) :
    n.Conducts (cs.flatMap Call.requests) (n.calls cs) := by
  induction cs generalizing n with
  | nil => exact .refl n
  | cons c rest ih => exact (n.call_conducts c).andThen (ih _)

/-! ## A leader to evaluate -/

/-- Node 1 of three voters, without pre-vote. -/
def oneOfThree : NodeConfig where
  id := 1
  staticMembership := .stable threeVoters
  electionTimeoutTicks := 1
  electionTimeoutTicks_pos := Nat.one_pos
  requestedPreVote := false

/-- Inputs after which node 1 leads term 1 and has committed its first entry. -/
def takeOffice : List Input :=
  [.tick, .message 2 (.requestVoteResponse ⟨1, 2, true⟩),
    .message 2 (.appendEntriesResponse ⟨1, 2, true, 1, 1⟩)]

/-- The one name that snapshots are given in evaluations. -/
def soleSnapshotId : SnapshotId := ⟨['s'], by simp, by simp, by simp [snapshotIdCharacter]⟩

/-- The application that takes them. -/
def soleApplication : ApplicationSnapshotMetadata := ⟨soleSnapshotId, ⟨2, by simp, by simp⟩⟩

/-- The snapshot node 2 offers in term 1, with a boundary and the index of the captured
configuration as it likes. -/
def offeredSnapshot (boundary captured : ℕ) : InstallSnapshot where
  term := 1
  leaderId := 2
  metadata :=
    { groupId := soleSnapshotId
      writerId := 2
      lastIncludedIndex := boundary
      lastIncludedTerm := 1
      hardStateTerm := 1
      application := soleApplication
      committedConfiguration := some ⟨some ⟨captured, 1⟩, .stable threeVoters⟩ }
  applicationPayload := []

/-- What node 1 makes of the offer. -/
def takeOffer (boundary captured : ℕ) : Outcome :=
  (Node.new oneOfThree).handleInstallSnapshot 2 (offeredSnapshot boundary captured)

/-- A forged offer, whose boundary is one below the last index of `u64`. -/
def forgedOffer : Input := .message 2 (.installSnapshot (offeredSnapshot (u64Max - 1) 1))

end Node

end Rafter
