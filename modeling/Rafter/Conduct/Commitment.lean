import Rafter.Conduct.Send
import Rafter.Refinement.Proposal

/-!
# Commitment and proposals

Losing an office, commit attempts and the proposals of an embedder.

Results:

* `Node.advanceCommitIndex_settled`: a commit attempt settles a leader;
* `Node.Appends.replicate`: so does replication after a leader has appended entries of its term;
* `Node.stepProposalBatch_performs`, `Node.proposeConfiguration_performs`.
-/

namespace Rafter

open Protocol

namespace Node

variable {c : Occasion} {n n' : Node} {b : Bool}

/-! ## Losing an office -/

theorem isIdle_dropOutputs (reason : LocalProposalDropReason) (dropped : LocalProposalTracker) :
    ∀ x ∈ dropOutputs reason dropped, x.isIdle := by
  intro x hx
  obtain ⟨p, -, rfl⟩ := List.mem_map.1 hx
  rfl

theorem isIdle_drainPendingReads (n : Node) (reason : ReadIndexCancelReason) :
    ∀ x ∈ (n.drainPendingReads reason).outputs, x.isIdle := by
  intro x hx
  obtain ⟨id, rfl⟩ := mem_drainPendingReads hx
  rfl

theorem isIdle_becomeFollower (n : Node) (term : ℕ) :
    ∀ x ∈ (n.becomeFollower term).outputs, x.isIdle := by
  intro x hx
  rw [becomeFollower_outputs] at hx
  rcases List.mem_append.1 hx with hx | hx
  · exact isIdle_dropOutputs _ _ x hx
  · exact n.isIdle_drainPendingReads _ x hx

/-- A follower of a later term starts without a vote. -/
theorem forward_becomeFollower (n : Node) (term : ℕ) : n.Forward (n.becomeFollower term).node where
  config := rfl
  term := le_max_left _ _
  vote hterm _ := if_neg (not_lt.2 ((le_max_right _ _).trans hterm.le))
  candidacy hrole := by cases hrole
  campaign _ hrole := by rcases hrole with hrole | hrole <;> cases hrole
  office hrole := by cases hrole

theorem follow_performs (term : ℕ)
    (hterm : term = n.currentTerm ∨ ∃ v m, c.input = some (.message v m) ∧ m.term = term)
    (hwhy : n.currentTerm < term ∨ n.role ≠ .follower ∨
      ∃ v m, c.input = some (.message v (.timeoutNow m))) :
    n.Performs c b [] (n.becomeFollower term) := by
  have hplain : ∀ x ∈ (n.becomeFollower term).outputs, x.isPlain := fun x hx =>
    Output.isPlain_of_isIdle (n.isIdle_becomeFollower term x hx)
  have hdeed : Deed c n _ _ :=
    { act := .follow n term hterm hwhy
      forward := n.forward_becomeFollower term
      unmoved := .inr ⟨rfl, .inl rfl⟩
      heeds := fun _ hrole => by cases hrole
      gains := .of_eq rfl rfl
      licit := fun x hx => Output.licit_of_isPlain (hplain x (by simpa using hx)) }
  have hacts := hdeed.acts (b := b) (fun _ => .inl ⟨rfl, le_rfl⟩)
    fun x hx => Output.frame?_of_isPlain (hplain x (by simpa using hx))
  rw [filterMap_getLeft_given, filterMap_getRight_given] at hacts
  exact ⟨hacts, fun _ _ _ hI _ hn => hn.becomeFollower hI term,
    fun _ _ => settled_of_role fun h => (by cases h)⟩

/-- A node that is not a follower becomes one of its own term. -/
theorem stepDown_performs (hrole : n.role ≠ .follower) :
    n.Performs c b [] (n.becomeFollower n.currentTerm) :=
  follow_performs _ (.inl rfl) (.inr (.inl hrole))

/-- A message of a later term makes the node a follower of that term. -/
theorem catchUp_performs {v : NodeId} {m : Message} (hinput : c.input = some (.message v m))
    {term : ℕ} (hm : m.term = term) (hlt : n.currentTerm < term) :
    n.Performs c b [] (n.becomeFollower term) :=
  follow_performs term (.inr ⟨v, m, hinput, hm⟩) (.inl hlt)

/-! ## Commitment -/

theorem stepDownIfRemoved_acts (n : Node) (m : MembershipConfig) :
    n.Acts c b [] (n.stepDownIfRemoved m) := by
  unfold stepDownIfRemoved
  split_ifs with h
  · exact (stepDown_performs (by simp [h.1])).toActs
  · exact .refl n

theorem isPlain_dispatchEntry (n : Node) (index : ℕ) (entry : LogEntry) :
    ∀ x ∈ (n.dispatchEntry index entry).outputs, x.isPlain := by
  unfold dispatchEntry
  rcases entry with ⟨term, _ | _ | _⟩ <;> simp [Output.isPlain]

theorem emitEntry_acts (n : Node) (entry : LogEntry) (hlt : n.dispatchedIndex < n.commitIndex)
    (hentry : n.entryAt (n.dispatchedIndex + 1) = some entry) :
    n.Acts c b [] (n.emitEntry (n.dispatchedIndex + 1) entry) := by
  have hdispatch : ∀ {b}, n.Acts c b [] _ :=
    (Act.dispatch n entry hlt hentry).acts (by rw [dispatchEntry_node]; rfl)
      (isPlain_dispatchEntry _ _ _)
  unfold emitEntry
  dsimp only
  unfold dispatchEntry at hdispatch
  dsimp only at hdispatch
  cases hkind : entry.kind with
  | application | noop => simpa only [hkind] using hdispatch (b := b)
  | configuration configuration =>
    simp only [hkind] at hdispatch
    exact hdispatch.then (stepDownIfRemoved_acts _ _)

theorem emitLoop_acts (fuel : ℕ) (n : Node) : n.Acts c b [] (emitLoop fuel n) := by
  induction fuel generalizing n with
  | zero => exact .refl n
  | succ fuel ih =>
    rw [emitLoop]
    split_ifs with hlt
    · cases hentry : n.entryAt (n.dispatchedIndex + 1) with
      | none => exact .refl n
      | some entry => exact (n.emitEntry_acts entry hlt hentry).then (ih _)
    · exact .refl n

theorem emitCommittedOutputs_acts (n : Node) : n.Acts c b [] n.emitCommittedOutputs :=
  emitLoop_acts _ n

theorem emitEntry_cursor (n : Node) (index : ℕ) (entry : LogEntry) :
    (n.emitEntry index entry).node.commitIndex = n.commitIndex ∧
      (n.emitEntry index entry).node.dispatchedIndex = index := by
  obtain ⟨tracker, hnode | ⟨-, hnode⟩⟩ := n.emitEntry_node index entry
  · rw [hnode]
    exact ⟨rfl, rfl⟩
  · rw [hnode]
    exact ⟨rfl, rfl⟩

theorem EmitKeeps.entryAt (h : n.EmitKeeps n') (k : ℕ) : n'.entryAt k = n.entryAt k := by
  unfold Node.entryAt firstRetainedLogIndex snapshotIndex
  rw [h.log, h.snapshot]

/-- Dispatch gives nobody an office. -/
theorem emitLoop_role_ne (fuel : ℕ) (hrole : n.role ≠ .leader) :
    (emitLoop fuel n).node.role ≠ .leader :=
  fun h => hrole ((emitLoop_keeps fuel n).office h)

/-- On a sound node the loop finds every entry up to the commit index. -/
theorem emitLoop_settled {n : Node} (hn : n.Sound) {fuel : ℕ}
    (hfuel : n.commitIndex - n.dispatchedIndex ≤ fuel) :
    (emitLoop fuel n).node.commitIndex ≤ (emitLoop fuel n).node.dispatchedIndex := by
  induction fuel generalizing n with
  | zero =>
    rw [emitLoop]
    show n.commitIndex ≤ n.dispatchedIndex
    omega
  | succ fuel ih =>
    rw [emitLoop]
    split_ifs with hlt
    · have hsome : (n.entryAt (n.dispatchedIndex + 1)).isSome :=
        isSome_entryAt.2 ⟨Nat.lt_succ_of_le hn.snapshot_le, hlt.trans_le hn.commit_le⟩
      cases hentry : n.entryAt (n.dispatchedIndex + 1) with
      | none => simp [hentry] at hsome
      | some entry =>
        obtain ⟨hcommit, hdispatched⟩ := n.emitEntry_cursor (n.dispatchedIndex + 1) entry
        have hsound := (n.emitEntry_acts (c := ⟨n, none⟩) (b := false) entry hlt hentry).sound hn
        exact ih hsound (by omega)
    · show n.commitIndex ≤ n.dispatchedIndex
      omega

/-- Raise the commit index and emit. -/
theorem commit_acts (n : Node) (k : ℕ) (hk : n.commitIndex ≤ k)
    (hle : k ≤ max n.commitIndex n.lastLogIndex) :
    n.Acts c b [] (emitCommittedOutputs { n with volatile.commitIndex := k }) := by
  have hdeed : Deed c n [] { n with volatile.commitIndex := k } :=
    ⟨.commit n k hk hle, .of_eq rfl, .inr ⟨rfl, .inl rfl⟩, fun _ _ => .inr (.of_eq rfl rfl),
      .of_eq rfl rfl, by simp⟩
  have hemit := emitCommittedOutputs_acts (c := c) (b := false) { n with volatile.commitIndex := k }
  have hframes := hemit.silent rfl
  obtain ⟨trace, hpath, hrequests, houtputs⟩ := hemit.path
  refine ⟨⟨_, .head hdeed hpath, hrequests, houtputs⟩, fun hn =>
    .inr (emitLoop_settled (hdeed.act.move.sound hn) le_rfl), fun _ => hframes, ?_⟩
  intro _ frame hmem
  rw [hframes] at hmem
  cases hmem

theorem advanceCommitIndex_acts (n : Node) : n.Acts c b [] n.advanceCommitIndex := by
  refine .of_left n.reconcile_performs.toActs ?_
  unfold advanceCommitIndex
  dsimp only
  generalize n.reconcileReplicationProgress = n'
  cases quorumReplicatedIndex n'.leader.progress with
  | none => exact .refl n'
  | some candidate =>
    dsimp only
    split_ifs with hle hterm
    · exact .refl n'
    · exact .refl n'
    · have hlast := (isSome_termAt.1 (by rw [not_not.1 hterm]; rfl)).2
      exact n'.commit_acts candidate (not_le.1 hle).le (hlast.trans (le_max_right _ _))

/-- The loop moves the cursor and empties the tracker, or ends an office. -/
theorem emitLoop_cases (fuel : ℕ) (n : Node) :
    (∃ cursor tracker, (emitLoop fuel n).node = { n with
      volatile.dispatchedIndex := cursor
      volatile.localProposals := tracker }) ∨ (emitLoop fuel n).node.role ≠ .leader := by
  induction fuel generalizing n with
  | zero => exact .inl ⟨n.dispatchedIndex, n.volatile.localProposals, rfl⟩
  | succ fuel ih =>
    have hsame : ∃ cursor tracker, n = { n with
        volatile.dispatchedIndex := cursor
        volatile.localProposals := tracker } := ⟨n.dispatchedIndex, n.volatile.localProposals, rfl⟩
    rw [emitLoop]
    split_ifs
    · cases n.entryAt (n.dispatchedIndex + 1) with
      | none => exact .inl hsame
      | some entry =>
        dsimp only
        rw [Outcome.andThen_node]
        obtain ⟨tracker, hnode | ⟨-, hnode⟩⟩ := n.emitEntry_node (n.dispatchedIndex + 1) entry
        · rw [hnode]
          exact ih _
        · rw [hnode]
          exact .inr (emitLoop_role_ne fuel fun h => (by cases h))
    · exact .inl hsame

theorem advanceCommitIndex_settled (hn : n.Bounded) (hrole : n.role = .leader)
    (halone : n.Alone → n.dispatchedIndex = n.lastLogIndex ∨
      n.commitIndex < n.lastLogIndex ∧ n.termAt n.lastLogIndex = some n.currentTerm) :
    n.advanceCommitIndex.node.Settled := by
  obtain ⟨i, hi, heq⟩ := exists_candidate hn hrole
  have hacts := n.advanceCommitIndex_acts (c := ⟨n, none⟩) (b := false)
  have hsettles := hacts.settles hn.sound
  have hsound := (hacts.sound hn.sound).dispatched_le
  rw [heq] at hsettles hsound ⊢
  by_cases hcommit : n.commitIndex < i ∧ n.termAt i = some n.currentTerm
  · rw [if_pos hcommit] at hsettles hsound ⊢
    intro hleader
    obtain ⟨progress, hp⟩ := n.reconcileReplicationProgress_node
    rcases emitLoop_cases _ _ with ⟨cursor, tracker, hnode⟩ | hdeposed
    · rw [emitCommittedOutputs, hnode] at hsettles hsound ⊢
      refine ⟨fun j hj _ => ?_, fun hself => ?_⟩
      · -- a higher candidate would have been one before
        show j ≤ i
        by_contra hlt
        rw [not_le] at hlt
        have hreached := (n.still_reconcile.reached (hcommit.1.trans hlt)).1 hj.1
        exact absurd (hi.2 hreached) (not_le.2 hlt)
      · rw [hp] at hself hsettles hsound ⊢
        have hlast : i = n.lastLogIndex := Alone.candidate (n := n) hself hi
        have hcursor : i ≤ cursor := by
          rcases hsettles with ⟨hsame, -⟩ | hle
          · exact absurd hsame hcommit.1.ne'
          · exact hle
        have hle : cursor ≤ i := hsound
        show cursor = n.lastLogIndex
        omega
    · exact absurd hleader hdeposed
  · rw [if_neg hcommit]
    refine n.still_reconcile.settled fun _ => ⟨fun j hj hterm => ?_, fun hself => ?_⟩
    · obtain rfl := hj.unique hi
      by_contra hlt
      exact hcommit ⟨not_le.1 hlt, hterm⟩
    · rcases halone hself with hdone | hpending
      · exact hdone
      · rw [← hself.candidate hi] at hpending
        exact absurd hpending hcommit

theorem advanceCommitIndex_performs (hrole : n.role = .leader) :
    n.Performs c b [] n.advanceCommitIndex :=
  ⟨n.advanceCommitIndex_acts, fun _ _ _ hI _ hn => hn.advanceCommitIndex hI, fun hn hs =>
    advanceCommitIndex_settled hn hrole fun halone => .inl ((hs hrole).2 halone)⟩

/-! ## Appended entries -/

theorem record_performs (hrole : n.role = .leader) :
    n.Performs c b [] ⟨n.recordLocalProgress, []⟩ := by
  obtain ⟨progress, hp⟩ := n.recordLocalProgress_node
  refine ⟨(Act.record n).idle (by rw [hp]; rfl), fun _ _ _ hI _ hn => ?_,
    fun _ hs => n.still_record.settled hs⟩
  obtain ⟨s', hs, -, hn'⟩ := hn.recordLocalProgress hI hrole
  exact ⟨s', hs, hn', by simp⟩

theorem replicateAppended_performs (hrole : n.role = .leader) (demand : ReplicationDemand) :
    n.Performs c true [] (n.replicateAppended demand) := by
  obtain ⟨progress, hp⟩ := n.recordLocalProgress_node
  refine .of_left (record_performs hrole) ?_
  refine (advanceCommitIndex_performs (by rw [hp]; exact hrole)).then ?_
  split_ifs
  · exact broadcastReplication_performs _ demand
  · exact .refl _

/-- The log ends with an uncommitted entry of the node's term. -/
def Fresh (n : Node) : Prop :=
  n.commitIndex < n.lastLogIndex ∧ n.termAt n.lastLogIndex = some n.currentTerm

theorem lastLogIndex_appendLogEntry (n : Node) (e : LogEntry) :
    (n.appendLogEntry e).lastLogIndex = n.lastLogIndex + 1 := by
  unfold lastLogIndex appendLogEntry
  dsimp only
  rw [List.length_append]
  rfl

theorem entryAt_lastLogIndex_succ (n : Node) (e : LogEntry) :
    (n.appendLogEntry e).entryAt (n.lastLogIndex + 1) = some e := by
  show (if n.lastLogIndex + 1 ≤ n.snapshotIndex then none
    else (n.persistent.log ++ [e])[n.lastLogIndex + 1 - n.firstRetainedLogIndex]?) = some e
  have hoffset : n.lastLogIndex + 1 - n.firstRetainedLogIndex = n.persistent.log.length := by
    unfold lastLogIndex firstRetainedLogIndex
    omega
  rw [if_neg (by unfold lastLogIndex; omega), hoffset, List.getElem?_concat_length]

theorem fresh_appendLogEntry (hn : n.Sound) {e : LogEntry} (he : e.term = n.currentTerm) :
    (n.appendLogEntry e).Fresh := by
  have hs : (n.appendLogEntry e).snapshotIndex < n.lastLogIndex + 1 :=
    Nat.lt_succ_of_le ((hn.snapshot_le.trans hn.dispatched_le).trans hn.commit_le)
  unfold Fresh
  rw [lastLogIndex_appendLogEntry]
  refine ⟨Nat.lt_succ_of_le hn.commit_le, ?_⟩
  rw [termAt_of_lt hs, entryAt_lastLogIndex_succ]
  exact congrArg some he

theorem fresh_appendProposal (hn : n.Sound) (p : ClientProposalInput) :
    (n.appendProposal p).node.Fresh := by
  have hfresh := fresh_appendLogEntry hn
    (e := { term := n.currentTerm, kind := .application p.payload }) rfl
  unfold appendProposal
  cases p.proposalId with
  | none => exact hfresh
  | some id => exact hfresh

/-- A leader settles after it has appended an entry of its term. -/
theorem replicateAppended_settled (hn : n.Bounded) (hrole : n.role = .leader) (hfresh : n.Fresh)
    (demand : ReplicationDemand) : (n.replicateAppended demand).node.Settled := by
  have hm := (record_performs (c := ⟨n, none⟩) (b := false) hrole).bounded hn
  obtain ⟨progress, hp⟩ := n.recordLocalProgress_node
  have hsettled : n.recordLocalProgress.advanceCommitIndex.node.Settled := by
    refine advanceCommitIndex_settled hm (by rw [hp]; exact hrole) fun _ => .inr ?_
    rw [hp]
    exact hfresh
  have hbounded := (advanceCommitIndex_acts (c := ⟨n, none⟩) (b := false) _).bounded hm
  unfold replicateAppended
  rw [Outcome.andThen_node]
  split_ifs
  · exact (broadcastReplication_performs (c := ⟨n, none⟩) _ demand).rests hbounded hsettled
  · exact hsettled

/-- A leader appends entries of its term. -/
structure Appends (n : Node) (c : Occasion) (requests : List Request) (o : Outcome) : Prop
    extends Acts n c false requests o where
  refines : n.Refines c o
  role : o.node.role = .leader
  fresh : n.Sound → o.node.Fresh

theorem Appends.replicate {o : Outcome} {rs : List Request} (h : n.Appends c rs o)
    (demand : ReplicationDemand) :
    n.Performs c true rs (o.andThen (·.replicateAppended demand)) := by
  have hreplicate := replicateAppended_performs (c := c) h.role demand
  refine ⟨h.toActs.then (f := (·.replicateAppended demand)) hreplicate.toActs,
    h.refines.andThen (f := (·.replicateAppended demand)) hreplicate.refines, fun hn _ => ?_⟩
  rw [Outcome.andThen_node]
  exact replicateAppended_settled (h.bounded hn) h.role (h.fresh hn.sound) demand

/-! ## Client proposals -/

theorem refuse_performs (n : Node) (p : ClientProposalInput) (reason : ProposalRejection) :
    n.Performs c b [.propose p] ⟨n, [.rejectProposal p.proposalId reason]⟩ :=
  Acts.performs_of_core (.single (.refuse n p reason) rfl
    (by simp [List.filterMap_cons, Output.isPlain])) rfl (by simp [Output.isIdle])

theorem appendProposal_acts (n : Node) (p : ClientProposalInput) (hr : n.role = .leader) :
    n.Acts c b [.propose p] (n.appendProposal p) := by
  have h := Acts.gaining (c := c) (b := b) (.propose n p hr)
    (by rcases p with ⟨_ | id, payload⟩ <;> rfl)
    (by rcases p with ⟨_ | id, payload⟩ <;> exact .append rfl rfl fun _ h => (by cases h))
    (by rcases p with ⟨_ | id, payload⟩ <;>
      simp [List.filterMap_cons, appendProposal, Output.isPlain])
  simpa [List.filterMap_cons] using h

theorem appendProposal_refines (p : ClientProposalInput) (hrole : n.role = .leader) :
    n.Refines c (n.appendProposal p) :=
  fun _ _ _ hI _ hn => hn.appendProposal hI hrole p

theorem stepClientProposal_performs (n : Node) (p : ClientProposalInput) :
    n.Performs c true [.propose p] (n.stepClientProposal p) := by
  unfold stepClientProposal
  dsimp only
  cases hpre : n.proposalPreflightRejection p.payload.length with
  | some reason => exact n.refuse_performs p reason
  | none =>
    have hr : n.role = .leader := by
      by_contra hr
      simp [proposalPreflightRejection, hr] at hpre
    have happend : n.Appends c [.propose p] (n.appendProposal p) :=
      ⟨n.appendProposal_acts p hr, appendProposal_refines p hr, (n.appendProposal_role p).trans hr,
        fun hn => fresh_appendProposal hn p⟩
    dsimp only
    split_ifs
    · exact n.refuse_performs p _
    · exact happend.replicate _

theorem refuseAll_performs (n : Node) (reason : ClientProposalInput → ProposalRejection)
    (ps : List ClientProposalInput) : n.Performs c b (ps.map .propose)
      ⟨n, ps.map fun p => .rejectProposal p.proposalId (reason p)⟩ := by
  induction ps with
  | nil => exact .refl n
  | cons p ps ih => exact (n.refuse_performs p (reason p)).andThen (f := fun _ => ⟨n, _⟩) ih

theorem appendProposals_role (n : Node) (ps : List ClientProposalInput) :
    (n.appendProposals ps).1.node.role = n.role := by
  induction ps generalizing n with
  | nil => rfl
  | cons p ps ih =>
    rw [appendProposals]
    dsimp only
    split_ifs
    · exact ih n
    · exact (ih _).trans (n.appendProposal_role p)

/-- A batch without an accepted proposal leaves the node. -/
theorem appendProposals_node_of_refused {ps : List ClientProposalInput}
    (h : (n.appendProposals ps).2 = false) : (n.appendProposals ps).1.node = n := by
  induction ps with
  | nil => rfl
  | cons p ps ih =>
    rw [appendProposals] at h ⊢
    dsimp only at h ⊢
    split_ifs at h ⊢
    exact ih h

theorem appendProposals_acts (ps : List ClientProposalInput) (n : Node) (hr : n.role = .leader) :
    n.Acts c b (ps.map .propose) (n.appendProposals ps).1 ∧
      n.Refines c (n.appendProposals ps).1 := by
  induction ps generalizing n with
  | nil => exact ⟨.refl n, .refl n⟩
  | cons p ps ih =>
    rw [appendProposals]
    dsimp only
    split_ifs
    · have hrefuse := n.refuse_performs (c := c) (b := false) p (.payloadTooLarge p.payload.length
        (LogEntry.maxApplicationPayloadLen n.config.maxAppendEntriesBytes))
      obtain ⟨hacts, hrefines⟩ := ih n hr
      exact ⟨hrefuse.toActs.andThen (f := fun _ => (n.appendProposals ps).1) hacts,
        hrefuse.refines.andThen (f := fun _ => (n.appendProposals ps).1) hrefines⟩
    · obtain ⟨hacts, hrefines⟩ := ih _ ((n.appendProposal_role p).trans hr)
      exact ⟨(n.appendProposal_acts p hr).andThen (f := fun n' => (n'.appendProposals ps).1) hacts,
        (appendProposal_refines p hr).andThen (f := fun n' => (n'.appendProposals ps).1) hrefines⟩

/-- The log of a batch ends with its last accepted proposal. -/
theorem fresh_appendProposals (ps : List ClientProposalInput) (hn : n.Sound)
    (hrole : n.role = .leader) (h : n.Fresh ∨ (n.appendProposals ps).2 = true) :
    (n.appendProposals ps).1.node.Fresh := by
  induction ps generalizing n with
  | nil =>
    rcases h with hfresh | haccepted
    · exact hfresh
    · cases haccepted
  | cons p ps ih =>
    rw [appendProposals] at h ⊢
    dsimp only at h ⊢
    split_ifs at h ⊢
    · exact ih hn hrole h
    · have happend := n.appendProposal_acts (c := ⟨n, none⟩) (b := false) p hrole
      exact ih (happend.sound hn) (by rw [appendProposal_role, hrole])
        (.inl (fresh_appendProposal hn p))

theorem stepProposalBatch_performs (n : Node) (ps : List ClientProposalInput) :
    n.Performs c true (ps.map .propose) (n.stepProposalBatch ps) := by
  match ps with
  | [] => exact .refl n
  | [p] => exact n.stepClientProposal_performs p
  | p :: q :: rest =>
    rw [stepProposalBatch, proposalBatchPreflightRejection]
    · generalize p :: q :: rest = ps
      by_cases hr : n.role = .leader
      · rw [if_neg (not_not.2 hr)]
        cases n.leader.pendingTransfer with
        | some transfer =>
          exact n.refuseAll_performs (fun _ => .leadershipTransferInProgress transfer.target) ps
        | none =>
          dsimp only [Option.map_none]
          split_ifs with haccepted
          · obtain ⟨hacts, hrefines⟩ := appendProposals_acts (c := c) ps n hr
            have happend : n.Appends c (ps.map .propose) (n.appendProposals ps).1 :=
              ⟨hacts, hrefines, (n.appendProposals_role ps).trans hr,
                fun hn => fresh_appendProposals ps hn hr (.inr haccepted)⟩
            exact happend.replicate _
          · obtain ⟨hacts, hrefines⟩ := appendProposals_acts (c := c) ps n hr
            refine ⟨hacts, hrefines, fun _ hs => ?_⟩
            rw [appendProposals_node_of_refused (by simpa using haccepted)]
            exact hs
      · rw [if_pos hr]
        exact n.refuseAll_performs (fun p => .notLeader n.role n.currentTerm p.payload.length) ps
    · simp
    · simp

/-! ## Configuration proposals -/

variable {input : Option Input}

variable {configuration : ConfigurationEntry} {barriers : List PromotionBarrier}

/-- A derived configuration that passes the promotion check is cleared. -/
theorem Derived.cleared (hd : n.Derived configuration)
    (hok : n.validateConfigurationPromotionBarriers configuration barriers = .ok ()) :
    n.Cleared configuration := by
  intro v hv hnew
  cases hd with
  | learners he hvoters =>
    refine absurd ?_ hnew
    rw [he]
    simpa [ConfigurationEntry.membershipConfig, MembershipConfig.containsVoter, hvoters] using hv
  | leave he =>
    refine absurd ?_ hnew
    rw [he]
    simp only [ConfigurationEntry.membershipConfig, MembershipConfig.containsVoter] at hv ⊢
    simp [hv]
  | @enter current target he =>
    have hsides : v ∈ current.voters ∨ v ∈ target.voters := by
      simpa [ConfigurationEntry.membershipConfig, MembershipConfig.containsVoter] using hv
    rcases hsides with hold | hpromoted
    · exact absurd (by simpa [he, MembershipConfig.containsVoter] using hold) hnew
    · exact (promotions_ok hok v hpromoted).resolve_left hnew

/-- A configuration that a command derives is a successor of the present one. -/
theorem configure_appends (hpre : n.validateConfigurationProposalPreflight = .ok ())
    (hd : Occasion.raw ⟨n, input⟩ ∨ n.Derived configuration)
    (hok : n.validateConfigurationPromotionBarriers configuration barriers = .ok ()) :
    n.Appends ⟨n, input⟩ [] ⟨n.appendLogEntry
      { term := n.currentTerm, kind := .configuration configuration }, []⟩ := by
  obtain ⟨hr, hu⟩ := preflight_ok hpre
  have hacts := Acts.gaining (c := ⟨n, input⟩) (b := false) (.configure n configuration hr) rfl
    (.append rfl rfl fun _ h => Option.some_inj.1 h ▸ hd.imp_right (·.cleared hok)) (by simp)
  refine ⟨hacts, fun initial i s hI hc hn => ?_, hr, fun hn => fresh_appendLogEntry hn rfl⟩
  obtain ⟨s', hs, h'⟩ := hn.append hI hr
    (e := { term := n.currentTerm, kind := .configuration configuration })
    { term := rfl
      next := by
        rintro cfg ⟨⟩
        exact (hd.resolve_left hc.not_raw).next hn.rep hok
      committed := fun _ => hn.rep.not_configuration_of_uncommitted_nil hu }
  exact ⟨s', hs, h', by simp⟩

theorem proposeConfiguration_performs (n : Node) (barriers : List PromotionBarrier)
    (derive : Except ConfigurationProposalRejection ConfigurationEntry)
    (hd : ∀ configuration, derive = .ok configuration →
      Occasion.raw ⟨n, input⟩ ∨ n.Derived configuration) :
    n.Performs ⟨n, input⟩ true [] (n.proposeConfiguration barriers derive) := by
  have hreject : ∀ rejection, n.Performs ⟨n, input⟩ true [] (n.rejectConfiguration rejection) :=
    fun rejection => n.emit_performs rfl trivial trivial
  unfold proposeConfiguration
  cases hpre : n.validateConfigurationProposalPreflight with
  | error rejection => exact n.emit_performs rfl trivial trivial
  | ok _ =>
    cases hderive : derive with
    | error rejection => exact hreject rejection
    | ok configuration =>
      dsimp only
      unfold appendValidConfigurationProposal
      cases hok : n.validateConfigurationPromotionBarriers configuration barriers with
      | error rejection => exact hreject rejection
      | ok _ =>
        have happend := (configure_appends hpre (hd configuration hderive) hok).replicate
          .ensureContact
        rwa [Outcome.nil_andThen] at happend

theorem addLearner_performs (n : Node) (learner : NodeId) : n.Performs ⟨n, input⟩ true []
    (n.addLearner learner) := by
  refine n.proposeConfiguration_performs _ _ fun configuration hok => .inr ?_
  obtain ⟨current, hcur, hok⟩ := Bootstrap.bind_ok hok
  have he := Node.stableEffectiveMembership_ok hcur
  obtain ⟨-, hok⟩ := guard_ok hok
  obtain ⟨target, htarget, hok⟩ := Bootstrap.bind_ok hok
  obtain rfl := Except.ok.inj hok
  have hnew := MembershipSet.new_ok_iff.1 (validatedDerivedMembership_ok htarget)
  exact .learners he (by rw [hnew.1, current.insertionSort_voters])

theorem promoteLearner_performs (n : Node) (learner : NodeId) (barrier : PromotionBarrier) :
    n.Performs ⟨n, input⟩ true [] (n.promoteLearner learner barrier) := by
  refine n.proposeConfiguration_performs _ _ fun configuration hok => .inr ?_
  obtain ⟨current, hcur, hok⟩ := Bootstrap.bind_ok hok
  obtain ⟨-, hok⟩ := guard_ok hok
  obtain ⟨target, -, hok⟩ := Bootstrap.bind_ok hok
  obtain rfl := Except.ok.inj hok
  exact .enter (Node.stableEffectiveMembership_ok hcur)

theorem removeVoter_performs (n : Node) (voter : NodeId) : n.Performs ⟨n, input⟩ true []
    (n.removeVoter voter) := by
  refine n.proposeConfiguration_performs _ _ fun configuration hok => .inr ?_
  obtain ⟨current, hcur, hok⟩ := Bootstrap.bind_ok hok
  obtain ⟨-, hok⟩ := guard_ok hok
  obtain ⟨-, hok⟩ := guard_ok hok
  obtain ⟨target, -, hok⟩ := Bootstrap.bind_ok hok
  obtain rfl := Except.ok.inj hok
  exact .enter (Node.stableEffectiveMembership_ok hcur)

theorem enterJoint_performs (n : Node) (target : MembershipSet) (barriers : List PromotionBarrier) :
    n.Performs ⟨n, input⟩ true [] (n.enterJoint target barriers) := by
  refine n.proposeConfiguration_performs _ _ fun configuration hok => .inr ?_
  obtain ⟨current, hcur, hok⟩ := Bootstrap.bind_ok hok
  obtain ⟨-, hok⟩ := guard_ok hok
  obtain rfl := Except.ok.inj hok
  exact .enter (Node.stableEffectiveMembership_ok hcur)

theorem leaveJoint_performs (n : Node) : n.Performs ⟨n, input⟩ true [] n.leaveJoint := by
  refine n.proposeConfiguration_performs _ _ fun configuration hok => .inr ?_
  split at hok
  · rename_i joint he
    obtain rfl := Except.ok.inj hok
    exact .leave he
  · simp at hok

theorem changeMembership_performs (n : Node) (target : MembershipSet)
    (barriers : List PromotionBarrier) :
    n.Performs ⟨n, input⟩ true [] (n.changeMembership target barriers) := by
  refine n.proposeConfiguration_performs _ _ fun configuration hok => .inr ?_
  split at hok
  · rename_i current he
    split_ifs at hok with hsame hvoters
    · obtain rfl := Except.ok.inj hok
      exact .learners he hvoters.symm
    · obtain rfl := Except.ok.inj hok
      exact .enter he
  · rename_i joint he
    split_ifs at hok with hnew
    obtain rfl := Except.ok.inj hok
    rw [hnew]
    exact .leave he

end Node

end Rafter
