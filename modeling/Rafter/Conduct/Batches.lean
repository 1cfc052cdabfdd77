import Rafter.Conduct.Compaction
import Rafter.Conduct.Proposals
import Rafter.Conduct.Rest

/-!
# Batched proposals against sequential ones

A batch appends all its proposals before it commits and replicates; stepping the proposals one by
one commits and replicates after each. At rest the two come to the same: a leader that needs others
has nothing to commit after its own appends, and a leader that is a quorum by itself commits and
applies exactly what it appended.

Results:

* `Node.batch_agrees_with_steps`: batches and steps agree from every node that inputs reach.
-/

namespace Rafter

open Protocol

/-! ## Proposals and their outputs -/

/-- The input that makes the proposal. -/
def ClientProposalInput.input (p : ClientProposalInput) : Input :=
  match p.proposalId with
  | none => .clientProposal p.payload
  | some id => .trackedClientProposal id p.payload

/-- What a proposal is told when it is made. -/
def Output.isVerdict : Output → Bool
  | .rejectProposal _ _ | .localProposalAppended _ _ _ => true
  | _ => false

/-- What commitment hands to the application. -/
def Output.isCommitted : Output → Bool
  | .apply _ _ _ _ | .configurationCommitted _ _ _ _ => true
  | _ => false

namespace Node

variable {c : Occasion} {n n' : Node}
variable {i k : ℕ} {ps : List ClientProposalInput}

theorem step_input (n : Node) (p : ClientProposalInput) :
    n.step p.input = n.stepClientProposal p := by
  rcases p with ⟨_ | id, payload⟩ <;> rfl

/-- The entries of accepted proposals. -/
def proposalEntries (term : ℕ) (ps : List ClientProposalInput) : List LogEntry :=
  ps.map fun p => { term := term, kind := .application p.payload }

/-- The tracker entries of accepted proposals, the first at `index`. -/
def trackedProposals (term : ℕ) : ℕ → List ClientProposalInput → LocalProposalTracker
  | _, [] => []
  | index, p :: ps =>
    match p.proposalId with
    | none => trackedProposals term (index + 1) ps
    | some id => (index, { term := term, id := id }) :: trackedProposals term (index + 1) ps

/-- The outputs that apply accepted proposals, the first at `index`. -/
def appliedProposals (term : ℕ) : ℕ → List ClientProposalInput → List Output
  | _, [] => []
  | index, p :: ps =>
    .apply index term p.payload p.proposalId :: appliedProposals term (index + 1) ps

theorem le_of_mem_trackedProposals {term index : ℕ} {e : ℕ × LocalProposal}
    (h : e ∈ trackedProposals term index ps) : index ≤ e.1 := by
  induction ps generalizing index with
  | nil => cases h
  | cons p ps ih =>
    rw [trackedProposals] at h
    split at h
    · exact (Nat.le_succ _).trans (ih h)
    · rcases List.mem_cons.1 h with rfl | h
      · exact le_rfl
      · exact (Nat.le_succ _).trans (ih h)

theorem trackedProposals_append (term : ℕ) (ps qs : List ClientProposalInput) (index : ℕ) :
    trackedProposals term index (ps ++ qs) =
      trackedProposals term index ps ++ trackedProposals term (index + ps.length) qs := by
  induction ps generalizing index with
  | nil => rfl
  | cons p ps ih =>
    rw [List.cons_append, trackedProposals, trackedProposals, ih, List.length_cons,
      show index + 1 + ps.length = index + (ps.length + 1) by omega]
    split <;> rfl

/-- The entry at the cursor is the first of the proposals: it is applied, and its tracker entry, if
it has one, is the first. -/
theorem emitEntry_application {p : ClientProposalInput} {term : ℕ}
    (htracker : n.volatile.localProposals = trackedProposals term (n.dispatchedIndex + 1)
      (p :: ps)) :
    n.emitEntry (n.dispatchedIndex + 1) { term := term, kind := .application p.payload } =
      ⟨{ n with
          volatile.dispatchedIndex := n.dispatchedIndex + 1
          volatile.localProposals := trackedProposals term (n.dispatchedIndex + 1 + 1) ps },
        [.apply (n.dispatchedIndex + 1) term p.payload p.proposalId]⟩ := by
  rw [trackedProposals] at htracker
  unfold emitEntry
  rw [htracker]
  cases p.proposalId with
  | none =>
    dsimp only
    rw [LocalProposalTracker.remove_of_lt fun e he => le_of_mem_trackedProposals he]
    rfl
  | some id =>
    dsimp only
    rw [LocalProposalTracker.remove_cons]
    simp

theorem emitLoop_applications (term : ℕ) (ps : List ClientProposalInput) (n : Node)
    (hcommit : n.commitIndex = n.dispatchedIndex + ps.length)
    (hentry : ∀ k p, ps[k]? = some p → n.entryAt (n.dispatchedIndex + 1 + k) =
      some { term := term, kind := .application p.payload })
    (htracker : n.volatile.localProposals = trackedProposals term (n.dispatchedIndex + 1) ps) :
    emitLoop ps.length n =
      ⟨{ n with
          volatile.dispatchedIndex := n.dispatchedIndex + ps.length
          volatile.localProposals := [] },
        appliedProposals term (n.dispatchedIndex + 1) ps⟩ := by
  induction ps generalizing n with
  | nil =>
    have hnil : n.volatile.localProposals = [] := htracker
    rw [List.length_nil, emitLoop, appliedProposals, ← hnil]
    rfl
  | cons p ps ih =>
    have hfirst := hentry 0 p rfl
    rw [List.length_cons] at hcommit
    rw [List.length_cons, emitLoop, if_pos (by omega), show n.dispatchedIndex + 1 =
      n.dispatchedIndex + 1 + 0 from rfl, hfirst]
    dsimp only
    rw [Nat.add_zero, emitEntry_application htracker, Outcome.andThen]
    dsimp only
    rw [ih { n with
      volatile.dispatchedIndex := n.dispatchedIndex + 1
      volatile.localProposals := trackedProposals term (n.dispatchedIndex + 1 + 1) ps } ?_ ?_ rfl]
    · rw [appliedProposals, show n.dispatchedIndex + (ps.length + 1) =
        n.dispatchedIndex + 1 + ps.length by omega]
      rfl
    · show n.commitIndex = n.dispatchedIndex + 1 + ps.length
      omega
    · intro k q hq
      have hnext := hentry (k + 1) q hq
      rw [show n.dispatchedIndex + 1 + (k + 1) = n.dispatchedIndex + 1 + 1 + k by omega] at hnext
      exact hnext

/-! ## Appended proposals -/

/-- The node with accepted proposals in its log and its tracker. -/
def extended (n : Node) (ps : List ClientProposalInput) : Node :=
  { n with
    persistent.log := n.persistent.log ++ proposalEntries n.currentTerm ps
    volatile.localProposals := n.volatile.localProposals ++
      trackedProposals n.currentTerm (n.lastLogIndex + 1) ps }

theorem lastLogIndex_extended (n : Node) (ps : List ClientProposalInput) :
    (n.extended ps).lastLogIndex = n.lastLogIndex + ps.length := by
  unfold lastLogIndex extended proposalEntries
  dsimp only
  rw [List.length_append, List.length_map, ← Nat.add_assoc]
  rfl

theorem extended_append (n : Node) (ps qs : List ClientProposalInput) :
    (n.extended ps).extended qs = n.extended (ps ++ qs) := by
  have hlast := n.lastLogIndex_extended ps
  have hlog : n.persistent.log ++ proposalEntries n.currentTerm ps ++
      proposalEntries n.currentTerm qs =
        n.persistent.log ++ proposalEntries n.currentTerm (ps ++ qs) := by
    rw [proposalEntries, proposalEntries, proposalEntries, List.map_append, List.append_assoc]
  have htracker : n.volatile.localProposals ++
      trackedProposals n.currentTerm (n.lastLogIndex + 1) ps ++
        trackedProposals n.currentTerm ((n.extended ps).lastLogIndex + 1) qs =
      n.volatile.localProposals ++
        trackedProposals n.currentTerm (n.lastLogIndex + 1) (ps ++ qs) := by
    rw [trackedProposals_append, List.append_assoc, hlast, Nat.add_right_comm]
  unfold extended at htracker ⊢
  dsimp only at htracker ⊢
  rw [← hlog, ← htracker]
  rfl

/-- The verdict on an accepted proposal. -/
theorem appendProposal_eq (ht : n.Tracks) (p : ClientProposalInput) :
    n.appendProposal p = ⟨n.extended [p], (n.appendProposal p).outputs⟩ := by
  rcases p with ⟨_ | id, payload⟩
  · unfold appendProposal extended
    dsimp only
    rw [trackedProposals]
    dsimp only
    rw [trackedProposals, List.append_nil]
    rfl
  · have htracker := localProposals_appendProposal ht id payload
    unfold appendProposal extended at *
    dsimp only at htracker ⊢
    rw [htracker]
    rfl

/-- The tracker of a sound node stays one of its log. -/
theorem Conducts.tracks {rs : List Request} {o : Outcome} (h : n.Conducts rs o) (hn : n.Sound)
    (ht : n.Tracks) : o.node.Tracks := by
  obtain ⟨⟨trace, hpath, -, -⟩, -⟩ := h
  have hinvariant : o.node.Sound ∧ o.node.Tracks :=
    hpath.invariant (I := fun n => n.Sound ∧ n.Tracks)
      (fun hmove h => ⟨hmove.sound h.1, (hmove.handles h.2).tracks h.1 h.2⟩) ⟨hn, ht⟩
  exact hinvariant.2

/-- What proposals rely on at rest. -/
structure Ready (n : Node) : Prop where
  bounded : n.Bounded
  settled : n.Settled
  tracks : n.Tracks
  role : n.role = .leader
  transfer : n.leader.pendingTransfer = none

theorem extended_nil (n : Node) : n.extended [] = n := by
  unfold extended
  rw [trackedProposals, List.append_nil]
  show { n with persistent.log := n.persistent.log ++ [] } = n
  rw [List.append_nil]

theorem extended_bounded (ps : List ClientProposalInput) (hn : n.Bounded) (ht : n.Tracks)
    (hrole : n.role = .leader) : (n.extended ps).Bounded ∧ (n.extended ps).Tracks := by
  induction ps generalizing n with
  | nil =>
    rw [extended_nil]
    exact ⟨hn, ht⟩
  | cons p ps ih =>
    have happend := n.appendProposal_acts (c := ⟨n, none⟩) (b := false) p hrole
    have heq := appendProposal_eq ht p
    rw [heq] at happend
    rw [← List.singleton_append, ← extended_append]
    exact ih (happend.bounded hn) (happend.conducts.tracks hn.sound ht) hrole

theorem entryAt_extended (ps : List ClientProposalInput) (hk : k ≤ n.lastLogIndex) :
    (n.extended ps).entryAt k = n.entryAt k :=
  entryAt_append rfl rfl hk

theorem entryAt_extended_new (n : Node) {p : ClientProposalInput} (hp : ps[k]? = some p) :
    (n.extended ps).entryAt (n.lastLogIndex + 1 + k) =
      some { term := n.currentTerm, kind := .application p.payload } := by
  show (if n.lastLogIndex + 1 + k ≤ n.snapshotIndex then none else (n.persistent.log ++
    proposalEntries n.currentTerm ps)[n.lastLogIndex + 1 + k - n.firstRetainedLogIndex]?) = _
  have hoffset : n.lastLogIndex + 1 + k - n.firstRetainedLogIndex
    = n.persistent.log.length + k := by
    unfold lastLogIndex firstRetainedLogIndex
    omega
  rw [if_neg (by unfold lastLogIndex; omega), hoffset, List.getElem?_append_right (by omega),
    Nat.add_sub_cancel_left, proposalEntries, List.getElem?_map, hp]
  rfl

theorem termAt_extended (ps : List ClientProposalInput) (hk : k ≤ n.lastLogIndex) :
    (n.extended ps).termAt k = n.termAt k := by
  have hentry := entryAt_extended ps hk
  unfold termAt
  rw [hentry]
  rfl

/-- Proposals change no membership. -/
theorem effectiveMembership_extended (hn : n.Sound) (ps : List ClientProposalInput) :
    (n.extended ps).effectiveMembership = n.effectiveMembership := by
  have hentry : (n.extended ps).effectiveConfigurationEntry = n.effectiveConfigurationEntry := by
    show n.configuration.getLast?.bind (ConfigurationIndex.entryAt (n.persistent.log ++ _)) =
      n.configuration.getLast?.bind (ConfigurationIndex.entryAt n.persistent.log)
    rw [hn.index]
    cases hlast : (ConfigurationIndex.fromLog n.persistent.log).getLast? with
    | none => rfl
    | some offset =>
      exact ConfigurationIndex.entryAt_append_left
        (ConfigurationIndex.lt_of_mem_fromLog (List.mem_of_getLast? hlast))
  unfold effectiveMembership
  rw [hentry]
  rfl

/-! ## A leader that needs others -/

/-- Without a quorum of its own, nothing is reached that no other replica has reached. -/
theorem le_of_reached_not_alone {m : MembershipConfig} {id : NodeId} {f : NodeId → ℕ} {last : ℕ}
    (halone : ¬ m.hasQuorum [id]) (hf : ∀ v, v ≠ id → f v ≤ last) (h : m.Reached f i) :
    i ≤ last := by
  rw [MembershipConfig.hasQuorum_iff] at halone
  push Not at halone
  obtain ⟨half, hhalf, hself⟩ := halone
  by_contra hlt
  rw [not_le] at hlt
  refine hself (decide_eq_true ?_)
  have hmajority := h half hhalf
  -- above `last` only the node itself counts
  have hle : (half.voters.filter fun v => i ≤ f v).length ≤
      (half.voters.filter (· ∈ [id])).length := by
    refine (List.monotone_filter_right half.voters fun v hv => ?_).length_le
    rw [decide_eq_true_eq] at hv ⊢
    rw [List.mem_singleton]
    by_contra hne
    exact absurd (hv.trans (hf v hne)) (not_le.2 hlt)
  unfold MembershipSet.quorumSize majority
  omega

theorem Bounded.matchIndexOf_le (hn : n.Bounded) (v : NodeId) :
    n.leader.progress.matchIndexOf v ≤ n.lastLogIndex := by
  unfold ProgressSet.matchIndexOf
  cases hrow : n.leader.progress.get v with
  | none => exact Nat.zero_le _
  | some row => exact (hn.rows.rows v row hrow).matched

theorem reached_extended_iff (hn : n.Sound) (ps : List ClientProposalInput)
    (hi : i ≤ n.lastLogIndex) :
    (n.extended ps).effectiveMembership.Reached (n.extended ps).reach i ↔
      n.effectiveMembership.Reached n.reach i := by
  rw [effectiveMembership_extended hn]
  refine MembershipConfig.reached_congr fun v _ => ?_
  have hid : (n.extended ps).id = n.id := rfl
  unfold reach
  rw [lastLogIndex_extended, hid]
  by_cases hself : v = n.id
  · rw [if_pos hself, if_pos hself]
    omega
  · rw [if_neg hself, if_neg hself]
    rfl

/-- Its own appends give a leader that needs others nothing to commit. -/
theorem not_commits_of_not_alone (hn : n.Ready) (halone : ¬ n.Alone) (ps : List ClientProposalInput)
    (hstill : (n.extended ps).Still n') (hi : n'.Candidate i) :
    ¬ (n'.commitIndex < i ∧ n'.termAt i = some n'.currentTerm) := by
  rintro ⟨hlt, hterm⟩
  have hcommit : n'.commitIndex = (n.extended ps).commitIndex :=
    eq_of_standing (f := commitIndex) hstill.standing fun _ => rfl
  have hothers : ∀ v, v ≠ n.id → n.reach v ≤ n.lastLogIndex := by
    intro v hv
    rw [reach, if_neg hv]
    exact hn.bounded.matchIndexOf_le v
  have hothers' : ∀ v, v ≠ n.id → (n.extended ps).reach v ≤ n.lastLogIndex := by
    intro v hv
    have hreach : (n.extended ps).reach v = n.leader.progress.matchIndexOf v := if_neg hv
    rw [hreach]
    exact hn.bounded.matchIndexOf_le v
  rw [hcommit] at hlt
  have hreached := (hstill.reached hlt).1 hi.1
  have hle : i ≤ n.lastLogIndex := by
    rw [effectiveMembership_extended hn.bounded.sound] at hreached
    exact le_of_reached_not_alone halone hothers' hreached
  have hcandidate : n.Candidate i := by
    refine ⟨(reached_extended_iff hn.bounded.sound ps hle).1 hreached, fun j hj => ?_⟩
    by_contra hij
    rw [not_le] at hij
    have hj' := (reached_extended_iff hn.bounded.sound ps
      (le_of_reached_not_alone halone hothers hj)).2 hj
    exact absurd (hi.2 ((hstill.reached (hlt.trans hij)).2 hj')) (not_le.2 hij)
  have hterm' : n.termAt i = some n.currentTerm := by
    have hsame : n'.termAt i = (n.extended ps).termAt i :=
      eq_of_standing (f := (termAt · i)) hstill.standing fun _ => rfl
    have hcurrent : n'.currentTerm = (n.extended ps).currentTerm :=
      eq_of_standing (f := currentTerm) hstill.standing fun _ => rfl
    rw [← termAt_extended ps hle, ← hsame, hterm, hcurrent]
    rfl
  exact absurd ((hn.settled hn.role).1 i hcandidate hterm') (not_le.2 hlt)

/-! ## Committing after appended proposals -/

/-- The node after it has committed what accepted proposals allow. -/
def settledWith (n : Node) (ps : List ClientProposalInput) : Node :=
  if n.effectiveMembership.hasQuorum [n.id] then
    { n.extended ps with
      volatile.commitIndex := n.lastLogIndex + ps.length
      volatile.dispatchedIndex := n.lastLogIndex + ps.length
      volatile.localProposals := [] }
  else n.extended ps

/-- The outputs that come with it. -/
def committedWith (n : Node) (ps : List ClientProposalInput) : List Output :=
  if n.effectiveMembership.hasQuorum [n.id] then
    appliedProposals n.currentTerm (n.lastLogIndex + 1) ps
  else []

/-- A leader by itself has applied its log, so it tracks nothing. -/
theorem Ready.tracker_of_alone (hn : n.Ready) (halone : n.Alone) :
    n.volatile.localProposals = [] := by
  have hdispatched := (hn.settled hn.role).2 halone
  refine List.eq_nil_iff_forall_not_mem.2 fun e he => ?_
  have hlow := (hn.tracks.stands e he).1
  have hhigh := hn.tracks.le_lastLogIndex he
  omega

theorem termAt_extended_last (hn : n.Sound) (hne : ps ≠ []) :
    (n.extended ps).termAt (n.lastLogIndex + ps.length) = some n.currentTerm := by
  have hpos : 0 < ps.length := List.length_pos_of_ne_nil hne
  have hlast : ps[ps.length - 1]? = some (ps.getLast hne) := by
    rw [← List.getLast?_eq_getElem?, List.getLast?_eq_some_getLast]
  have hs : (n.extended ps).snapshotIndex < n.lastLogIndex + ps.length := by
    have hle : (n.extended ps).snapshotIndex ≤ n.lastLogIndex :=
      (hn.snapshot_le.trans hn.dispatched_le).trans hn.commit_le
    omega
  have hentry := n.entryAt_extended_new hlast
  rw [show n.lastLogIndex + 1 + (ps.length - 1) = n.lastLogIndex + ps.length by omega] at hentry
  rw [termAt_of_lt hs, hentry]
  rfl

/-- The commit attempt of a leader by itself applies the proposals. -/
theorem emit_of_alone (hn : n.Ready) (halone : n.Alone) (ps : List ClientProposalInput)
    (progress : ProgressSet) :
    emitCommittedOutputs { n.extended ps with
      leader.progress := progress
      volatile.commitIndex := n.lastLogIndex + ps.length } =
      ⟨{ n.extended ps with
          leader.progress := progress
          volatile.commitIndex := n.lastLogIndex + ps.length
          volatile.dispatchedIndex := n.lastLogIndex + ps.length
          volatile.localProposals := [] },
        appliedProposals n.currentTerm (n.lastLogIndex + 1) ps⟩ := by
  have hdispatched := (hn.settled hn.role).2 halone
  have htracker := hn.tracker_of_alone halone
  have hfuel : n.lastLogIndex + ps.length - n.dispatchedIndex = ps.length := by omega
  have hemit := emitLoop_applications n.currentTerm ps { n.extended ps with
    leader.progress := progress
    volatile.commitIndex := n.lastLogIndex + ps.length } ?_ ?_ ?_
  · show emitLoop (n.lastLogIndex + ps.length - n.dispatchedIndex) _ = _
    rw [hfuel, hemit]
    show Outcome.mk { n.extended ps with
        leader.progress := progress
        volatile.commitIndex := n.lastLogIndex + ps.length
        volatile.dispatchedIndex := n.dispatchedIndex + ps.length
        volatile.localProposals := [] }
      (appliedProposals n.currentTerm (n.dispatchedIndex + 1) ps) = _
    rw [hdispatched]
  · show n.lastLogIndex + ps.length = n.dispatchedIndex + ps.length
    rw [hdispatched]
  · intro k p hp
    have hentry := n.entryAt_extended_new hp
    rw [← hdispatched] at hentry
    exact hentry
  · show n.volatile.localProposals ++ trackedProposals n.currentTerm (n.lastLogIndex + 1) ps =
      trackedProposals n.currentTerm (n.dispatchedIndex + 1) ps
    rw [htracker, hdispatched]
    rfl

/-- After any number of accepted proposals, a commit attempt applies them all or none, and the rest
is replication. -/
theorem replicateAppended_extended (hn : n.Ready) (hne : ps ≠ []) :
    ∃ progress frames, (n.extended ps).replicateAppended .progressOnly =
      ⟨{ n.settledWith ps with leader.progress := progress }, n.committedWith ps ++ frames⟩ ∧
      ∀ x ∈ frames, x.isReplication := by
  obtain ⟨hbounded, -⟩ := extended_bounded ps hn.bounded hn.tracks hn.role
  have hstill := (n.extended ps).still_record
  have hn₁ := (Act.record (c := ⟨n, none⟩) (n.extended ps)).bounded hbounded
  obtain ⟨recorded, hrecorded⟩ := (n.extended ps).recordLocalProgress_node
  have hrole₁ : (n.extended ps).recordLocalProgress.role = .leader := by
    rw [hrecorded]
    exact hn.role
  -- whatever the attempt commits, a round of replication follows
  have hround : ∀ (progress : ProgressSet) (outputs : List Output),
      (n.extended ps).recordLocalProgress.advanceCommitIndex =
        ⟨{ n.settledWith ps with leader.progress := progress }, outputs⟩ →
      (n.settledWith ps).role = .leader →
      ∃ progress frames, (n.extended ps).replicateAppended .progressOnly =
        ⟨{ n.settledWith ps with leader.progress := progress }, outputs ++ frames⟩ ∧
        ∀ x ∈ frames, x.isReplication := by
    intro progress outputs hadvance hrole
    unfold replicateAppended
    rw [hadvance, Outcome.andThen]
    obtain ⟨⟨progress', hnode⟩, hsends⟩ := broadcastReplication_node
      { n.settledWith ps with leader.progress := progress } .progressOnly
    have hleads : Node.role { n.settledWith ps with leader.progress := progress } = .leader := hrole
    dsimp only
    rw [if_pos hleads, hnode]
    exact ⟨progress', _, rfl, hsends⟩
  obtain ⟨i, hi, hadvance⟩ := exists_candidate hn₁ hrole₁
  by_cases halone : n.Alone
  · have hself : n.settledWith ps = { n.extended ps with
        volatile.commitIndex := n.lastLogIndex + ps.length
        volatile.dispatchedIndex := n.lastLogIndex + ps.length
        volatile.localProposals := [] } := if_pos halone
    have halone₁ : (n.extended ps).recordLocalProgress.Alone := by
      rw [hrecorded]
      show (n.extended ps).effectiveMembership.hasQuorum [n.id]
      rw [effectiveMembership_extended hn.bounded.sound]
      exact halone
    have hlast : i = n.lastLogIndex + ps.length := by
      rw [halone₁.candidate hi, hrecorded]
      exact n.lastLogIndex_extended ps
    have hcommits : (n.extended ps).recordLocalProgress.commitIndex < i ∧
        (n.extended ps).recordLocalProgress.termAt i =
          some (n.extended ps).recordLocalProgress.currentTerm := by
      rw [hrecorded, hlast]
      refine ⟨?_, termAt_extended_last hn.bounded.sound hne⟩
      have hle : n.commitIndex ≤ n.lastLogIndex := hn.bounded.sound.commit_le
      have hpos : 0 < ps.length := List.length_pos_of_ne_nil hne
      show n.commitIndex < n.lastLogIndex + ps.length
      omega
    obtain ⟨progress, hreconciled⟩ :=
      (n.extended ps).recordLocalProgress.reconcileReplicationProgress_node
    rw [if_pos hcommits, hreconciled, hrecorded, hlast] at hadvance
    have hcommitted : n.committedWith ps =
        appliedProposals n.currentTerm (n.lastLogIndex + 1) ps := if_pos halone
    rw [hcommitted]
    refine hround progress _ ?_ ?_
    · rw [hrecorded, hadvance, emit_of_alone hn halone ps progress, hself]
    · rw [hself]
      exact hn.role
  · have hself : n.settledWith ps = n.extended ps := if_neg halone
    have hcommitted : n.committedWith ps = [] := if_neg halone
    obtain ⟨progress, hreconciled⟩ :=
      (n.extended ps).recordLocalProgress.reconcileReplicationProgress_node
    rw [if_neg (not_commits_of_not_alone hn halone ps hstill hi), hreconciled] at hadvance
    rw [hcommitted]
    refine hround progress [] ?_ ?_
    · rw [hadvance, hself, hrecorded]
    · rw [hself]
      exact hn.role

/-! ## Batches -/

/-- The proposals that fit in a frame. -/
def accepted (n : Node) (ps : List ClientProposalInput) : List ClientProposalInput :=
  ps.filter fun p => !decide
    (n.config.maxAppendEntriesBytes < LogEntry.applicationReplicationBytes p.payload.length)

theorem appendProposals_node (ps : List ClientProposalInput) (hn : n.Bounded) (ht : n.Tracks)
    (hrole : n.role = .leader) : (n.appendProposals ps).1.node = n.extended (n.accepted ps) ∧
      ((n.appendProposals ps).2 = true ↔ n.accepted ps ≠ []) := by
  induction ps generalizing n with
  | nil => exact ⟨n.extended_nil.symm, by simp [appendProposals, accepted]⟩
  | cons p ps ih =>
    rw [appendProposals]
    dsimp only
    by_cases hlarge : n.config.maxAppendEntriesBytes <
        LogEntry.applicationReplicationBytes p.payload.length
    · have hcons : n.accepted (p :: ps) = n.accepted ps :=
        List.filter_cons_of_neg (by simpa using hlarge)
      rw [if_pos hlarge, hcons]
      exact ih hn ht hrole
    · have hcons : n.accepted (p :: ps) = p :: n.accepted ps :=
        List.filter_cons_of_pos (by simpa using hlarge)
      have happend := n.appendProposal_acts (c := ⟨n, none⟩) (b := false) p hrole
      have hnext := ih (happend.bounded hn) (happend.conducts.tracks hn.sound ht)
        ((n.appendProposal_role p).trans hrole)
      have heq : (n.appendProposal p).node = n.extended [p] :=
        congrArg Outcome.node (appendProposal_eq ht p)
      rw [if_neg hlarge, hcons]
      refine ⟨?_, iff_of_true rfl (List.cons_ne_nil _ _)⟩
      rw [← List.singleton_append, ← extended_append]
      rw [heq] at hnext ⊢
      exact hnext.1

/-- Verdicts depend on the configuration, the end of the log and the term only. -/
theorem appendProposals_outputs_congr (ps : List ClientProposalInput)
    (hconfig : n'.config = n.config)
    (hlast : n'.lastLogIndex = n.lastLogIndex) (hterm : n'.currentTerm = n.currentTerm) :
    (n'.appendProposals ps).1.outputs = (n.appendProposals ps).1.outputs := by
  induction ps generalizing n n' with
  | nil => rfl
  | cons p ps ih =>
    rw [appendProposals, appendProposals, hconfig]
    dsimp only
    split_ifs
    · dsimp only
      rw [ih hconfig hlast hterm]
    · have hverdict : (n'.appendProposal p).outputs = (n.appendProposal p).outputs := by
        unfold appendProposal
        rw [hlast, hterm]
        cases p.proposalId <;> rfl
      have hkeeps : ∀ m : Node, (m.appendProposal p).node.config = m.config ∧
          (m.appendProposal p).node.lastLogIndex = m.lastLogIndex + 1 ∧
          (m.appendProposal p).node.currentTerm = m.currentTerm := by
        intro m
        have hlast' := m.lastLogIndex_appendLogEntry
          { term := m.currentTerm, kind := .application p.payload }
        unfold appendProposal
        cases p.proposalId with
        | none => exact ⟨rfl, hlast', rfl⟩
        | some id => exact ⟨rfl, hlast', rfl⟩
      obtain ⟨hc, hl, ht⟩ := hkeeps n
      obtain ⟨hc', hl', ht'⟩ := hkeeps n'
      dsimp only
      rw [hverdict, ih (hc'.trans (hconfig.trans hc.symm)) (by rw [hl', hl, hlast])
        (ht'.trans (hterm.trans ht.symm))]

theorem appendProposals_outputs_cons (n : Node) (p : ClientProposalInput)
    (ps : List ClientProposalInput) : (n.appendProposals (p :: ps)).1.outputs =
      (n.appendProposals [p]).1.outputs ++
        ((n.appendProposals [p]).1.node.appendProposals ps).1.outputs := by
  rw [appendProposals, appendProposals]
  dsimp only
  split_ifs
  · rfl
  · dsimp only
    rw [appendProposals, List.append_nil]

theorem isVerdict_appendProposals (ps : List ClientProposalInput) (n : Node) :
    ∀ x ∈ (n.appendProposals ps).1.outputs, x.isVerdict := by
  induction ps generalizing n with
  | nil => exact fun _ h => absurd h List.not_mem_nil
  | cons p ps ih =>
    intro x hx
    rw [appendProposals] at hx
    dsimp only at hx
    split_ifs at hx
    · rcases List.mem_cons.1 hx with rfl | hx
      · rfl
      · exact ih n x hx
    · rcases List.mem_append.1 hx with hx | hx
      · unfold appendProposal at hx
        cases hid : p.proposalId with
        | none =>
          rw [hid] at hx
          cases hx
        | some id =>
          rw [hid] at hx
          rw [List.mem_singleton.1 hx]
          rfl
      · exact ih _ x hx

/-- What proposals come to from a leader at rest, batched or one by one. -/
structure Result (n : Node) (ps : List ClientProposalInput) (o : Outcome) : Prop where
  node : ∃ progress, o.node = { n.settledWith (n.accepted ps) with leader.progress := progress }
  verdicts : o.outputs.filter Output.isVerdict = (n.appendProposals ps).1.outputs
  committed : o.outputs.filter Output.isCommitted = n.committedWith (n.accepted ps)
  rest : ∀ x ∈ o.outputs, x.isVerdict ∨ x.isCommitted ∨ x.isReplication

theorem isCommitted_committedWith (n : Node) (ps : List ClientProposalInput) :
    ∀ x ∈ n.committedWith ps, x.isCommitted := by
  have happlied : ∀ (ps : List ClientProposalInput) (index : ℕ),
      ∀ x ∈ appliedProposals n.currentTerm index ps, x.isCommitted := by
    intro ps
    induction ps with
    | nil => exact fun _ _ h => absurd h List.not_mem_nil
    | cons p ps ih =>
      intro index x hx
      rcases List.mem_cons.1 hx with rfl | hx
      · rfl
      · exact ih _ x hx
  unfold committedWith
  split_ifs
  · exact happlied ps _
  · exact fun _ h => absurd h List.not_mem_nil

/-- Outputs in the order of a proposal path: verdicts, then what is committed, then replication. -/
theorem filter_outputs {v c f : List Output} (hv : ∀ x ∈ v, x.isVerdict)
    (hc : ∀ x ∈ c, x.isCommitted) (hf : ∀ x ∈ f, x.isReplication) :
    (v ++ (c ++ f)).filter Output.isVerdict = v ∧
      (v ++ (c ++ f)).filter Output.isCommitted = c := by
  have hv' : ∀ x ∈ v, ¬ x.isCommitted := by
    intro x hx
    have := hv x hx
    cases x <;> simp_all [Output.isVerdict, Output.isCommitted]
  have hc' : ∀ x ∈ c, ¬ x.isVerdict := by
    intro x hx
    have := hc x hx
    cases x <;> simp_all [Output.isVerdict, Output.isCommitted]
  have hf' : ∀ x ∈ f, ¬ x.isVerdict ∧ ¬ x.isCommitted := by
    intro x hx
    have := hf x hx
    cases x <;> simp_all [Output.isVerdict, Output.isCommitted, Output.isReplication]
  rw [List.filter_append, List.filter_append, List.filter_append, List.filter_append,
    List.filter_eq_self.2 hv, List.filter_eq_nil_iff.2 hc',
    List.filter_eq_nil_iff.2 fun x hx => (hf' x hx).1, List.filter_eq_nil_iff.2 hv',
    List.filter_eq_self.2 hc, List.filter_eq_nil_iff.2 fun x hx => (hf' x hx).2]
  simp

theorem Ready.settledWith_nil (hn : n.Ready) : n.settledWith [] = n := by
  unfold settledWith
  rw [extended_nil]
  split_ifs with halone
  · have hdispatched := (hn.settled hn.role).2 halone
    have hcommit : n.commitIndex = n.lastLogIndex := by
      have := hn.bounded.sound.dispatched_le
      have := hn.bounded.sound.commit_le
      omega
    rw [List.length_nil, Nat.add_zero, ← hn.tracker_of_alone halone]
    calc { n with
          volatile.commitIndex := n.lastLogIndex
          volatile.dispatchedIndex := n.lastLogIndex }
        = { n with
          volatile.commitIndex := n.commitIndex
          volatile.dispatchedIndex := n.dispatchedIndex } := by rw [hcommit, hdispatched]
      _ = n := rfl
  · rfl

theorem committedWith_nil (n : Node) : n.committedWith [] = [] := by
  unfold committedWith
  split_ifs <;> rfl

/-- A leader without a pending transfer takes a batch of any length the same way. -/
theorem Ready.stepProposalBatch_eq (hn : n.Ready) (ps : List ClientProposalInput) :
    n.stepProposalBatch ps = if (n.appendProposals ps).2 then
      (n.appendProposals ps).1.andThen (·.replicateAppended .progressOnly)
      else (n.appendProposals ps).1 := by
  have hleads : ¬ n.role ≠ .leader := not_not.2 hn.role
  match ps with
  | [] => rfl
  | [p] =>
    show n.stepClientProposal p = _
    rw [appendProposals, appendProposals]
    unfold stepClientProposal proposalPreflightRejection
    dsimp only
    rw [if_neg hleads, hn.transfer]
    dsimp only [Option.map_none]
    by_cases hlarge : n.config.maxAppendEntriesBytes <
        LogEntry.applicationReplicationBytes p.payload.length
    · rw [if_pos hlarge, if_pos hlarge]
      rfl
    · rw [if_neg hlarge, if_neg hlarge]
      show _ = (Outcome.mk (n.appendProposal p).node
        ((n.appendProposal p).outputs ++ [])).andThen (·.replicateAppended .progressOnly)
      rw [List.append_nil]
  | p :: q :: rest =>
    rw [stepProposalBatch, proposalBatchPreflightRejection, if_neg hleads, hn.transfer]
    · rfl
    · simp
    · simp

theorem Ready.batch_result (hn : n.Ready) (ps : List ClientProposalInput) :
    n.Result ps (n.stepProposalBatch ps) := by
  obtain ⟨hnode, haccepted⟩ := appendProposals_node ps hn.bounded hn.tracks hn.role
  have hverdicts := isVerdict_appendProposals ps n
  rw [hn.stepProposalBatch_eq]
  by_cases hsome : (n.appendProposals ps).2 = true
  · rw [if_pos hsome, Outcome.andThen, hnode]
    obtain ⟨progress, frames, heq, hframes⟩ := replicateAppended_extended hn (haccepted.1 hsome)
    rw [heq]
    have hcommitted := n.isCommitted_committedWith (n.accepted ps)
    obtain ⟨hv, hc⟩ := filter_outputs hverdicts hcommitted hframes
    refine ⟨⟨progress, rfl⟩, hv, hc, fun x hx => ?_⟩
    rcases List.mem_append.1 hx with hx | hx
    · exact .inl (hverdicts x hx)
    · rcases List.mem_append.1 hx with hx | hx
      · exact .inr (.inl (hcommitted x hx))
      · exact .inr (.inr (hframes x hx))
  · have hnone : n.accepted ps = [] := not_not.1 fun hne => hsome (haccepted.2 hne)
    have hempty : ∀ x ∈ ([] : List Output), x.isCommitted := fun _ h => absurd h List.not_mem_nil
    obtain ⟨hv, hc⟩ := filter_outputs (f := []) hverdicts hempty fun _ h =>
      absurd h List.not_mem_nil
    rw [List.append_nil, List.append_nil] at hv hc
    rw [if_neg hsome]
    refine ⟨⟨n.leader.progress, ?_⟩, hv, ?_, fun x hx => .inl (hverdicts x hx)⟩
    · rw [hnode, hnone, extended_nil, hn.settledWith_nil]
    · rw [hnone, committedWith_nil, hc]

/-! ## One by one -/

theorem appliedProposals_append (term : ℕ) (ps qs : List ClientProposalInput) (index : ℕ) :
    appliedProposals term index (ps ++ qs) =
      appliedProposals term index ps ++ appliedProposals term (index + ps.length) qs := by
  induction ps generalizing index with
  | nil => rfl
  | cons p ps ih =>
    rw [List.cons_append, appliedProposals, appliedProposals, ih, List.length_cons,
      show index + 1 + ps.length = index + (ps.length + 1) by omega]
    rfl

/-- The node between two proposals differs from the first one as accepted proposals make it. -/
structure Follows (n : Node) (ps : List ClientProposalInput) (n' : Node) : Prop where
  node : ∃ progress, n' = { n.settledWith ps with leader.progress := progress }
  membership : n'.effectiveMembership = n.effectiveMembership
  last : n'.lastLogIndex = n.lastLogIndex + ps.length
  term : n'.currentTerm = n.currentTerm
  config : n'.config = n.config
  role : n'.role = n.role
  transfer : n'.leader.pendingTransfer = n.leader.pendingTransfer

theorem follows_of_node (hn : n.Sound) {progress : ProgressSet}
    (h : n' = { n.settledWith ps with leader.progress := progress }) : n.Follows ps n' := by
  have hmembership := effectiveMembership_extended hn ps
  have hlast := n.lastLogIndex_extended ps
  subst h
  by_cases halone : n.effectiveMembership.hasQuorum [n.id]
  · rw [settledWith, if_pos halone]
    exact ⟨⟨progress, by rw [settledWith, if_pos halone]⟩, hmembership, hlast, rfl, rfl, rfl, rfl⟩
  · rw [settledWith, if_neg halone]
    exact ⟨⟨progress, by rw [settledWith, if_neg halone]⟩, hmembership, hlast, rfl, rfl, rfl, rfl⟩

theorem Follows.committedWith (h : n.Follows ps n') (qs : List ClientProposalInput) :
    n.committedWith (ps ++ qs) = n.committedWith ps ++ n'.committedWith qs := by
  have hid : n'.id = n.id := congrArg NodeConfig.id h.config
  unfold Node.committedWith
  rw [h.membership, h.term, h.last, hid, appliedProposals_append, Nat.add_right_comm]
  split_ifs
  · rfl
  · rfl

theorem Follows.settledWith (h : n.Follows ps n') (qs : List ClientProposalInput) :
    ∃ progress, n'.settledWith qs = { n.settledWith (ps ++ qs) with leader.progress :=
      progress } := by
  have hid : n'.id = n.id := congrArg NodeConfig.id h.config
  have hlast := h.last
  have hextended := n.extended_append ps qs
  obtain ⟨progress, hnode⟩ := h.node
  refine ⟨progress, ?_⟩
  unfold Node.settledWith at hnode ⊢
  rw [h.membership, hid, hlast, List.length_append, ← hextended]
  by_cases halone : n.effectiveMembership.hasQuorum [n.id]
  · rw [if_pos halone] at hnode ⊢
    rw [if_pos halone, hnode, Nat.add_assoc]
    rfl
  · rw [if_neg halone] at hnode ⊢
    rw [if_neg halone, hnode]
    rfl

theorem accepted_append (n : Node) (ps qs : List ClientProposalInput) :
    n.accepted (ps ++ qs) = n.accepted ps ++ n.accepted qs := List.filter_append ..

theorem steps_result (ps : List ClientProposalInput) (hn : n.Ready) :
    n.Result ps (n.calls (ps.map fun p => .step p.input)) := by
  induction ps generalizing n with
  | nil => exact hn.batch_result []
  | cons p ps ih =>
    have hstep : n.stepProposalBatch [p] = n.step p.input := (n.step_input p).symm
    have hfirst := hn.batch_result [p]
    rw [hstep] at hfirst
    obtain ⟨progress, hnode⟩ := hfirst.node
    have hfollows := follows_of_node hn.bounded.sound hnode
    have hacts := n.step_acts p.input
    have hready : (n.step p.input).node.Ready :=
      { bounded := hacts.bounded hn.bounded
        settled := (n.step_performs p.input).rests hn.bounded hn.settled
        tracks := hacts.conducts.tracks hn.bounded.sound hn.tracks
        role := hfollows.role.trans hn.role
        transfer := hfollows.transfer.trans hn.transfer }
    have hrest := ih hready
    have haccepted : (n.step p.input).node.accepted ps = n.accepted ps := by
      unfold Node.accepted
      rw [hfollows.config]
    obtain ⟨hfirstNode, -⟩ := appendProposals_node [p] hn.bounded hn.tracks hn.role
    have hverdicts : ((n.appendProposals [p]).1.node.appendProposals ps).1.outputs =
        ((n.step p.input).node.appendProposals ps).1.outputs := by
      rw [hfirstNode]
      exact appendProposals_outputs_congr ps hfollows.config.symm
        (by rw [lastLogIndex_extended, hfollows.last]) hfollows.term.symm
    have hcalls : n.calls ((p :: ps).map fun p => .step p.input) =
        (n.step p.input).andThen (·.calls (ps.map fun p => .step p.input)) := rfl
    rw [hcalls]
    refine ⟨?_, ?_, ?_, fun x hx => ?_⟩
    · obtain ⟨progress', hrestNode⟩ := hrest.node
      obtain ⟨progress'', hsettled⟩ := hfollows.settledWith (n.accepted ps)
      rw [haccepted, hsettled] at hrestNode
      exact ⟨progress', by rw [Outcome.andThen_node, hrestNode, ← accepted_append]; rfl⟩
    · rw [Outcome.andThen, List.filter_append, hfirst.verdicts, hrest.verdicts,
        appendProposals_outputs_cons n p ps, hverdicts]
    · rw [Outcome.andThen, List.filter_append, hfirst.committed, hrest.committed, haccepted,
        ← hfollows.committedWith, ← accepted_append]
      rfl
    · rcases List.mem_append.1 hx with hx | hx
      · exact hfirst.rest x hx
      · exact hrest.rest x hx

end Node

/-! ## Agreement -/

/-- Two ways of taking proposals: they leave the same node but for the rows, and tell the same
verdicts and the same applications. What else they emit replicates. -/
structure Outcome.Agrees (a b : Outcome) : Prop where
  log : a.node.persistent.log = b.node.persistent.log
  proposals : a.node.volatile.localProposals = b.node.volatile.localProposals
  commit : a.node.commitIndex = b.node.commitIndex
  dispatched : a.node.dispatchedIndex = b.node.dispatchedIndex
  term : a.node.currentTerm = b.node.currentTerm
  vote : a.node.persistent.votedFor = b.node.persistent.votedFor
  role : a.node.role = b.node.role
  remainder : ∃ progress, a.node = { b.node with leader.progress := progress }
  verdicts : a.outputs.filter Output.isVerdict = b.outputs.filter Output.isVerdict
  committed : a.outputs.filter Output.isCommitted = b.outputs.filter Output.isCommitted
  rest : ∀ x ∈ a.outputs ++ b.outputs, x.isVerdict ∨ x.isCommitted ∨ x.isReplication

namespace Node

variable {n : Node}

theorem Result.agrees {ps : List ClientProposalInput} {a b : Outcome} (ha : n.Result ps a)
    (hb : n.Result ps b) : a.Agrees b := by
  obtain ⟨p, hp⟩ := ha.node
  obtain ⟨q, hq⟩ := hb.node
  refine ⟨?_, ?_, ?_, ?_, ?_, ?_, ?_, ⟨p, ?_⟩, ha.verdicts.trans hb.verdicts.symm,
    ha.committed.trans hb.committed.symm, fun x hx => ?_⟩
  · rw [hp, hq]
  · rw [hp, hq]
  · rw [hp, hq]
    rfl
  · rw [hp, hq]
    rfl
  · rw [hp, hq]
    rfl
  · rw [hp, hq]
  · rw [hp, hq]
    rfl
  · rw [hp, hq]
  · rcases List.mem_append.1 hx with hx | hx
    · exact ha.rest x hx
    · exact hb.rest x hx

theorem agrees_of_refused {o : Outcome} (h : ∀ x ∈ o.outputs, x.isVerdict) : o.Agrees o := by
  refine ⟨rfl, rfl, rfl, rfl, rfl, rfl, rfl, ⟨o.node.leader.progress, rfl⟩, rfl, rfl,
    fun x hx => ?_⟩
  rcases List.mem_append.1 hx with hx | hx
  · exact .inl (h x hx)
  · exact .inl (h x hx)

/-- A node that takes no proposals refuses a batch as it refuses each of its proposals. -/
theorem refused (reason : ClientProposalInput → ProposalRejection)
    (hone : ∀ p, n.proposalPreflightRejection p.payload.length = some (reason p))
    (hall : ∀ ps, n.proposalBatchPreflightRejection ps =
      some (ps.map fun p => .rejectProposal p.proposalId (reason p)))
    (ps : List ClientProposalInput) :
    n.stepProposalBatch ps = ⟨n, ps.map fun p => .rejectProposal p.proposalId (reason p)⟩ ∧
      n.calls (ps.map fun p => .step p.input) =
        ⟨n, ps.map fun p => .rejectProposal p.proposalId (reason p)⟩ := by
  have hstep : ∀ p, n.stepClientProposal p =
      ⟨n, [.rejectProposal p.proposalId (reason p)]⟩ := by
    intro p
    unfold stepClientProposal
    dsimp only
    rw [hone p]
  constructor
  · match ps with
    | [] => rfl
    | [p] => exact hstep p
    | p :: q :: rest =>
      rw [stepProposalBatch, hall]
      · simp
      · simp
  · induction ps with
    | nil => rfl
    | cons p ps ih =>
      have hcalls : n.calls ((p :: ps).map fun p => .step p.input) =
          (n.step p.input).andThen (·.calls (ps.map fun p => .step p.input)) := rfl
      rw [hcalls, step_input, hstep, Outcome.andThen]
      dsimp only
      rw [ih]
      rfl

theorem stepProposalBatch_agrees (hn : n.Bounded) (hs : n.Settled) (ht : n.Tracks)
    (ps : List ClientProposalInput) :
    (n.stepProposalBatch ps).Agrees (n.calls (ps.map fun p => .step p.input)) := by
  have hrefused : ∀ reason : ClientProposalInput → ProposalRejection,
      (∀ p, n.proposalPreflightRejection p.payload.length = some (reason p)) →
      (∀ ps, n.proposalBatchPreflightRejection ps =
        some (ps.map fun p => .rejectProposal p.proposalId (reason p))) →
      (n.stepProposalBatch ps).Agrees (n.calls (ps.map fun p => .step p.input)) := by
    intro reason hone hall
    obtain ⟨hbatch, hsteps⟩ := refused reason hone hall ps
    rw [hbatch, hsteps]
    refine agrees_of_refused fun x hx => ?_
    obtain ⟨p, -, rfl⟩ := List.mem_map.1 hx
    rfl
  by_cases hrole : n.role = .leader
  · cases htransfer : n.leader.pendingTransfer with
    | none =>
      have hready : n.Ready := ⟨hn, hs, ht, hrole, htransfer⟩
      exact (hready.batch_result ps).agrees (steps_result ps hready)
    | some transfer =>
      refine hrefused (fun _ => .leadershipTransferInProgress transfer.target) ?_ ?_
      · intro p
        rw [proposalPreflightRejection, if_neg (not_not.2 hrole), htransfer]
        rfl
      · intro ps
        rw [proposalBatchPreflightRejection, if_neg (not_not.2 hrole), htransfer]
        rfl
  · refine hrefused (fun p => .notLeader n.role n.currentTerm p.payload.length) ?_ ?_
    · intro p
      rw [proposalPreflightRejection, if_pos hrole]
    · intro ps
      rw [proposalBatchPreflightRejection, if_pos hrole]

/-- A batch of proposal inputs is a proposal batch. -/
theorem stepBatch_proposals (n : Node) (ps : List ClientProposalInput) :
    n.stepBatch (ps.map ClientProposalInput.input) = n.stepProposalBatch ps := by
  have hjoins : ∀ (qs : List ClientProposalInput) (p : ClientProposalInput)
      (rest : List Input), (PendingBatch.proposals qs).run n (p.input :: rest) =
        (PendingBatch.proposals (qs ++ [p])).run n rest := by
    intro qs p rest
    rcases p with ⟨_ | id, payload⟩ <;> rfl
  have hrun : ∀ qs, (PendingBatch.proposals qs).run n (ps.map ClientProposalInput.input) =
      n.stepProposalBatch (qs ++ ps) := by
    induction ps with
    | nil =>
      intro qs
      rw [List.append_nil]
      rfl
    | cons p ps ih =>
      intro qs
      rw [List.map_cons, hjoins, ih, List.append_assoc]
      rfl
  rw [stepBatch_eq_run]
  cases ps with
  | nil => rfl
  | cons p ps =>
    have hfirst : PendingBatch.empty.run n ((p :: ps).map ClientProposalInput.input) =
        (PendingBatch.proposals []).run n ((p :: ps).map ClientProposalInput.input) := by
      rcases p with ⟨_ | id, payload⟩ <;> rfl
    rw [hfirst, hrun]
    rfl

end Node

end Rafter
