import Rafter.Conduct.Step
import Rafter.Node.Validate
import Mathlib.Algebra.Order.BigOperators.Group.List
import Mathlib.Algebra.Order.Group.Nat

/-!
# Read barriers

Every read barrier a node is asked for is answered once or still pending, and what is pending is
well formed, whatever the inputs.

Results:

* `Node.read_barriers_answered_once`: requests for a read id are its answers plus its pending
  occurrences;
* `Node.pending_reads_valid`: `validatePendingReads` accepts every reached state when no read id is
  asked for twice in one call or while it is pending;
* `Node.pending_read_duplicated`: without that condition it does not.
-/

namespace Rafter

open Protocol

/-! ## Requests and answers -/

/-- The request is the read barrier `r`. -/
def Request.asks (r : ReadId) : Request → Bool
  | .read id => id == r
  | _ => false

/-- The output ends the read barrier `r`. -/
def Output.answers (r : ReadId) : Output → Bool
  | .readIndexGranted id _ | .readIndexRejected id _ | .readIndexCanceled id _ => id == r
  | _ => false

namespace Node

/-- The read ids of the pending rounds, in order. -/
def pendingReadIds (n : Node) : List ReadId := n.leader.pendingReads.flatMap (·.readIds)

variable {n n' : Node} {r : ReadId}

theorem countP_answers_of_traffic {outputs : List Output} (h : ∀ x ∈ outputs, x.isTraffic) :
    outputs.countP (·.answers r) = 0 := by
  rw [List.countP_eq_zero]
  intro x hx
  have hx' := h x hx
  cases x with
  | readIndexGranted | readIndexRejected | readIndexCanceled =>
    exact absurd hx' (by simp [Output.isTraffic])
  | _ => simp [Output.answers]

@[simp] theorem countP_answers_dropOutputs (reason : LocalProposalDropReason)
    (proposals : LocalProposalTracker) :
    (dropOutputs reason proposals).countP (·.answers r) = 0 := by
  simp [dropOutputs, List.countP_map, Output.answers, Function.comp_def]

@[simp] theorem countP_answers_grantReads (readIds : List ReadId) (k : ℕ) :
    (grantReads readIds k).countP (·.answers r) = readIds.count r := by
  simp [grantReads, List.countP_map, Output.answers, Function.comp_def, List.count]

@[simp] theorem countP_answers_rejectReads (readIds : List ReadId) (reason : ReadIndexRejection) :
    (rejectReads readIds reason).countP (·.answers r) = readIds.count r := by
  simp [rejectReads, List.countP_map, Output.answers, Function.comp_def, List.count]

theorem countP_answers_drainPendingReads (n : Node) (reason : ReadIndexCancelReason) :
    (n.drainPendingReads reason).outputs.countP (·.answers r) = n.pendingReadIds.count r := by
  simp only [drainPendingReads, pendingReadIds, ← List.map_flatMap, List.countP_map]
  rfl

theorem countP_asks_read (readIds : List ReadId) :
    readIds.countP ((·.asks r) ∘ Request.read) = readIds.count r := rfl

theorem appendProposal_leader (n : Node) (proposal : ClientProposalInput) :
    (n.appendProposal proposal).node.leader = n.leader ∧
      (n.appendProposal proposal).node.role = n.role ∧
      (n.appendProposal proposal).node.commitIndex = n.commitIndex ∧
      (n.appendProposal proposal).outputs.countP (·.answers r) = 0 := by
  rcases proposal with ⟨_ | id, payload⟩
  · exact ⟨rfl, rfl, rfl, rfl⟩
  · exact ⟨rfl, rfl, rfl, rfl⟩

/-- A confirmed round is granted; the others stay. -/
theorem countP_answers_confirmRounds (m : MembershipConfig) (self : NodeId)
    (rounds : List PendingReadRound) :
    (rounds.flatMap (·.readIds)).count r =
      ((confirmRounds m self rounds).1.flatMap (·.readIds)).count r +
        (confirmRounds m self rounds).2.countP (·.answers r) := by
  induction rounds with
  | nil => rfl
  | cons p rest ih =>
    unfold confirmRounds
    dsimp only
    split_ifs <;> simp [ih] <;> omega

/-! ## The shape of the pending rounds -/

end Node

/-- What a round asks, without who acknowledged it. -/
def PendingReadRound.subject (p : PendingReadRound) : List ReadId × ℕ × ℕ :=
  (p.readIds, p.readIndex, p.registeredSequence)

namespace Node

variable {n n' : Node} {r : ReadId}

/-- The rules of `validate_pending_reads` other than distinct ids. -/
structure ReadsOk (n : Node) : Prop where
  leader : n.leader.pendingReads ≠ [] → n.role = .leader
  transfer : n.leader.pendingReads ≠ [] → n.leader.pendingTransfer = none
  count : n.pendingReadCount ≤ maxPendingReads
  round : ∀ p ∈ n.leader.pendingReads, p.readIds ≠ [] ∧ p.readIndex ≤ n.commitIndex ∧
    1 ≤ p.registeredSequence ∧ p.registeredSequence ≤ n.leader.heartbeatSequence
  monotone : n.leader.pendingReads.Pairwise fun p q =>
    p.readIndex ≤ q.readIndex ∧ p.registeredSequence ≤ q.registeredSequence

theorem ReadsOk.of_nil (h : n.leader.pendingReads = []) : n.ReadsOk where
  leader hne := absurd h hne
  transfer hne := absurd h hne
  count := by simp [pendingReadCount, h]
  round := by simp [h]
  monotone := by simp [h]

/-- Rounds may be acknowledged or leave; commit index and sequence may grow. -/
theorem ReadsOk.of_sublist (h : n.ReadsOk)
    (hsub : (n'.leader.pendingReads.map (·.subject)).Sublist
      (n.leader.pendingReads.map (·.subject)))
    (hrole : n.role = .leader → n'.role = .leader)
    (htransfer : n.leader.pendingTransfer = none → n'.leader.pendingTransfer = none)
    (hcommit : n.commitIndex ≤ n'.commitIndex)
    (hsequence : n.leader.heartbeatSequence ≤ n'.leader.heartbeatSequence) : n'.ReadsOk := by
  have hne : n'.leader.pendingReads ≠ [] → n.leader.pendingReads ≠ [] := by
    rintro hne' hnil
    rw [hnil, List.map_nil, List.sublist_nil, List.map_eq_nil_iff] at hsub
    exact hne' hsub
  have hcount : ∀ m : Node, m.pendingReadCount =
      ((m.leader.pendingReads.map (·.subject)).map fun x => x.1.length).sum := by
    intro m
    rw [List.map_map]
    rfl
  refine ⟨fun h' => hrole (h.leader (hne h')), fun h' => htransfer (h.transfer (hne h')),
    ?_, ?_, ?_⟩
  · rw [hcount]
    refine le_trans ?_ h.count
    rw [hcount n]
    exact (hsub.map _).sum_le_sum (by simp)
  · intro p hp
    obtain ⟨q, hq, heq⟩ := List.mem_map.1 (hsub.subset (List.mem_map_of_mem hp))
    obtain ⟨hids, hindex, hseq⟩ : q.readIds = p.readIds ∧ q.readIndex = p.readIndex ∧
        q.registeredSequence = p.registeredSequence := by simpa [PendingReadRound.subject] using heq
    have hround := h.round q hq
    rw [hids, hindex, hseq] at hround
    exact ⟨hround.1, hround.2.1.trans hcommit, hround.2.2.1, hround.2.2.2.trans hsequence⟩
  · have hpair : (n.leader.pendingReads.map (·.subject)).Pairwise fun x y =>
        x.2.1 ≤ y.2.1 ∧ x.2.2 ≤ y.2.2 := List.pairwise_map.2 h.monotone
    exact List.pairwise_map.1 (hpair.sublist hsub)

/-- A move that leaves the leader's part alone, with no request and no answer. -/
theorem ReadsOk.of_leader (h : n.ReadsOk) (hleader : n'.leader = n.leader)
    (hrole : n'.role = n.role)
    (hcommit : n.commitIndex ≤ n'.commitIndex) {l : List Observation}
    (hasks : (l.filterMap Sum.getLeft?).countP (·.asks r) = 0)
    (hquiet : (l.filterMap Sum.getRight?).countP (·.answers r) = 0) :
    n'.ReadsOk ∧ n.pendingReadIds.count r + (l.filterMap Sum.getLeft?).countP (·.asks r) =
      n'.pendingReadIds.count r + (l.filterMap Sum.getRight?).countP (·.answers r) := by
  refine ⟨h.of_sublist (by rw [hleader]) (fun hr => hrole.trans hr) (fun ht => hleader ▸ ht) hcommit
    (by rw [hleader]), ?_⟩
  rw [hasks, hquiet, pendingReadIds, pendingReadIds, hleader]

/-! ## Moves -/

theorem countP_answers_becomeFollower (n : Node) (term : ℕ) :
    (n.becomeFollower term).outputs.countP (·.answers r) = n.pendingReadIds.count r := by
  have h := countP_answers_drainPendingReads (r := r) { n with volatile.localProposals := [] }
    .leadershipLost
  simp only [becomeFollower, drainLocalProposals, Outcome.andThen, List.countP_append,
    countP_answers_dropOutputs, h]
  simp [pendingReadIds]

theorem map_subject_acknowledgeRound (v : NodeId) (sequence : ℕ) (m : MembershipConfig)
    (self : NodeId) (rounds : List PendingReadRound) :
    (rounds.map (acknowledgeRound v sequence m self)).map (·.subject) = rounds.map (·.subject) := by
  rw [List.map_map]
  refine List.map_congr_left fun p _ => ?_
  simp only [Function.comp_apply, acknowledgeRound]
  split_ifs <;> rfl

theorem sublist_subject_confirmRounds (m : MembershipConfig) (self : NodeId)
    (rounds : List PendingReadRound) :
    ((confirmRounds m self rounds).1.map (·.subject)).Sublist (rounds.map (·.subject)) := by
  induction rounds with
  | nil => exact .slnil
  | cons p rest ih =>
    unfold confirmRounds
    dsimp only
    split_ifs
    · exact ih.cons _
    · exact ih.cons_cons _

theorem ReadsOk.acknowledge (h : n.ReadsOk) (v : NodeId) (sequence : ℕ) :
    (n.acknowledgeReadBarriers v sequence).node.ReadsOk ∧ n.pendingReadIds.count r =
      (n.acknowledgeReadBarriers v sequence).node.pendingReadIds.count r +
        (n.acknowledgeReadBarriers v sequence).outputs.countP (·.answers r) := by
  unfold acknowledgeReadBarriers
  split_ifs
  · exact ⟨h, rfl⟩
  · dsimp only
    have hsubject := map_subject_acknowledgeRound v sequence n.effectiveMembership n.id
      n.leader.pendingReads
    generalize n.leader.pendingReads.map
      (acknowledgeRound v sequence n.effectiveMembership n.id) = rounds at hsubject
    have hids : rounds.flatMap (·.readIds) = n.pendingReadIds := by
      have := congrArg (List.flatMap fun x => x.1) hsubject
      simpa [List.flatMap_map, PendingReadRound.subject, pendingReadIds] using this
    refine ⟨h.of_sublist ?_ (fun hr => hr) (fun ht => ht) le_rfl le_rfl, ?_⟩
    · rw [← hsubject]
      exact sublist_subject_confirmRounds _ _ _
    · rw [← hids]
      exact countP_answers_confirmRounds _ _ _

theorem ReadsOk.register (h : n.ReadsOk) {readIds : List ReadId} (acks : AcknowledgementSet)
    (hrole : n.role = .leader) (htransfer : n.leader.pendingTransfer = none) (hne : readIds ≠ [])
    (hlength : n.pendingReadCount + readIds.length ≤ maxPendingReads) :
    (beginContactRound { n with
      leader.pendingReads := n.leader.pendingReads ++
        [{ readIds := readIds
           readIndex := n.commitIndex
           registeredSequence := n.leader.heartbeatSequence + 1
           acks := acks }] }).ReadsOk where
  leader _ := hrole
  transfer _ := htransfer
  count := by simpa [pendingReadCount, beginContactRound] using hlength
  round p hp := by
    rcases List.mem_append.1 hp with hp | hp
    · obtain ⟨hids, hindex, hpos, hseq⟩ := h.round p hp
      exact ⟨hids, hindex, hpos, hseq.trans (Nat.le_succ _)⟩
    · obtain rfl := List.mem_singleton.1 hp
      exact ⟨hne, le_rfl, Nat.succ_pos _, le_rfl⟩
  monotone := by
    refine List.pairwise_append.2 ⟨h.monotone, List.pairwise_singleton _ _, fun p hp q hq => ?_⟩
    obtain rfl := List.mem_singleton.1 hq
    obtain ⟨-, hindex, -, hseq⟩ := h.round p hp
    exact ⟨hindex, hseq.trans (Nat.le_succ _)⟩

/-- Every move keeps the rounds well formed and, for every read id, the requests it takes are the
answers it gives and the change of what is pending. -/
theorem Move.reads {l : List Observation} (h : Move n l n') (hn : n.ReadsOk) :
    n'.ReadsOk ∧ n.pendingReadIds.count r + (l.filterMap Sum.getLeft?).countP (·.asks r) =
      n'.pendingReadIds.count r + (l.filterMap Sum.getRight?).countP (·.answers r) := by
  cases h with
  | traffic hledger htransfer hsequence houtputs =>
    have hreads : n'.leader.pendingReads = n.leader.pendingReads :=
      congrArg Ledger.pendingReads hledger
    have hrole : n'.role = n.role := congrArg Ledger.role hledger
    have hcommit : n'.commitIndex = n.commitIndex := congrArg Ledger.commitIndex hledger
    refine ⟨hn.of_sublist (by rw [hreads]) (fun hr => hrole.trans hr) (fun ht => ?_) hcommit.ge
      hsequence, ?_⟩
    · by_contra hsome
      have := htransfer (Option.isSome_iff_ne_none.2 hsome)
      simp [ht] at this
    · simp [countP_answers_of_traffic houtputs, pendingReadIds, hreads]
  | follow term =>
    refine ⟨.of_nil rfl, ?_⟩
    simp only [filterMap_getLeft_given, filterMap_getRight_given, countP_answers_becomeFollower]
    simp [becomeFollower, followerState, pendingReadIds]
  | campaign hrole hrole' hterm hledger hleader =>
    have hnil : n.leader.pendingReads = [] := by
      by_contra hne
      exact hrole (hn.leader hne)
    exact ⟨.of_nil (by rw [hleader, hnil]), by simp [pendingReadIds, hleader]⟩
  | lead hrole =>
    have hnil : n.leader.pendingReads = [] := by
      by_contra hne
      exact hrole (hn.leader hne)
    exact ⟨.of_nil rfl, by simp [pendingReadIds, hnil, leaderState, appendLogEntry]⟩
  | configure configuration hrole =>
    refine hn.of_leader ?_ ?_ ?_ ?_ ?_
    exacts [rfl, rfl, le_rfl, rfl, rfl]
  | propose proposal hrole =>
    have hshape := n.appendProposal_leader (r := r) proposal
    exact hn.of_leader hshape.1 hshape.2.1 hshape.2.2.1.ge (by simp [Request.asks])
      (by simpa [List.filterMap_cons] using hshape.2.2.2)
  | refuse proposal reason =>
    exact hn.of_leader rfl rfl le_rfl (by simp [Request.asks, List.filterMap_cons])
      (by simp [Output.answers, List.filterMap_cons])
  | commit k hk hle =>
    refine hn.of_leader ?_ ?_ ?_ ?_ ?_
    exacts [rfl, rfl, hk, rfl, rfl]
  | dispatch entry hlt hentry =>
    refine hn.of_leader ?_ ?_ ?_ (by simp) ?_
    · rw [dispatchEntry_node]
    · rw [dispatchEntry_node]; rfl
    · rw [dispatchEntry_node]; exact le_rfl
    · rw [filterMap_getRight_given]
      unfold dispatchEntry
      rcases entry with ⟨term, _ | _ | _⟩ <;> simp [Output.answers]
  | splice hrole hprev h =>
    obtain ⟨f, rest, hspliced, -⟩ := spliced_of_ok hprev h
    obtain ⟨tracker, configuration, hnode, -⟩ := hspliced.node
    obtain ⟨reason, dropped, houtputs, -⟩ := hspliced.outputs
    rw [hnode, houtputs]
    refine hn.of_leader ?_ ?_ ?_ ?_ ?_
    exacts [rfl, rfl, le_rfl, by simp, by simp]
  | install snapshot staged hrole hnew =>
    obtain ⟨tracker, dropped, hinstall, -⟩ := n.installSnapshotState_eq snapshot
    rw [hinstall]
    refine hn.of_leader ?_ ?_ ?_ ?_ ?_
    exacts [rfl, rfl, le_max_left _ _, by simp,
      by rw [filterMap_getRight_given, List.countP_append, countP_answers_dropOutputs]; rfl]
  | compact h =>
    have hc := compacted_of_ok h
    obtain ⟨dropped, houtputs⟩ := hc.outputs
    exact hn.of_leader hc.leader hc.role hc.commit.ge (by simp [Request.asks])
      (by simp [houtputs, List.filterMap_cons])
  | decline snapshot =>
    exact hn.of_leader rfl rfl le_rfl (by simp [Request.asks]) (by simp [List.filterMap_cons])
  | transfer pending reason =>
    exact ⟨.of_nil rfl, by simp [countP_answers_drainPendingReads, pendingReadIds]⟩
  | register readIds acks hrole htransfer hne hlength =>
    refine ⟨hn.register acks hrole htransfer hne hlength, ?_⟩
    simp [pendingReadIds, beginContactRound, countP_asks_read]
  | grant | reject => exact ⟨hn, by simp [countP_asks_read]⟩
  | acknowledge v sequence =>
    simpa using hn.acknowledge (r := r) v sequence

/-! ## Runs -/

theorem reads_balanced (hn : n.ReadsOk) {requests : List Request} {o : Outcome}
    (h : n.Conducts requests o) :
    o.node.ReadsOk ∧ n.pendingReadIds.count r + requests.countP (·.asks r) =
      o.node.pendingReadIds.count r + o.outputs.countP (·.answers r) := by
  obtain ⟨⟨trace, hpath, rfl, houtputs⟩, -⟩ := h
  rw [← houtputs]
  refine ⟨hpath.invariant (fun hm hs => (hm.reads (r := r) hs).1) hn, ?_⟩
  exact hpath.balance (fun n => n.pendingReadIds.count r)
    (fun l => (l.filterMap Sum.getLeft?).countP (·.asks r))
    (fun l => (l.filterMap Sum.getRight?).countP (·.answers r)) ⟨rfl, by simp⟩ ⟨rfl, by simp⟩
    (fun hm hs => hm.reads hs) hn

/-- Every read barrier is answered exactly once: for every read id the requests are the answers and
the pending occurrences, after any calls on a constructed node. -/
theorem read_barriers_answered_once (h : n.Constructed) (cs : List Call) (r : ReadId) :
    (cs.flatMap Call.requests).countP (·.asks r) =
      (n.calls cs).outputs.countP (·.answers r) + (n.calls cs).node.pendingReadIds.count r := by
  have hnil : n.leader.pendingReads = [] := by rw [h.fresh.1]
  have hbalance := (reads_balanced (r := r) (.of_nil hnil) (n.calls_conducts cs)).2
  simp only [pendingReadIds, hnil] at hbalance ⊢
  simpa [Nat.add_comm] using hbalance

/-- A barrier before node 1 leads, and two more in one batch after. -/
def readTwice : List Call :=
  .step (.readIndex 7) :: (takeOffice.map .step ++ [.stepBatch [.readIndex 8, .readIndex 7]])

/-- The first barrier is rejected, the second pending. -/
theorem read_barriers_answered_once_leader :
    (Node.new oneOfThree).Constructed ∧ (readTwice.flatMap Call.requests).countP (·.asks 7) =
      ((Node.new oneOfThree).calls readTwice).outputs.countP (·.answers 7) +
        ((Node.new oneOfThree).calls readTwice).node.pendingReadIds.count 7 :=
  ⟨.new _, read_barriers_answered_once (.new _) _ 7⟩

/-! ## Validation -/

theorem insertReadIds_eq_ok (seen : List ReadId) {ids : List ReadId} (hnodup : ids.Nodup)
    (hdisjoint : ∀ id ∈ ids, id ∉ seen) : insertReadIds seen ids = .ok (ids.reverse ++ seen) := by
  induction ids generalizing seen with
  | nil => rfl
  | cons id rest ih =>
    obtain ⟨hid, hrest⟩ := List.nodup_cons.1 hnodup
    rw [insertReadIds, if_neg (hdisjoint id (by simp)), ih _ hrest]
    · simp
    · intro x hx
      have hne : x ≠ id := fun heq => hid (heq ▸ hx)
      simp [hne, hdisjoint x (by simp [hx])]

theorem validateRounds_eq_ok {commitIndex sequence : ℕ} (seen : List ReadId) {i s : ℕ}
    {rounds : List PendingReadRound}
    (hround : ∀ p ∈ rounds, p.readIds ≠ [] ∧ p.readIndex ≤ commitIndex ∧
      1 ≤ p.registeredSequence ∧ p.registeredSequence ≤ sequence)
    (hmonotone : rounds.Pairwise fun p q =>
      p.readIndex ≤ q.readIndex ∧ p.registeredSequence ≤ q.registeredSequence)
    (hfirst : ∀ p ∈ rounds, i ≤ p.readIndex ∧ s ≤ p.registeredSequence)
    (hnodup : (rounds.flatMap (·.readIds)).Nodup)
    (hdisjoint : ∀ id ∈ rounds.flatMap (·.readIds), id ∉ seen) :
    validateRounds commitIndex sequence seen i s rounds = .ok () := by
  induction rounds generalizing seen i s with
  | nil => rfl
  | cons p rest ih =>
    obtain ⟨hids, hindex, hpos, hseq⟩ := hround p (by simp)
    obtain ⟨hi, hs⟩ := hfirst p (by simp)
    obtain ⟨hafter, hrest⟩ := List.pairwise_cons.1 hmonotone
    rw [List.flatMap_cons] at hnodup hdisjoint
    obtain ⟨hp, hnodup', hapart⟩ := List.nodup_append.1 hnodup
    have hinsert := insertReadIds_eq_ok seen hp fun id hid =>
      hdisjoint id (List.mem_append_left _ hid)
    have htail := ih (p.readIds.reverse ++ seen) (fun q hq => hround q (by simp [hq])) hrest
      hafter hnodup' (fun id hid => by
        have hseen := hdisjoint id (List.mem_append_right _ hid)
        have hp' : id ∉ p.readIds := fun h => hapart id h id hid rfl
        simp [hseen, hp'])
    have h₁ : ¬ p.readIds.isEmpty := by simpa using hids
    have h₂ : ¬ commitIndex < p.readIndex := by omega
    have h₃ : ¬ (p.readIndex < i ∨ p.registeredSequence < s) := by omega
    have h₄ : ¬ (p.registeredSequence = 0 ∨ sequence < p.registeredSequence) := by omega
    simp only [validateRounds, if_neg h₁, if_neg h₂, if_neg h₃, if_neg h₄, hinsert, bind,
      Except.bind, htail]

theorem ReadsOk.validatePendingReads_eq (h : n.ReadsOk) (hnodup : n.pendingReadIds.Nodup) :
    n.validatePendingReads = .ok () := by
  have hleader : ¬ (!n.leader.pendingReads.isEmpty ∧ n.role ≠ .leader) := by
    rintro ⟨hne, hrole⟩
    exact hrole (h.leader (by simpa using hne))
  have htransfer : ¬ (n.leader.pendingTransfer.isSome ∧ !n.leader.pendingReads.isEmpty) := by
    rintro ⟨hsome, hne⟩
    simp [h.transfer (by simpa using hne)] at hsome
  rw [validatePendingReads, if_neg hleader, if_neg htransfer, if_neg (not_lt.2 h.count)]
  exact validateRounds_eq_ok [] h.round h.monotone (by simp) hnodup (by simp)

end Node

/-- The read id of a read barrier. -/
def Request.readId? : Request → Option ReadId
  | .read id => some id
  | _ => none

namespace Node

variable {n n' : Node} {r : ReadId}

/-- The read ids a call asks for. -/
def Call.readIds (c : Call) : List ReadId := c.requests.filterMap Request.readId?

/-- No call asks for a read id twice or for one that is still pending. -/
def FreshReads (n : Node) : List Call → Prop
  | [] => True
  | c :: rest => c.readIds.Nodup ∧ (∀ id ∈ c.readIds, id ∉ n.pendingReadIds) ∧
    (n.call c).node.FreshReads rest

instance decidableFreshReads : (n : Node) → (cs : List Call) → Decidable (n.FreshReads cs)
  | _, [] => .isTrue trivial
  | n, c :: rest =>
    have := decidableFreshReads (n.call c).node rest
    inferInstanceAs (Decidable (_ ∧ _ ∧ _))

theorem count_readIds (c : Call) : c.requests.countP (·.asks r) = c.readIds.count r := by
  unfold Call.readIds
  induction c.requests with
  | nil => rfl
  | cons q rest ih =>
    rw [List.countP_cons, ih]
    cases q <;> simp [Request.asks, Request.readId?, List.filterMap_cons, List.count_cons]

/-- Pending ids stay distinct over a call that asks for fresh ones. -/
theorem nodup_pendingReadIds_call (h : n.ReadsOk) (hnodup : n.pendingReadIds.Nodup) {c : Call}
    (hc : c.readIds.Nodup) (hfresh : ∀ id ∈ c.readIds, id ∉ n.pendingReadIds) :
    (n.call c).node.pendingReadIds.Nodup := by
  rw [List.nodup_iff_count_le_one] at hnodup hc ⊢
  intro id
  have hbalance := (reads_balanced (r := id) h (n.call_conducts c)).2
  rw [count_readIds] at hbalance
  have hpending := hnodup id
  by_cases hid : id ∈ c.readIds
  · have := List.count_eq_zero.2 (hfresh id hid)
    have := hc id
    omega
  · have := List.count_eq_zero.2 hid
    omega

theorem FreshReads.validatePendingReads_eq {cs : List Call} (h : n.ReadsOk)
    (hnodup : n.pendingReadIds.Nodup) (hfresh : n.FreshReads cs) :
    (n.calls cs).node.validatePendingReads = .ok () := by
  induction cs generalizing n with
  | nil => exact h.validatePendingReads_eq hnodup
  | cons c rest ih =>
    obtain ⟨hc, hpending, hrest⟩ := hfresh
    exact ih (reads_balanced (r := 0) h (n.call_conducts c)).1
      (nodup_pendingReadIds_call h hnodup hc hpending) hrest

/-- The pending-read part of `validate_derived_state` accepts every reached state of a run whose
calls ask for read ids that are neither repeated nor still pending. -/
theorem pending_reads_valid (config : NodeConfig) (cs : List Call)
    (h : (Node.new config).FreshReads cs) :
    ((Node.new config).calls cs).node.validatePendingReads = .ok () :=
  h.validatePendingReads_eq (.of_nil rfl) List.nodup_nil

/-- Two rounds on a leader, with three ids. -/
def readApart : List Call :=
  takeOffice.map .step ++ [.stepBatch [.readIndex 7, .readIndex 8], .step (.readIndex 9)]

theorem pending_reads_valid_leader : (Node.new oneOfThree).FreshReads readApart ∧
    ((Node.new oneOfThree).calls readApart).node.validatePendingReads = .ok () := by
  have hfresh : (Node.new oneOfThree).FreshReads readApart := by decide +kernel
  exact ⟨hfresh, pending_reads_valid _ _ hfresh⟩

/-- Two barriers of one id on a leader. -/
def readAgain : List Input := takeOffice ++ [.readIndex 7, .readIndex 7]

/-- A leader asked twice for one read id holds it in two rounds, which the validation refuses. -/
theorem pending_read_duplicated : ¬ ∀ (config : NodeConfig) (inputs : List Input),
    ((Node.new config).calls (inputs.map .step)).node.validatePendingReads = .ok () := by
  intro h
  have hrefused : ((Node.new oneOfThree).calls (readAgain.map .step)).node.validatePendingReads =
      .error "pending read ID ReadId(7) is duplicated" := by decide +kernel
  rw [h] at hrefused
  simp at hrefused

end Node

end Rafter
