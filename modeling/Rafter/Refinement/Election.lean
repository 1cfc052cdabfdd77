import Rafter.Node.Election
import Rafter.Refinement.Lifecycle

/-!
# Elections refine the protocol

The functions of `Node/Election.lean`. Opening a campaign is the protocol's `campaign`, granting a
vote its `vote`, and a quorum of recorded votes its `elect`. Pre-votes take no protocol action.

Results:

* `NodeOk.candidateState`, `NodeOk.castVote`, `NodeOk.addVote`.
-/

namespace Rafter

open Protocol

variable {initial : MembershipConfig} {s : Ghost} {i : NodeId} {n : Node}

/-! ## Campaigns -/

theorem NodeOk.candidateState (hI : (raftScheme initial).Inv s) (h : NodeOk initial i s n)
    (hr : n.role ≠ .leader) {u : ℕ} (hu : n.currentTerm < u) :
    ∃ s', (raftScheme initial).Steps i s s' ∧ NodeOk initial i s' (n.candidateState u) := by
  have hstep := Scheme.Step.campaign (S := raftScheme initial) (s := s) i u
    (by rw [h.term]; exact hu)
  have hex := hI.extends hstep
  refine ⟨_, .single hstep, h.id, by simp [Node.candidateState, Node.currentTerm], ?_, ?_, ?_,
    fun _ => ⟨?_, ?_, ?_⟩, fun hr' => by simp [Node.role, Node.candidateState] at hr',
    fun _ => h.progress hr⟩
  · exact h.rep.of_eq rfl rfl rfl rfl rfl hu.le le_rfl h.rep.dispatched_le le_rfl h.rep.commit_le
  · exact h.commit.mono hI hex hu.le
  · rintro c (hv | ⟨-, -, rfl⟩)
    · exact absurd (h.term ▸ hI.vote_term hv) (by
        simp only [Node.candidateState, Node.currentTerm]; exact Nat.not_le.2 hu)
    · exact congrArg some h.id
  · show Function.update s.cand u _ u i = _
    simp
  · intro v hv
    obtain rfl := List.mem_singleton.1 hv
    exact .inr ⟨h.id, rfl, rfl⟩
  · intro d hd hdn
    have hc := (hI.lead hd).cand
    rw [hdn] at hc
    exact absurd (h.term ▸ hI.cand_term hc) (by
      simp only [Node.candidateState, Node.currentTerm]; exact Nat.not_le.2 hu)

theorem outputOk_voteRequests {m : Message} (hm : ∀ r, MessageOk initial i s r m) :
    ∀ x ∈ n.voteRequests m, OutputOk initial i s x := by
  intro x hx
  obtain ⟨v, -, rfl⟩ := List.mem_map.1 hx
  exact hm v

theorem NodeOk.setPreCandidate (h : NodeOk initial i s n) (hr : n.role ≠ .leader) :
    NodeOk initial i s { n with volatile.role := .preCandidate } where
  id := h.id
  term := h.term
  rep := h.rep.of_eq rfl rfl rfl rfl rfl le_rfl le_rfl h.rep.dispatched_le le_rfl h.rep.commit_le
  commit := h.commit
  vote := h.vote
  candidate hr' := by simp [Node.role] at hr'
  leader hr' := by simp [Node.role] at hr'
  progress _ := h.progress hr

/-! ## Votes -/

theorem NodeOk.castVote (hI : (raftScheme initial).Inv s) (h : NodeOk initial i s n) {j : NodeId}
    {m : VoteRequest} (hm : ∃ y, s.cand m.term j = some y ∧ y.length = m.lastLogIndex ∧
      (raftScheme initial).lastTerm y = m.lastLogTerm) : Reaches initial i s (n.castVote j m) := by
  unfold Node.castVote
  dsimp only
  generalize hg : (decide (m.term = n.currentTerm) && n.effectiveMembership.containsVoter j &&
    n.logUpToDate m && n.persistent.votedFor.all (· = j)) = granted
  cases granted with
  | false =>
    refine .of_core h rfl fun x hx => ?_
    obtain rfl := List.mem_singleton.1 hx
    intro hv
    exact absurd hv (by simp)
  | true =>
    simp only [Bool.and_eq_true, decide_eq_true_eq] at hg
    obtain ⟨⟨⟨hterm, -⟩, hup⟩, hvoted⟩ := hg
    obtain ⟨y, hy, hlen, hlast⟩ := hm
    rw [hterm] at hy
    have hunique : ∀ c, s.votes i n.currentTerm c → c = j := by
      intro c hc
      rw [h.vote c hc, Option.all_some] at hvoted
      simpa using hvoted
    have huptodate : (raftScheme initial).UpToDate y (s.log i) := by
      unfold Node.logUpToDate at hup
      rw [h.rep.lastLogTerm_eq, h.rep.lastLogIndex_eq, ← hlen, ← hlast] at hup
      simpa [Scheme.UpToDate] using hup
    have hstep := Scheme.Step.vote (S := raftScheme initial) i n.currentTerm j y hy h.term hunique
      huptodate
    have hex := hI.extends hstep
    refine ⟨_, .single hstep, ⟨h.id, h.term, ?_, h.commit.mono hI hex le_rfl, ?_, fun hr => ?_,
      fun hr => ?_, h.progress⟩, fun x hx => ?_⟩
    · exact h.rep.of_eq rfl rfl rfl rfl rfl le_rfl le_rfl h.rep.dispatched_le le_rfl
        h.rep.commit_le
    · rintro c (hc | ⟨-, -, rfl⟩)
      · exact congrArg some (hunique c hc).symm
      · rfl
    · have hc := h.candidate hr
      exact ⟨hc.cand, fun v hv => .inl (hc.votes v hv), hc.lead⟩
    · exact ⟨(h.leader hr).lead, (h.leader hr).commits, (h.leader hr).rows,
        (h.leader hr).discipline⟩
    · obtain rfl := List.mem_singleton.1 hx
      exact fun _ => .inr ⟨rfl, rfl, rfl⟩

theorem NodeOk.addVote (h : NodeOk initial i s n) (hr : n.role = .candidate) {v : NodeId}
    (hv : s.votes v n.currentTerm i) :
    NodeOk initial i s { n with election.votes := insertId v n.election.votes } where
  id := h.id
  term := h.term
  rep := h.rep.of_eq rfl rfl rfl rfl rfl le_rfl le_rfl h.rep.dispatched_le le_rfl h.rep.commit_le
  commit := h.commit
  vote := h.vote
  candidate _ := by
    have hc := h.candidate hr
    refine ⟨hc.cand, fun w hw => ?_, hc.lead⟩
    rcases mem_insertId.1 hw with rfl | hw
    · exact hv
    · exact hc.votes w hw
  leader hr' := absurd (hr.symm.trans hr') (by simp)
  progress := h.progress

end Rafter
