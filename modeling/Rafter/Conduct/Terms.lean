import Rafter.Conduct.Step

/-!
# Terms and votes

What a node does to its term and its vote, whatever inputs it takes: messages may carry any term and
come from anybody.

Results:

* `Node.terms_and_votes_move_forward`: terms and votes move forward, and every campaign is of a new
  term that exists.
-/

namespace Rafter

namespace Node

variable {n : Node}

/-- The node after some inputs. -/
def after (n : Node) : List Input → Node
  | [] => n
  | input :: rest => (n.step input).node.after rest

theorem after_append (n : Node) (front back : List Input) :
    n.after (front ++ back) = (n.after front).after back := by
  induction front generalizing n with
  | nil => rfl
  | cons input rest ih => exact ih _

theorem forward_after (n : Node) (inputs : List Input) : n.Forward (n.after inputs) := by
  induction inputs generalizing n with
  | nil => exact .refl n
  | cons input rest ih => exact (n.step_acts input).forward.trans (ih _)

theorem castVote_of_granted {v : NodeId} {request : VoteRequest} {r : VoteResponse}
    (h : .send v (.requestVoteResponse r) ∈ (n.castVote v request).outputs)
    (hgranted : r.voteGranted) : (n.castVote v request).node.persistent.votedFor = some v ∧
      (n.castVote v request).node.currentTerm = r.term := by
  have hr := Message.requestVoteResponse.inj (Output.send.inj (List.mem_singleton.1 h)).2
  rw [hr] at hgranted ⊢
  dsimp only at hgranted ⊢
  unfold castVote
  dsimp only
  rw [if_pos hgranted]
  exact ⟨rfl, rfl⟩

/-- Only the answer to a candidate grants a vote. -/
theorem vote_of_granted {input : Input} {v : NodeId} {r : VoteResponse}
    (h : .send v (.requestVoteResponse r) ∈ (n.step input).outputs) (hgranted : r.voteGranted) :
    (n.step input).node.persistent.votedFor = some v ∧
      (n.step input).node.currentTerm = r.term := by
  obtain ⟨k, -, -, hlicit⟩ := (n.step_acts input).licit h
  obtain ⟨request, hinput⟩ := hlicit hgranted
  obtain rfl := Option.some_inj.1 hinput
  change .send v (.requestVoteResponse r) ∈ (n.receive v (.requestVote request)).outputs at h
  change (n.receive v (.requestVote request)).node.persistent.votedFor = some v ∧
    (n.receive v (.requestVote request)).node.currentTerm = r.term
  unfold receive at h ⊢
  split_ifs at h ⊢
  · change _ ∈ (n.handleRequestVote v request).outputs at h
    change (n.handleRequestVote v request).node.persistent.votedFor = some v ∧
      (n.handleRequestVote v request).node.currentTerm = r.term
    unfold handleRequestVote at h ⊢
    dsimp only at h ⊢
    rw [Outcome.andThen_outputs] at h
    rw [Outcome.andThen_node]
    rcases List.mem_append.1 h with hadopt | hcast
    · -- stepping down answers nobody
      split_ifs at hadopt
      · cases n.isIdle_becomeFollower request.term _ hadopt
      · cases hadopt
    · exact castVote_of_granted hcast hgranted
  · cases h

/-- Terms never decrease, a vote stands for its term, a granted vote is the one on record, and every
poll and campaign is for a later term that exists, so none is started at the last term. -/
theorem terms_and_votes_move_forward (n : Node) (front back : List Input) (input : Input) :
    (n.after front).currentTerm ≤ (n.after (front ++ back)).currentTerm ∧
    (∀ v, (n.after front).persistent.votedFor = some v →
      (n.after (front ++ back)).currentTerm = (n.after front).currentTerm →
      (n.after (front ++ back)).persistent.votedFor = some v) ∧
    (∀ v r, .send v (.requestVoteResponse r) ∈ ((n.after front).step input).outputs →
      r.voteGranted → (n.after (front ++ [input])).persistent.votedFor = some v ∧
        (n.after (front ++ [input])).currentTerm = r.term) ∧
    (∀ v r, .send v (.requestVote r) ∈ ((n.after front).step input).outputs ∨
      .send v (.preVote r) ∈ ((n.after front).step input).outputs →
      (n.after front).currentTerm < r.term ∧ r.term ≤ u64Max) ∧
    ((n.after (front ++ [input])).role = .candidate ∨
        (n.after (front ++ [input])).role = .leader →
      (n.after (front ++ [input])).currentTerm = (n.after front).currentTerm ∧
          ((n.after front).role = .candidate ∨ (n.after front).role = .leader) ∨
        (n.after front).currentTerm < (n.after (front ++ [input])).currentTerm ∧
          (n.after (front ++ [input])).currentTerm ≤ u64Max) := by
  rw [after_append, after_append]
  generalize n.after front = m
  have hforward := m.forward_after back
  have hstep := (m.step_acts input).forward
  refine ⟨hforward.term, fun v hv hterm => ?_,
    fun v r hmem hgranted => vote_of_granted hmem hgranted,
    fun v r hmem => ?_, fun hrole => ?_⟩
  · rw [hforward.vote hterm (by simp [hv]), hv]
  · rcases hmem with hmem | hmem
    · obtain ⟨k, -, -, hlicit⟩ := (m.step_acts input).licit hmem
      exact hlicit
    · obtain ⟨k, -, -, hlicit⟩ := (m.step_acts input).licit hmem
      exact hlicit
  · change (m.step input).node.role = .candidate ∨ (m.step input).node.role = .leader at hrole
    by_cases hlt : m.currentTerm < (m.step input).node.currentTerm
    · exact .inr ⟨hlt, hstep.campaign hlt hrole⟩
    · have hterm := hstep.term.antisymm (not_lt.1 hlt)
      refine .inl ⟨hterm.symm, ?_⟩
      rcases hrole with hrole | hrole
      · rcases hstep.candidacy hrole with ⟨hrole', -⟩ | hlater
        · exact .inl hrole'
        · exact absurd hlater hlt
      · exact (hstep.office hrole hterm.symm).imp_right And.left

end Node

end Rafter
