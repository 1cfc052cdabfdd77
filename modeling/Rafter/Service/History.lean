import Mathlib.Order.Bounds.Basic
import Rafter.Service.Membership

/-!
# Honest membership facts fold in any order

A committed configuration history assigns every log position the configuration in force there. The
allocation contract of `rafter::NodeId` is a field: every newly admitted identity exceeds every
identity committed before it. Facts of such a history are crossings, endpoints and the checkpoints
that folds of such facts produce; folding them is `observe_committed` and `restore_checkpoint`
(`candidate/committed.rs`, `checkpoint.rs`).

Results:

* `honest_facts_fold`: in any order and with any repetition, no fold of honest facts refuses, and
  the register and the mark depend on the set of facts only.
-/

namespace Rafter.Service

open Bytes (bind_eq_ok_iff pure_eq_ok_iff map_eq_ok_iff)

/-! ## Committed histories -/

/-- The configuration in force at every log position. -/
structure History where
  membershipAt : ℕ → MembershipConfig
  fresh : ∀ position n, n ∈ members (membershipAt (position + 1)) →
    n ∉ members (membershipAt position) →
    ∀ earlier ≤ position, ∀ m ∈ members (membershipAt earlier), m < n

namespace History

variable (h : History)

/-- The replicas in force at a position. -/
def replicas (position : ℕ) : Finset NodeId := members (h.membershipAt position)

/-- An identity admitted after a position exceeds everything committed up to it. -/
theorem lt_of_admitted_after {position later : ℕ} {n : NodeId} (hle : position ≤ later)
    (hn : n ∈ h.replicas later) (hnot : n ∉ h.replicas position) {earlier : ℕ}
    (hearlier : earlier ≤ position) {m : NodeId} (hm : m ∈ h.replicas earlier) : m < n := by
  induction later, hle using Nat.le_induction with
  | base => exact absurd hn hnot
  | succ later hle ih =>
    by_cases hlast : n ∈ h.replicas later
    · exact ih hlast
    · exact h.fresh later n hn hlast earlier (hearlier.trans hle) m hm

/-- A removed identity does not come back. -/
theorem gone {named position later : ℕ} {n : NodeId} (hnamed : n ∈ h.replicas named)
    (hle : named ≤ position) (hnot : n ∉ h.replicas position) (hlater : position ≤ later) :
    n ∉ h.replicas later := fun hn =>
  lt_irrefl n (h.lt_of_admitted_after hlater hn hnot hle hnamed)

end History

/-! ## Offers -/

/-- What is offered to a candidate: one committed fact, or a whole record. -/
inductive Offer (G : Type) where
  | fact (fact : CommittedObservation)
  | record (record : PeerControlPlaneCheckpoint G) (join : RecordJoin)

/-- The record of a candidate that met no contradiction. -/
def MembershipCandidate.checkpoint {G : Type} (c : MembershipCandidate) (group : G) :
    PeerControlPlaneCheckpoint G :=
  ⟨group, c.committedIdHighWater, c.currentCommitted, none⟩

namespace Offer

variable {G : Type}

/-- Fold what is offered into the candidate. -/
def fold [DecidableEq G] (group : G) (c : MembershipCandidate) :
    Offer G → Except ControlPlaneCheckpointError MembershipCandidate
  | fact f => c.observeCommitted f
  | record r join => (restoreCheckpoint c r group join).map Prod.fst

/-- The position an offer observes the committed membership at. -/
def position : Offer G → Option ℕ
  | fact f => some f.through
  | record r _ => r.currentCommitted.map CurrentCommittedState.through

/-- The greatest identity an offer names. -/
def mark : Offer G → Option NodeId
  | fact f => highest f.named
  | record r _ => r.committedIdHighWater

/-- The identities an offer names: a record names the greatest of those its facts named. -/
def Names (n : NodeId) : Offer G → Prop
  | fact f => n ∈ f.named
  | record r _ => r.committedIdHighWater = some n

/-- The offer is a stored record. -/
def IsRecord : Offer G → Prop
  | fact _ => False
  | record _ _ => True

end Offer

/-- Fold a sequence of offers. -/
def foldOffers {G : Type} [DecidableEq G] (group : G) (offers : List (Offer G))
    (c : MembershipCandidate) : Except ControlPlaneCheckpointError MembershipCandidate :=
  offers.foldlM (fun c o => o.fold group c) c

/-- The position rule: a record is offered to a candidate that has observed nothing later. -/
def InPosition {G : Type} (offers : List (Offer G)) : Prop :=
  offers.Pairwise fun earlier later =>
    later.IsRecord → ∀ p ∈ earlier.position, ∀ q ∈ later.position, p ≤ q

/-- The offers that are true of a history. -/
inductive History.Holds {G : Type} [DecidableEq G] (h : History) (group : G) : Offer G → Prop where
  /-- The entry right above `index`, with the membership before it and from it on. -/
  | crossing (index : ℕ) : Holds h group
      (.fact (.crossing (index + 1) (h.membershipAt index) (h.membershipAt (index + 1))))
  | endpoint (position : ℕ) : Holds h group
      (.fact (.endpoint position (h.membershipAt position)))
  /-- The record of a fold of such offers. -/
  | record (offers : List (Offer G)) (c : MembershipCandidate) (join : RecordJoin) :
      (∀ o ∈ offers, Holds h group o) → foldOffers group offers .empty = .ok c →
      Holds h group (.record (c.checkpoint group) join)

/-! ## The invariant of a fold -/

namespace History

variable {h : History} {position : ℕ} {removed : Finset NodeId} {spent : NodeId → Bool}

/-- A mark and a register that summarise facts of the history: the register is exact where it
stands, and the mark was committed no later than that. -/
structure Summary (h : History) (mark : Option NodeId) (current : Option CurrentCommittedState) :
    Prop where
  recorded : Recorded mark current
  exact : ∀ cur ∈ current, cur.membership = h.replicas cur.through
  reached : ∀ m ∈ mark, ∃ cur ∈ current, ∃ earlier ≤ cur.through, m ∈ h.replicas earlier

/-- What a committed fact of the history asserts. -/
structure Attests (h : History) (fact : CommittedObservation) : Prop where
  membership : fact.membership = h.replicas fact.through
  previous : ∀ prev ∈ fact.previous, ∀ p, p + 1 = fact.through → prev = h.replicas p
  removed : ∀ n ∈ fact.removed, n ∉ h.replicas fact.through ∧
    ∃ earlier ≤ fact.through, n ∈ h.replicas earlier
  named : ∀ n ∈ fact.named, ∃ earlier ≤ fact.through, n ∈ h.replicas earlier

theorem crossing_attests (index : ℕ) :
    h.Attests (.crossing (index + 1) (h.membershipAt index) (h.membershipAt (index + 1))) where
  membership := rfl
  previous := by
    intro prev hprev p hp
    cases hprev
    obtain rfl : p = index := Nat.succ_injective hp
    rfl
  removed := by
    intro n hn
    rw [CommittedObservation.crossing, Finset.mem_sdiff] at hn
    exact ⟨hn.2, index, Nat.le_succ index, hn.1⟩
  named := by
    intro n hn
    rcases Finset.mem_union.1 hn with hn | hn
    · exact ⟨index, Nat.le_succ index, hn⟩
    · exact ⟨index + 1, le_rfl, hn⟩

theorem endpoint_attests (position : ℕ) :
    h.Attests (.endpoint position (h.membershipAt position)) where
  membership := rfl
  previous := by
    intro prev hprev
    cases hprev
  removed := by
    intro n hn
    exact absurd hn (Finset.notMem_empty n)
  named := fun n hn => ⟨position, le_rfl, hn⟩

variable {mark : Option NodeId} {current : Option CurrentCommittedState}

/-- What is in force no earlier than the register is not spent. -/
theorem Summary.not_spent (hs : h.Summary mark current) {n : NodeId} (hn : n ∈ h.replicas position)
    (hle : ∀ cur ∈ current, cur.through ≤ position) : spendsUnder mark current n = false := by
  rw [Bool.eq_false_iff]
  intro hspent
  obtain ⟨⟨m, hm, hnm⟩, hnot⟩ := spendsUnder_iff.1 hspent
  obtain ⟨cur, hcur, earlier, hearlier, hmem⟩ := hs.reached m hm
  have hgone : n ∉ h.replicas cur.through := hs.exact cur hcur ▸ hnot cur hcur
  have hlt := h.lt_of_admitted_after (hle cur hcur) hn hgone hearlier hmem
  exact absurd hnm (not_le.2 hlt)

/-- The later of two memberships of the history loses nothing in a merge. -/
theorem laterState_eq {older newer : ℕ} (hremoved : ∀ n ∈ h.replicas newer, n ∉ removed)
    (hspent : ∀ n ∈ h.replicas newer, spent n = false) :
    laterState newer (h.replicas older) (h.replicas newer) removed spent =
      ⟨newer, h.replicas newer⟩ := by
  rw [laterState, live_eq_self]
  intro n hn
  refine ⟨fun hmem => ?_, hspent n hn⟩
  rcases Finset.mem_union.1 hmem with hmem | hmem
  · exact (Finset.mem_sdiff.1 hmem).2 hn
  · exact hremoved n hn hmem

/-- Merging a true observation moves the register to the later position, where it is exact. -/
theorem Summary.merge (hs : h.Summary mark current)
    (hremoved : ∀ n ∈ removed, n ∉ h.replicas position ∧
      ∃ earlier ≤ position, n ∈ h.replicas earlier)
    (hspent : ∀ later, position ≤ later → (∀ cur ∈ current, cur.through ≤ later) →
      ∀ n ∈ h.replicas later, spent n = false) :
    ∃ top, higherMark (current.map CurrentCommittedState.through) (some position) = some top ∧
      mergeCurrentState current ⟨position, h.replicas position, removed⟩ spent =
        .ok ⟨top, h.replicas top⟩ := by
  -- What was removed by the observation's position is in force at no later one.
  have hgone : ∀ later, position ≤ later → ∀ n ∈ h.replicas later, n ∉ removed := by
    intro later hlater n hn hmem
    obtain ⟨hnot, earlier, hearlier, hnamed⟩ := hremoved n hmem
    exact h.gone hnamed hearlier hnot hlater hn
  cases current with
  | none =>
    refine ⟨position, rfl, ?_⟩
    rw [mergeCurrentState, live_eq_self]
    intro n hn
    exact ⟨hgone position le_rfl n hn, hspent position le_rfl (by simp) n hn⟩
  | some cur =>
    have hexact := hs.exact cur rfl
    refine ⟨max cur.through position, rfl, ?_⟩
    rw [mergeCurrentState]
    rcases lt_trichotomy cur.through position with hlt | heq | hgt
    · have hle : ∀ held ∈ some cur, held.through ≤ position := by simpa using hlt.le
      rw [if_pos hlt, max_eq_right hlt.le, hexact,
        laterState_eq (hgone position le_rfl) (hspent position le_rfl hle)]
    · subst heq
      rw [if_neg (lt_irrefl _), if_neg (lt_irrefl _), hexact, if_pos rfl, max_self, live_eq_self]
      intro n hn
      exact ⟨Finset.notMem_empty n, hspent cur.through le_rfl (by simp) n hn⟩
    · have hle : ∀ held ∈ some cur, held.through ≤ cur.through := by simp
      rw [if_neg hgt.not_gt, if_pos hgt, max_eq_left hgt.le, hexact,
        laterState_eq (hgone cur.through hgt.le) (hspent cur.through hgt.le hle)]

/-! ## One offer -/

/-- What an offer has to be for the fold to keep its summary. -/
def Sound {G : Type} (h : History) (group : G) : Offer G → Prop
  | .fact f => h.Attests f
  | .record r _ => r.group = group ∧ r.contradictedAt = none ∧
      h.Summary r.committedIdHighWater r.currentCommitted

/-- A mark reached by the offer's position keeps the summary when the register moves there. -/
theorem Summary.raise (hs : h.Summary mark current) {position top : ℕ} {offered : Option NodeId}
    (htop : higherMark (current.map CurrentCommittedState.through) (some position) = some top)
    (hcovers : ∀ n ∈ h.replicas position, ∃ m ∈ offered, n ≤ m)
    (hreached : ∀ m ∈ offered, ∃ earlier ≤ position, m ∈ h.replicas earlier) :
    h.Summary (higherMark mark offered) (some ⟨top, h.replicas top⟩) := by
  have hposition : position ≤ top := by
    obtain ⟨m, hm, hle⟩ := le_higherMark.2 (.inr ⟨position, rfl, le_rfl⟩)
    rw [htop] at hm
    cases hm
    exact hle
  have hthrough : ∀ cur ∈ current, cur.through ≤ top := by
    intro cur hcur
    have hmem : cur.through ∈ current.map CurrentCommittedState.through :=
      Option.mem_map_of_mem _ hcur
    obtain ⟨m, hm, hle⟩ := le_higherMark.2 (.inl ⟨cur.through, hmem, le_rfl⟩)
    rw [htop] at hm
    cases hm
    exact hle
  refine ⟨⟨iff_of_true rfl ?_, ?_⟩, ?_, ?_⟩
  · obtain ⟨n, hn⟩ := members_nonempty (h.membershipAt position)
    obtain ⟨m, hm, -⟩ := le_higherMark.2 (.inr (hcovers n hn))
    exact Option.isSome_iff_exists.2 ⟨m, hm⟩
  · intro cur hcur n hn
    cases hcur
    refine le_higherMark.2 ?_
    rcases mem_higherMark htop with hfrom | hfrom
    · obtain ⟨cur, hcur, rfl⟩ := Option.mem_map.1 hfrom
      exact .inl (hs.recorded.le_mark cur hcur n (hs.exact cur hcur ▸ hn))
    · cases hfrom
      exact .inr (hcovers n hn)
  · intro cur hcur
    cases hcur
    rfl
  · intro m hm
    refine ⟨_, rfl, ?_⟩
    rcases mem_higherMark hm with hm | hm
    · obtain ⟨cur, hcur, earlier, hearlier, hmem⟩ := hs.reached m hm
      exact ⟨earlier, hearlier.trans (hthrough cur hcur), hmem⟩
    · obtain ⟨earlier, hearlier, hmem⟩ := hreached m hm
      exact ⟨earlier, hearlier.trans hposition, hmem⟩

/-- The ancestry of a true fact agrees with an exact register. -/
theorem Summary.checkAncestry {c : MembershipCandidate} {f : CommittedObservation}
    (hs : h.Summary c.committedIdHighWater c.currentCommitted) (hf : h.Attests f) :
    c.checkAncestry f = .ok () := by
  unfold MembershipCandidate.checkAncestry
  split
  · rfl
  · rename_i held hheld
    split
    · rfl
    · rename_i claimed hclaimed
      unfold CommittedObservation.membershipClaimedAt at hclaimed
      split at hclaimed
      · rename_i hnext
        have hprev := hf.previous claimed hclaimed held.through (checkedNext_eq_some hnext).symm
        rw [hs.exact held hheld, hprev, if_pos rfl]
      · cases hclaimed

/-- The summary of a candidate's fields. -/
def Summarises (h : History) (c : MembershipCandidate) : Prop :=
  h.Summary c.committedIdHighWater c.currentCommitted

/-- What a fold of one sound offer yields: the later position and the higher mark. -/
structure Folded {G : Type} (h : History) (c : MembershipCandidate) (o : Offer G)
    (c' : MembershipCandidate) : Prop where
  summarises : h.Summarises c'
  position : c'.currentCommitted.map CurrentCommittedState.through =
    higherMark (c.currentCommitted.map CurrentCommittedState.through) o.position
  mark : c'.committedIdHighWater = higherMark c.committedIdHighWater o.mark

theorem fold_fact {G : Type} [DecidableEq G] {group : G} {c : MembershipCandidate}
    {f : CommittedObservation} (hs : h.Summarises c) (hf : h.Attests f) :
    ∃ c', (Offer.fact f : Offer G).fold group c = .ok c' ∧
      h.Folded c (Offer.fact f : Offer G) c' := by
  have hspent : ∀ later, f.through ≤ later →
      (∀ cur ∈ c.currentCommitted, cur.through ≤ later) →
      ∀ n ∈ h.replicas later, c.isSpent n = false :=
    fun later _ hle n hn => hs.not_spent hn hle
  obtain ⟨top, htop, hmerge⟩ := hs.merge hf.removed hspent
  rw [← hf.membership] at hmerge
  refine ⟨{ c with
    committedIdHighWater := higherMark c.committedIdHighWater (highest f.named)
    currentCommitted := some ⟨top, h.replicas top⟩
    committedMembers := f.membership }, ?_, ?_, htop.symm, rfl⟩
  · show c.observeCommitted f = _
    rw [MembershipCandidate.observeCommitted, MembershipCandidate.mergeFact,
      Summary.checkAncestry hs hf, hmerge]
    rfl
  · refine Summary.raise hs htop (fun n hn => ?_) fun m hm => hf.named m (highest_mem hm)
    rw [← hf.membership] at hn
    exact le_highest (f.membership_subset hn)

theorem fold_record {G : Type} [DecidableEq G] {group : G} {c : MembershipCandidate}
    {r : PeerControlPlaneCheckpoint G} {join : RecordJoin} (hs : h.Summarises c)
    (hr : h.Sound group (.record r join))
    (hstale : checkStale c.currentCommitted r.currentCommitted = .ok ()) :
    ∃ c', (Offer.record r join).fold group c = .ok c' ∧ h.Folded c (.record r join) c' := by
  obtain ⟨hgroup, hmarker, hrs⟩ := hr
  have hvalid : r.validate group = .ok () :=
    PeerControlPlaneCheckpoint.validate_ok_iff.2 ⟨hgroup, by simp [hmarker], hrs.recorded⟩
  -- It is enough to find the joined register: the rest of the join is the mark.
  suffices hjoin : ∃ current,
      joinCurrent c r.committedIdHighWater r.currentCommitted = .ok current ∧
      h.Summary (higherMark c.committedIdHighWater r.committedIdHighWater) current ∧
      current.map CurrentCommittedState.through =
        higherMark (c.currentCommitted.map CurrentCommittedState.through)
          (r.currentCommitted.map CurrentCommittedState.through) by
    obtain ⟨current, hcurrent, hsummary, hposition⟩ := hjoin
    refine ⟨{ c with
      committedIdHighWater := higherMark c.committedIdHighWater r.committedIdHighWater
      currentCommitted := current }, ?_, hsummary, hposition, rfl⟩
    have hjoined : (⟨group, higherMark c.committedIdHighWater r.committedIdHighWater, current,
        none⟩ : PeerControlPlaneCheckpoint G).validate group = .ok () :=
      PeerControlPlaneCheckpoint.validate_ok_iff.2 ⟨rfl, by simp, hsummary.recorded⟩
    show (restoreCheckpoint c r group join).map Prod.fst = _
    simp only [restoreCheckpoint, hvalid, hmarker, hstale, hcurrent, hjoined, bind, Except.bind,
      pure, Except.pure, Except.map]
  cases hrestored : r.currentCommitted with
  | none =>
    have hnone : r.committedIdHighWater = none := by
      have hiff := hrs.recorded.isSome_iff
      rw [hrestored] at hiff
      simpa using hiff
    refine ⟨c.currentCommitted, rfl, ?_, by simp⟩
    rw [hnone, higherMark_none]
    exact hs
  | some incoming =>
    have hexact := hrs.exact incoming hrestored
    have hspent : ∀ later, incoming.through ≤ later →
        (∀ cur ∈ c.currentCommitted, cur.through ≤ later) → ∀ n ∈ h.replicas later,
        (c.isSpent n || spendsUnder r.committedIdHighWater (some incoming) n) = false := by
      intro later hlater hle n hn
      rw [Bool.or_eq_false_iff]
      refine ⟨hs.not_spent hn hle, ?_⟩
      rw [← hrestored]
      refine hrs.not_spent hn fun cur hcur => ?_
      rw [hrestored] at hcur
      cases hcur
      exact hlater
    have hremoved : ∀ n ∈ (∅ : Finset NodeId), n ∉ h.replicas incoming.through ∧
        ∃ earlier ≤ incoming.through, n ∈ h.replicas earlier := by simp
    obtain ⟨top, htop, hmerge⟩ := hs.merge hremoved hspent
    rw [← hexact] at hmerge
    refine ⟨some ⟨top, h.replicas top⟩, ?_, ?_, htop.symm⟩
    · rw [joinCurrent, hmerge]
      rfl
    · refine Summary.raise hs htop (fun n hn => ?_) fun m hm => ?_
      · rw [← hexact] at hn
        exact hrs.recorded.le_mark incoming hrestored n hn
      · obtain ⟨cur, hcur, hreached⟩ := hrs.reached m hm
        rw [hrestored] at hcur
        cases hcur
        exact hreached

/-! ## Any sequence of offers -/

variable {G : Type} [DecidableEq G] {group : G} {c c' : MembershipCandidate}
  {offers : List (Offer G)}

/-- An offer that was accepted was not stale, so it folded. -/
theorem fold_ok {o : Offer G} (hs : h.Summarises c) (ho : h.Sound group o)
    (hfold : o.fold group c = .ok c') : h.Folded c o c' := by
  cases o with
  | fact f =>
    obtain ⟨c₁, hfold₁, hfolded⟩ := (fold_fact hs ho : ∃ c₁,
      (Offer.fact f : Offer G).fold group c = .ok c₁ ∧ _)
    rw [hfold] at hfold₁
    cases hfold₁
    exact hfolded
  | record r join =>
    obtain ⟨⟨joined, marker⟩, hrestore, -⟩ := map_eq_ok_iff.1 hfold
    obtain ⟨-, -, -, hstale, -⟩ := restoreCheckpoint_ok hrestore
    obtain ⟨c₁, hfold₁, hfolded⟩ := fold_record hs ho hstale
    rw [hfold] at hfold₁
    cases hfold₁
    exact hfolded

theorem summarises_empty : h.Summarises .empty :=
  ⟨recorded_none, by simp [MembershipCandidate.empty], by simp [MembershipCandidate.empty]⟩

/-- A fold of sound offers that succeeds summarises the history. -/
theorem foldOffers_summarises (hs : h.Summarises c) (hsound : ∀ o ∈ offers, h.Sound group o)
    (hfold : foldOffers group offers c = .ok c') : h.Summarises c' := by
  induction offers generalizing c with
  | nil =>
    cases hfold
    exact hs
  | cons o offers ih =>
    obtain ⟨c₁, hfirst, hrest⟩ := bind_eq_ok_iff.1 hfold
    have hfolded := fold_ok hs (hsound o (List.mem_cons_self ..)) hfirst
    exact ih hfolded.summarises (fun o' ho' => hsound o' (List.mem_cons_of_mem _ ho')) hrest

/-- What is true of the history is sound: for a record, by the folds it was made from. -/
theorem Holds.sound (ho : h.Holds group o) : h.Sound group o := by
  induction ho with
  | crossing index => exact crossing_attests index
  | endpoint position => exact endpoint_attests position
  | record offers c join _ hfold ih =>
    exact ⟨rfl, rfl, foldOffers_summarises summarises_empty ih hfold⟩

/-- Under the position rule no record is stale. -/
theorem checkStale_ok {held incoming : Option CurrentCommittedState}
    (hle : ∀ p ∈ held.map CurrentCommittedState.through,
      ∀ q ∈ incoming.map CurrentCommittedState.through, p ≤ q) :
    checkStale held incoming = .ok () := by
  cases held with
  | none => rfl
  | some held =>
    cases incoming with
    | none => rfl
    | some incoming =>
      have hnot : ¬incoming.through < held.through := not_lt.2 (hle _ rfl _ rfl)
      rw [checkStale, if_neg hnot]

/-- The greatest of a list of optional positions. -/
def greatest (from' : Option ℕ) (positions : List (Option ℕ)) : Option ℕ :=
  positions.foldl higherMark from'

/-- Sound offers in position fold, to the greatest position and the greatest mark. -/
theorem foldOffers_ok (hs : h.Summarises c) (hsound : ∀ o ∈ offers, h.Sound group o)
    (hposition : InPosition offers) (hstart : ∀ o ∈ offers, o.IsRecord →
      ∀ p ∈ c.currentCommitted.map CurrentCommittedState.through, ∀ q ∈ o.position, p ≤ q) :
    ∃ c', foldOffers group offers c = .ok c' ∧ h.Summarises c' ∧
      c'.currentCommitted.map CurrentCommittedState.through =
        greatest (c.currentCommitted.map CurrentCommittedState.through)
          (offers.map Offer.position) ∧
      c'.committedIdHighWater = greatest c.committedIdHighWater (offers.map Offer.mark) := by
  induction offers generalizing c with
  | nil => exact ⟨c, rfl, hs, rfl, rfl⟩
  | cons o offers ih =>
    have ho := hsound o (List.mem_cons_self ..)
    obtain ⟨hlater, hrest⟩ := List.pairwise_cons.1 hposition
    have hfirst : ∃ c₁, o.fold group c = .ok c₁ ∧ h.Folded c o c₁ := by
      cases o with
      | fact f => exact fold_fact hs ho
      | record r join =>
        exact fold_record hs ho (checkStale_ok (hstart _ (List.mem_cons_self ..) trivial))
    obtain ⟨c₁, hfold, hfolded⟩ := hfirst
    -- The register now stands where it stood or at the offer: both come before a later record.
    have hstart₁ : ∀ o' ∈ offers, o'.IsRecord →
        ∀ p ∈ c₁.currentCommitted.map CurrentCommittedState.through, ∀ q ∈ o'.position, p ≤ q := by
      intro o' ho' hrecord p hp q hq
      rw [hfolded.position] at hp
      rcases mem_higherMark hp with hp | hp
      · exact hstart o' (List.mem_cons_of_mem _ ho') hrecord p hp q hq
      · exact hlater o' ho' hrecord p hp q hq
    obtain ⟨c', hfolds, hs', hthrough, hmark⟩ := ih hfolded.summarises
      (fun o' ho' => hsound o' (List.mem_cons_of_mem _ ho')) hrest hstart₁
    refine ⟨c', ?_, hs', ?_, ?_⟩
    · show (o.fold group c >>= foldOffers group offers) = _
      rw [hfold]
      exact hfolds
    · rw [hthrough, hfolded.position]
      rfl
    · rw [hmark, hfolded.mark]
      rfl

end History

variable {positions : List (Option ℕ)} {p : ℕ} {G : Type} {o : Offer G} {n : NodeId}

/-! ## The set of facts decides -/

/-- A number covered by the greatest position is covered by one of those folded. -/
theorem le_greatest {from' : Option ℕ} :
    (∃ m ∈ History.greatest from' positions, p ≤ m) ↔
      (∃ m ∈ from', p ≤ m) ∨ ∃ o ∈ positions, ∃ m ∈ o, p ≤ m := by
  induction positions generalizing from' with
  | nil => simp [History.greatest]
  | cons o positions ih =>
    have hcons : History.greatest from' (o :: positions) =
        History.greatest (higherMark from' o) positions := rfl
    rw [hcons, ih, le_higherMark]
    simp only [List.mem_cons, exists_eq_or_imp, or_assoc]

theorem mem_greatest {from' : Option ℕ} (hp : p ∈ History.greatest from' positions) :
    p ∈ from' ∨ some p ∈ positions := by
  induction positions generalizing from' with
  | nil => exact .inl hp
  | cons o positions ih =>
    rcases @ih (higherMark from' o) hp with hp | hp
    · rcases mem_higherMark hp with hp | hp
      · exact .inl hp
      · exact .inr (hp ▸ List.mem_cons_self ..)
    · exact .inr (List.mem_cons_of_mem _ hp)

/-- The greatest of a list, from nothing, is the greatest element of what the list holds. -/
theorem greatest_eq_some_iff :
    History.greatest none positions = some p ↔ IsGreatest {q | some q ∈ positions} p := by
  constructor
  · intro hp
    refine ⟨(mem_greatest hp).resolve_left (by simp), fun q hq => ?_⟩
    obtain ⟨m, hm, hle⟩ := le_greatest.2 (.inr ⟨some q, hq, q, rfl, le_rfl⟩)
    rw [hp] at hm
    cases hm
    exact hle
  · rintro ⟨hmem, hupper⟩
    have hcover : ∃ m ∈ History.greatest none positions, p ≤ m :=
      le_greatest.2 (.inr ⟨some p, hmem, p, rfl, le_rfl⟩)
    obtain ⟨m, hm, hle⟩ := hcover
    have hm_mem := (mem_greatest hm).resolve_left (by simp)
    rw [hm, le_antisymm (hupper hm_mem) hle]

/-- The mark of an offer is the greatest identity it names. -/
theorem Offer.mark_eq_some_iff : o.mark = some n ↔ IsGreatest {m | o.Names m} n := by
  cases o with
  | fact f =>
    constructor
    · intro hn
      refine ⟨highest_mem hn, fun m hm => ?_⟩
      obtain ⟨top, htop, hle⟩ := le_highest hm
      cases htop.symm.trans hn
      exact hle
    · rintro ⟨hmem, hupper⟩
      obtain ⟨top, htop, hle⟩ := le_highest hmem
      exact htop.trans (congrArg some (le_antisymm (hupper (highest_mem htop)) hle))
  | record r join =>
    constructor
    · intro hn
      refine ⟨hn, fun m hm => ?_⟩
      cases Eq.trans (Eq.symm hm) hn
      exact le_rfl
    · exact fun hn => hn.1

/-- Every identity an offer names is covered by its mark. -/
theorem Offer.Names.le_mark (hn : o.Names n) : ∃ m, o.mark = some m ∧ n ≤ m := by
  cases o with
  | fact f => exact le_highest hn
  | record r join => exact ⟨n, hn, le_rfl⟩

/-- The greatest of the marks is the greatest identity any offer names. -/
theorem isGreatest_marks_iff {offers : List (Offer G)} {m : NodeId} :
    IsGreatest {n | some n ∈ offers.map Offer.mark} m ↔
      IsGreatest {n | ∃ o ∈ offers, o.Names n} m := by
  simp only [List.mem_map]
  constructor
  · rintro ⟨⟨o, ho, hmark⟩, hupper⟩
    refine ⟨⟨o, ho, (Offer.mark_eq_some_iff.1 hmark).1⟩, ?_⟩
    rintro n ⟨o', ho', hn⟩
    obtain ⟨top, htop, hle⟩ := hn.le_mark
    exact hle.trans (hupper ⟨o', ho', htop⟩)
  · rintro ⟨⟨o, ho, hm⟩, hupper⟩
    obtain ⟨top, htop, hle⟩ := hm.le_mark
    have hnames := (Offer.mark_eq_some_iff.1 htop).1
    have heq : top = m := le_antisymm (hupper ⟨o, ho, hnames⟩) hle
    refine ⟨⟨o, ho, heq ▸ htop⟩, ?_⟩
    rintro n ⟨o', ho', hn⟩
    exact hupper ⟨o', ho', (Offer.mark_eq_some_iff.1 hn).1⟩

/-- Honest facts fold without a refusal, to a register and a mark that the set of facts decides. -/
theorem honest_facts_fold {G : Type} [DecidableEq G] (h : History) (group : G)
    (offers : List (Offer G)) (hholds : ∀ o ∈ offers, h.Holds group o)
    (hposition : InPosition offers) :
    ∃ c, foldOffers group offers .empty = .ok c ∧
      (∀ cur, c.currentCommitted = some cur ↔
        IsGreatest {p | ∃ o ∈ offers, o.position = some p} cur.through ∧
          cur.membership = members (h.membershipAt cur.through)) ∧
      (∀ m, c.committedIdHighWater = some m ↔ IsGreatest {n | ∃ o ∈ offers, o.Names n} m) ∧
      ∀ others : List (Offer G), (∀ o, o ∈ others ↔ o ∈ offers) → InPosition others →
        ∃ c', foldOffers group others .empty = .ok c' ∧
          c'.currentCommitted = c.currentCommitted ∧
          c'.committedIdHighWater = c.committedIdHighWater := by
  -- Both results are read off any fold in position; a second list with the same facts then agrees.
  have hread : ∀ list : List (Offer G), (∀ o ∈ list, h.Holds group o) → InPosition list →
      ∃ c, foldOffers group list .empty = .ok c ∧
        (∀ cur, c.currentCommitted = some cur ↔
          IsGreatest {p | ∃ o ∈ list, o.position = some p} cur.through ∧
            cur.membership = members (h.membershipAt cur.through)) ∧
        ∀ m, c.committedIdHighWater = some m ↔ IsGreatest {n | ∃ o ∈ list, o.Names n} m := by
    intro list hlist hpos
    obtain ⟨c, hfold, hs, hthrough, hmark⟩ := History.foldOffers_ok History.summarises_empty
      (fun o ho => (hlist o ho).sound) hpos (by simp [MembershipCandidate.empty])
    have hposition_iff : ∀ p, c.currentCommitted.map CurrentCommittedState.through = some p ↔
        IsGreatest {p | ∃ o ∈ list, o.position = some p} p := by
      intro p
      rw [hthrough]
      refine greatest_eq_some_iff.trans ?_
      simp only [List.mem_map]
    refine ⟨c, hfold, fun cur => ⟨fun hcur => ?_, ?_⟩, fun m => ?_⟩
    · refine ⟨(hposition_iff cur.through).1 ?_, hs.exact cur hcur⟩
      rw [hcur]
      rfl
    · rintro ⟨hgreatest, hmembership⟩
      obtain ⟨held, hheld, hat⟩ := Option.map_eq_some_iff.1 ((hposition_iff _).2 hgreatest)
      have hmem : held.membership = cur.membership := by
        rw [hmembership, ← hat]
        exact hs.exact held hheld
      rw [hheld, Option.some.injEq, CurrentCommittedState.mk.injEq]
      exact ⟨hat, hmem⟩
    · rw [hmark]
      exact greatest_eq_some_iff.trans isGreatest_marks_iff
  obtain ⟨c, hfold, hcurrent, hmark⟩ := hread offers hholds hposition
  refine ⟨c, hfold, hcurrent, hmark, fun others hsame hothers => ?_⟩
  obtain ⟨c', hfold', hcurrent', hmark'⟩ :=
    hread others (fun o ho => hholds o ((hsame o).1 ho)) hothers
  simp only [hsame] at hcurrent' hmark'
  exact ⟨c', hfold', Option.ext fun cur => (hcurrent' cur).trans (hcurrent cur).symm,
    Option.ext fun m => (hmark' m).trans (hmark m).symm⟩

/-- One voter, joined by two more at the first entry. -/
def grownHistory : History where
  membershipAt
    | 0 => .stable oneVoter
    | _ + 1 => .stable threeVoters
  fresh := by
    intro position n hn hnot earlier hearlier m hm
    cases position with
    | zero =>
      obtain rfl : earlier = 0 := Nat.le_zero.1 hearlier
      have hnew : ∀ n ∈ members (.stable threeVoters), n ∉ members (.stable oneVoter) →
          ∀ m ∈ members (.stable oneVoter), m < n := by decide
      exact hnew n hn hnot m hm
    | succ position => exact absurd hn hnot

/-- The second voter's facts arrive before the first's, and a record comes last. -/
theorem honest_facts_fold_grown : ∃ c,
    foldOffers 7 [.fact (.endpoint 1 (.stable threeVoters)),
      .fact (.crossing 1 (.stable oneVoter) (.stable threeVoters)),
      .fact (.endpoint 0 (.stable oneVoter)),
      .record ((⟨∅, members (.stable threeVoters), some ⟨1, members (.stable threeVoters)⟩,
        some 3⟩ : MembershipCandidate).checkpoint 7) .merge] .empty = .ok c := by
  obtain ⟨c, hfold, -⟩ := honest_facts_fold grownHistory 7
    [.fact (.endpoint 1 (.stable threeVoters)),
      .fact (.crossing 1 (.stable oneVoter) (.stable threeVoters)),
      .fact (.endpoint 0 (.stable oneVoter)),
      .record ((⟨∅, members (.stable threeVoters), some ⟨1, members (.stable threeVoters)⟩,
        some 3⟩ : MembershipCandidate).checkpoint 7) .merge]
    (by
      intro o ho
      simp only [List.mem_cons, List.not_mem_nil, or_false] at ho
      rcases ho with rfl | rfl | rfl | rfl
      · exact .endpoint 1
      · exact .crossing 0
      · exact .endpoint 0
      · refine .record [.fact (.endpoint 1 (.stable threeVoters))] _ _ ?_ rfl
        intro o ho
        obtain rfl := List.mem_singleton.1 ho
        exact .endpoint 1)
    (by
      simp [InPosition, Offer.IsRecord, Offer.position, CommittedObservation.endpoint,
        CommittedObservation.crossing, MembershipCandidate.checkpoint])
  exact ⟨c, hfold⟩

end Rafter.Service
