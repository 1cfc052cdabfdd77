import Rafter.Service.Driver

/-!
# What a control-plane step can do

Every call of a driver is made of a few primitive moves: a candidate reached by folding facts is
assigned, a contradiction is recorded, the policy is flushed, or the live half moves (`Move`). What
is to be kept by every call is then shown of the moves.

Results:

* `MembershipCandidate.apply_reaches`, `restoreCheckpoint_reaches`: folds only spend identities,
  raise the mark and move the register on;
* `Driver.call_moves`, `Driver.calls_moves`: every call is a chain of moves;
* `Driver.withControlPlaneCheckpoint_resumed`: what a construction resumed.
-/

namespace Rafter.Service

open Bytes (bind_eq_ok_iff pure_eq_ok_iff)

/-! ## Growth of a mark and a register -/

/-- The register of one record stands no lower than the other's, and where both stand it names
nothing more. -/
def RegisterLe (current current' : Option CurrentCommittedState) : Prop :=
  ∀ cur ∈ current, ∃ cur' ∈ current', cur.through ≤ cur'.through ∧
    (cur'.through = cur.through → cur'.membership ⊆ cur.membership)

/-- A later mark and register of one chain. -/
structure Grows (mark : Option NodeId) (current : Option CurrentCommittedState)
    (mark' : Option NodeId) (current' : Option CurrentCommittedState) : Prop where
  spent : ∀ n, spendsUnder mark current n = true → spendsUnder mark' current' n = true
  mark_le : ∀ n, (∃ m ∈ mark, n ≤ m) → ∃ m ∈ mark', n ≤ m
  register_le : RegisterLe current current'

theorem RegisterLe.refl (current : Option CurrentCommittedState) : RegisterLe current current :=
  fun cur hcur => ⟨cur, hcur, le_rfl, fun _ => Finset.Subset.refl _⟩

theorem RegisterLe.trans {a b c : Option CurrentCommittedState} (hab : RegisterLe a b)
    (hbc : RegisterLe b c) : RegisterLe a c := by
  intro cur hcur
  obtain ⟨cur₁, hcur₁, hle₁, hsub₁⟩ := hab cur hcur
  obtain ⟨cur₂, hcur₂, hle₂, hsub₂⟩ := hbc cur₁ hcur₁
  refine ⟨cur₂, hcur₂, hle₁.trans hle₂, fun heq => ?_⟩
  -- Equal ends leave no room for the position in between.
  have hmid : cur₁.through = cur.through := le_antisymm (heq ▸ hle₂) hle₁
  exact (hsub₂ (heq.trans hmid.symm)).trans (hsub₁ hmid)

theorem RegisterLe.antisymm {a b : Option CurrentCommittedState} (hab : RegisterLe a b)
    (hba : RegisterLe b a) : a = b := by
  cases a with
  | none =>
    cases b with
    | none => rfl
    | some cur =>
      obtain ⟨cur', hcur', -⟩ := hba cur rfl
      cases hcur'
  | some cur =>
    obtain ⟨cur', hcur', hle, hsub⟩ := hab cur rfl
    obtain ⟨cur'', hcur'', hle', hsub'⟩ := hba cur' hcur'
    cases hcur''
    have hthrough : cur.through = cur'.through := le_antisymm hle hle'
    have hmembership : cur.membership = cur'.membership :=
      Finset.Subset.antisymm (hsub' hthrough) (hsub hthrough.symm)
    rw [Option.mem_def] at hcur'
    rw [hcur', Option.some.injEq, CurrentCommittedState.mk.injEq]
    exact ⟨hthrough, hmembership⟩

namespace Grows

variable {mark mark' mark'' : Option NodeId} {current current' current'' :
  Option CurrentCommittedState}

theorem refl (mark : Option NodeId) (current : Option CurrentCommittedState) :
    Grows mark current mark current :=
  ⟨fun _ h => h, fun _ h => h, .refl current⟩

theorem trans (h : Grows mark current mark' current') (h' : Grows mark' current' mark'' current'') :
    Grows mark current mark'' current'' :=
  ⟨fun n hn => h'.spent n (h.spent n hn), fun n hn => h'.mark_le n (h.mark_le n hn),
    h.register_le.trans h'.register_le⟩

/-- Two records that grow into each other are one. -/
theorem antisymm (h : Grows mark current mark' current')
    (h' : Grows mark' current' mark current) : mark = mark' ∧ current = current' := by
  refine ⟨?_, h.register_le.antisymm h'.register_le⟩
  cases mark with
  | none =>
    cases mark' with
    | none => rfl
    | some m =>
      obtain ⟨m', hm', -⟩ := h'.mark_le m ⟨m, rfl, le_rfl⟩
      cases hm'
  | some m =>
    obtain ⟨m', hm', hle⟩ := h.mark_le m ⟨m, rfl, le_rfl⟩
    obtain ⟨m'', hm'', hle'⟩ := h'.mark_le m' ⟨m', hm', le_rfl⟩
    cases hm''
    rw [Option.mem_def] at hm'
    rw [hm', le_antisymm hle hle']

end Grows

/-- Where a merge leaves the register standing it took identities out and put none in. -/
theorem mergeCurrentState_registerLe {held : Option CurrentCommittedState}
    {incoming : IncomingObservation} {spent : NodeId → Bool} {current : CurrentCommittedState}
    (h : mergeCurrentState held incoming spent = .ok current) :
    RegisterLe held (some current) := by
  intro cur hcur
  refine ⟨current, rfl, (mergeCurrentState_ok h).2.1 cur hcur, fun heq => ?_⟩
  cases hcur
  rw [mergeCurrentState] at h
  split at h
  · rename_i hlt
    cases h
    exact absurd heq (ne_of_gt hlt)
  · split at h
    · cases h
      exact live_subset ..
    · split at h
      · cases h
        exact live_subset ..
      · cases h

namespace MembershipCandidate

variable {c c' : MembershipCandidate}

/-- A candidate reached by folding. -/
def Reaches (c c' : MembershipCandidate) : Prop :=
  Grows c.committedIdHighWater c.currentCommitted c'.committedIdHighWater c'.currentCommitted ∧
    (Recorded c.committedIdHighWater c.currentCommitted →
      Recorded c'.committedIdHighWater c'.currentCommitted)

theorem Reaches.refl (c : MembershipCandidate) : c.Reaches c := ⟨.refl _ _, fun h => h⟩

theorem Reaches.trans {c'' : MembershipCandidate} (h : c.Reaches c') (h' : c'.Reaches c'') :
    c.Reaches c'' :=
  ⟨h.1.trans h'.1, fun hc => h'.2 (h.2 hc)⟩

theorem observeCommitted_reaches {fact : CommittedObservation}
    (h : c.observeCommitted fact = .ok c') : c.Reaches c' := by
  refine ⟨⟨fun n hn => observeCommitted_spent h hn, fun n hn => ?_, ?_⟩,
    observeCommitted_recorded h⟩
  · obtain ⟨current, -, -, rfl⟩ := observeCommitted_ok h
    exact le_higherMark.2 (.inl hn)
  · obtain ⟨current, -, hmerge, rfl⟩ := observeCommitted_ok h
    exact mergeCurrentState_registerLe hmerge

variable {fact : MembershipFact}

/-- An applied fact grows the candidate; a committed one leaves it with a register. -/
theorem apply_reaches (h : c.apply fact = .ok c') : c.Reaches c' := by
  cases fact with
  | effective effective =>
    cases h
    exact .refl c
  | committed fact effective =>
    obtain ⟨c₁, hobserve, hc'⟩ := bind_eq_ok_iff.1 h
    obtain rfl := pure_eq_ok_iff.1 hc'
    have hreaches := observeCommitted_reaches hobserve
    exact ⟨hreaches.1, hreaches.2⟩

theorem apply_committed_isSome {fact : CommittedObservation} {effective : Finset NodeId}
    (h : c.apply (.committed fact effective) = .ok c') : c'.currentCommitted.isSome := by
  obtain ⟨c₁, hobserve, hc'⟩ := bind_eq_ok_iff.1 h
  obtain rfl := pure_eq_ok_iff.1 hc'
  obtain ⟨cur, hcur, -⟩ := observeCommitted_through hobserve
  exact Option.isSome_iff_exists.2 ⟨cur, hcur⟩

/-- A refused fact is a contradiction at the position the candidate's register stands at. -/
theorem apply_error {reason : ControlPlaneCheckpointError} (h : c.apply fact = .error reason) :
    ∃ cur ∈ c.currentCommitted, ∃ k,
      Contradiction.of reason = some k ∧ k.through = cur.through := by
  cases fact with
  | effective effective => cases h
  | committed fact effective =>
    have hobserve : c.observeCommitted fact = .error reason := by
      cases hobserve : c.observeCommitted fact with
      | ok c₁ =>
        rw [apply, hobserve] at h
        cases h
      | error e =>
        rw [apply, hobserve] at h
        cases h
        rfl
    obtain ⟨cur, hcur, rfl | rfl⟩ := observeCommitted_error hobserve
    · exact ⟨cur, hcur, .currentState cur.through, rfl, rfl⟩
    · exact ⟨cur, hcur, .transitionPredecessor cur.through, rfl, rfl⟩

end MembershipCandidate

section Restore

variable {G : Type} [DecidableEq G] {c c' : MembershipCandidate}
  {checkpoint : PeerControlPlaneCheckpoint G} {group : G} {join : RecordJoin} {marker : Option ℕ}

/-- A joined record grows the candidate. -/
theorem restoreCheckpoint_reaches
    (h : restoreCheckpoint c checkpoint group join = .ok (c', marker)) : c.Reaches c' := by
  obtain ⟨-, -, -, -, current, hcurrent, hrecorded, -, hc'⟩ := restoreCheckpoint_ok h
  refine ⟨⟨fun n hn => restoreCheckpoint_spent h (.inl hn), fun n hn => ?_, ?_⟩, fun _ => ?_⟩
  · rw [hc']
    exact le_higherMark.2 (.inl hn)
  · rw [hc']
    cases hrestored : checkpoint.currentCommitted with
    | none =>
      rw [hrestored, joinCurrent] at hcurrent
      cases hcurrent
      exact .refl _
    | some incoming =>
      rw [hrestored, joinCurrent] at hcurrent
      obtain ⟨merged, hmerge, hsome⟩ := bind_eq_ok_iff.1 hcurrent
      obtain rfl := pure_eq_ok_iff.1 hsome
      exact mergeCurrentState_registerLe hmerge
  · rw [hc']
    exact hrecorded

/-- A process that resumes a record into nothing holds exactly the record. -/
theorem restoreCheckpoint_fresh (hmark : c.committedIdHighWater = none)
    (hcurrent : c.currentCommitted = none)
    (h : restoreCheckpoint c checkpoint group join = .ok (c', marker)) :
    c'.committedIdHighWater = checkpoint.committedIdHighWater ∧
      c'.currentCommitted = checkpoint.currentCommitted := by
  obtain ⟨-, -, -, -, current, hjoin, -, -, rfl⟩ := restoreCheckpoint_ok h
  refine ⟨?_, ?_⟩
  · show higherMark c.committedIdHighWater checkpoint.committedIdHighWater = _
    rw [hmark]
    cases checkpoint.committedIdHighWater <;> rfl
  · show current = _
    cases hrestored : checkpoint.currentCommitted with
    | none =>
      rw [hrestored, joinCurrent, hcurrent] at hjoin
      cases hjoin
      rfl
    | some incoming =>
      rw [hrestored, joinCurrent, hcurrent, mergeCurrentState, live_eq_self] at hjoin
      · exact (pure_eq_ok_iff.1 hjoin).symm
      · intro n hn
        refine ⟨Finset.notMem_empty n, ?_⟩
        rw [Bool.or_eq_false_iff]
        constructor
        · rw [MembershipCandidate.isSpent, hmark]
          rfl
        · rw [Bool.eq_false_iff]
          intro hspent
          exact (spendsUnder_iff.1 hspent).2 incoming rfl hn

end Restore

/-! ## Moves -/

namespace Driver

variable {G : Type} [DecidableEq G] {d d' : Driver G}
variable {checkpoint : PeerControlPlaneCheckpoint G} {reason : ControlPlaneCheckpointError}
  {c c' : MembershipCandidate} {transport : List PeerUpdate}

/-- The primitive moves. -/
inductive Move : Driver G → Driver G → Prop where
  /-- The live half and the slot change; nothing an embedder persists does. -/
  | live (d : Driver G) (nodeId : NodeId) (group : Option RuntimeView)
      (effective committed : Finset NodeId) (shuttingDown : Bool) :
      Move d { d with
        nodeId := nodeId
        group := group
        effectiveMembers := effective
        committedMembers := committed
        shuttingDown := shuttingDown }
  | assign (d : Driver G) (candidate : MembershipCandidate) :
      d.contradiction = none → d.membershipCandidate.Reaches candidate →
      Move d (d.assignRecord candidate)
  | record (d : Driver G) (reason : ControlPlaneCheckpointError) (contradiction : Contradiction) :
      Contradiction.of reason = some contradiction →
      (∀ cur ∈ d.currentCommitted, cur.through ≤ contradiction.through) →
      Move d (d.recordContradiction reason)
  | flush (d : Driver G) (answer : LinkAnswer) : Move d (d.flushPeerPolicy answer)

/-- A chain of moves. -/
def Moves : Driver G → Driver G → Prop := Relation.ReflTransGen Move

theorem Moves.refl (d : Driver G) : d.Moves d := Relation.ReflTransGen.refl

theorem Moves.trans {d'' : Driver G} (h : d.Moves d') (h' : d'.Moves d'') : d.Moves d'' :=
  Relation.ReflTransGen.trans h h'

theorem Move.moves (h : Move d d') : d.Moves d' := Relation.ReflTransGen.single h

/-- Every property of one move that composes holds of a chain. -/
theorem Moves.lift {R : Driver G → Driver G → Prop} (hrefl : ∀ d, R d d)
    (htrans : ∀ a b c, R a b → R b c → R a c) (hmove : ∀ a b, Move a b → R a b)
    (h : d.Moves d') : R d d' := by
  induction h with
  | refl => exact hrefl d
  | tail _ hlast ih => exact htrans _ _ _ ih (hmove _ _ hlast)

/-! ## What the primitive updates write -/

/-- Assigning a record writes the two checkpointable fields, and the epoch if they changed. -/
theorem assignRecord_eq (d : Driver G) (c : MembershipCandidate) :
    d.assignRecord c = { d with
      currentCommitted := c.currentCommitted
      committedIdHighWater := c.committedIdHighWater
      checkpointEpoch :=
        if d.committedIdHighWater = c.committedIdHighWater ∧ d.currentCommitted = c.currentCommitted
        then d.checkpointEpoch else min (d.checkpointEpoch + 1) u64Max } := by
  unfold assignRecord advanceCheckpointEpoch controlPlaneCheckpoint
  by_cases h : d.committedIdHighWater = c.committedIdHighWater ∧
      d.currentCommitted = c.currentCommitted
  · simp [h.1, h.2]
  · rw [if_pos, if_neg h]
    simpa using h

omit [DecidableEq G] in
/-- The first contradiction writes the marker and the epoch. -/
theorem recordContradiction_eq {k : Contradiction} (hk : Contradiction.of reason = some k)
    (hnone : d.contradiction = none) :
    d.recordContradiction reason = { d with
      contradiction := some k
      checkpointEpoch := min (d.checkpointEpoch + 1) u64Max } := by
  rw [recordContradiction, hk]
  simp [hnone, advanceCheckpointEpoch]

omit [DecidableEq G] in
/-- A later one writes nothing. -/
theorem recordContradiction_of_isSome (hsome : d.contradiction.isSome) :
    d.recordContradiction reason = d := by
  unfold recordContradiction
  split
  · rfl
  · rw [if_pos hsome]

/-- What one flush hands to the transport: nothing, or the desired policy. -/
def Flushed (d : Driver G) (made : List PeerUpdate) : Prop :=
  made = [] ∨ (d.contradiction = none ∧
    ∃ accepted, made = [⟨d.nodeId, d.desiredPolicy, accepted⟩])

omit [DecidableEq G] in
theorem flushPeerPolicy_eq (d : Driver G) (answer : LinkAnswer) : ∃ made published,
    d.flushPeerPolicy answer = { d with
      transport := d.transport ++ made
      publishedPolicy := published } ∧ d.Flushed made := by
  have hsame : d = { d with
      transport := d.transport ++ []
      publishedPolicy := d.publishedPolicy } := by rw [List.append_nil]
  unfold flushPeerPolicy
  split
  · exact ⟨[], d.publishedPolicy, hsame, .inl rfl⟩
  · rename_i hnone
    have hnone : d.contradiction = none := Option.not_isSome_iff_eq_none.1 hnone
    split
    · exact ⟨[], d.publishedPolicy, hsame, .inl rfl⟩
    · cases answer with
      | unnamed => exact ⟨[], d.publishedPolicy, hsame, .inl rfl⟩
      | refused => exact ⟨_, d.publishedPolicy, rfl, .inr ⟨hnone, false, rfl⟩⟩
      | accepted => exact ⟨_, some d.desiredPolicy, rfl, .inr ⟨hnone, true, rfl⟩⟩

/-! ## Calls are chains of moves -/

theorem assignMembership_moves (h : d.membershipCandidate.Reaches c) :
    d.Moves (d.assignMembership c) := by
  have hlive : d.Moves { d with
      effectiveMembers := c.effectiveMembers
      committedMembers := c.committedMembers } :=
    (Move.live d d.nodeId d.group c.effectiveMembers c.committedMembers d.shuttingDown).moves
  unfold assignMembership
  split
  · exact hlive
  · rename_i hnone
    refine hlive.trans (Move.assign _ c ?_ ?_).moves
    · exact Option.not_isSome_iff_eq_none.1 hnone
    · exact ⟨h.1, h.2⟩

theorem installMembership_moves (h : d.membershipCandidate.Reaches c) (answer : LinkAnswer) :
    d.Moves (d.installMembership c answer) :=
  (assignMembership_moves h).trans (Move.flush _ answer).moves

variable {event : MembershipEvent G} {events : List (MembershipEvent G)} {staged : StagedMembership}

omit [DecidableEq G] in
theorem foldMembershipEvent_reaches (h : d.foldMembershipEvent c event = .ok c') :
    c.Reaches c' := by
  unfold foldMembershipEvent at h
  split at h
  · exact MembershipCandidate.apply_reaches h
  · exact MembershipCandidate.apply_reaches h
  · cases h
    exact .refl _

omit [DecidableEq G] in
theorem foldMembershipEvents_reaches (h : d.foldMembershipEvents c events = .ok c') :
    c.Reaches c' := by
  induction events generalizing c with
  | nil =>
    cases h
    exact .refl _
  | cons event events ih =>
    obtain ⟨c₁, hfirst, hrest⟩ := bind_eq_ok_iff.1 h
    exact (foldMembershipEvent_reaches hfirst).trans (ih hrest)

omit [DecidableEq G] in
theorem foldMembershipEvent_error (h : d.foldMembershipEvent c event = .error reason) :
    ∃ cur ∈ c.currentCommitted, ∃ k,
      Contradiction.of reason = some k ∧ k.through = cur.through := by
  unfold foldMembershipEvent at h
  split at h
  · exact MembershipCandidate.apply_error h
  · exact MembershipCandidate.apply_error h
  · cases h

omit [DecidableEq G] in
/-- A refused batch is a contradiction at or above the position the register stands at: the facts
folded before it can only have moved the candidate on. -/
theorem foldMembershipEvents_error (h : d.foldMembershipEvents c events = .error reason) :
    ∃ k, Contradiction.of reason = some k ∧ ∀ cur ∈ c.currentCommitted,
    cur.through ≤ k.through := by
  induction events generalizing c with
  | nil => cases h
  | cons event events ih =>
    cases hfirst : d.foldMembershipEvent c event with
    | error e =>
      have he : e = reason := by
        rw [foldMembershipEvents, List.foldlM_cons, hfirst] at h
        cases h
        rfl
      subst he
      obtain ⟨held, hheld, k, hk, hthrough⟩ := foldMembershipEvent_error hfirst
      refine ⟨k, hk, fun cur hcur => ?_⟩
      rw [Option.mem_def] at hheld hcur
      cases hheld.symm.trans hcur
      exact hthrough.ge
    | ok c₁ =>
      have hrest : d.foldMembershipEvents c₁ events = .error reason := by
        rw [foldMembershipEvents, List.foldlM_cons, hfirst] at h
        exact h
      obtain ⟨k, hk, hle⟩ := ih hrest
      refine ⟨k, hk, fun cur hcur => ?_⟩
      obtain ⟨cur₁, hcur₁, hmoved, -⟩ :=
        (foldMembershipEvent_reaches hfirst).1.register_le cur hcur
      exact hmoved.trans (hle cur₁ hcur₁)

theorem absorbMembershipEvents_moves (events : List (MembershipEvent G)) (answer : LinkAnswer) :
    d.Moves (d.absorbMembershipEvents events answer) := by
  unfold absorbMembershipEvents
  split
  · rename_i reason hrefused
    obtain ⟨k, hk, hle⟩ := foldMembershipEvents_error hrefused
    exact (Move.record d reason k hk hle).moves
  · rename_i c hfold
    exact installMembership_moves (foldMembershipEvents_reaches hfold) answer

/-- Moves leave the staging slot alone. -/
theorem Move.stagedMembership (h : Move d d') : d'.stagedMembership = d.stagedMembership := by
  cases h with
  | live => rfl
  | assign c hnone hc => rw [assignRecord_eq]
  | record reason k hk hle =>
    by_cases hsome : d.contradiction.isSome
    · rw [recordContradiction_of_isSome hsome]
    · rw [recordContradiction_eq hk (Option.not_isSome_iff_eq_none.1 hsome)]
  | flush answer =>
    obtain ⟨made, published, heq, -⟩ := flushPeerPolicy_eq d answer
    rw [heq]

theorem Moves.stagedMembership (h : d.Moves d') : d'.stagedMembership = d.stagedMembership :=
  Moves.lift (R := fun a b => b.stagedMembership = a.stagedMembership) (fun _ => rfl)
    (fun _ _ _ hab hbc => hbc.trans hab) (fun _ _ => Move.stagedMembership) h

theorem routeMembershipEvents_moves (hstaged : d.stagedMembership = none)
    (events : List (MembershipEvent G)) (answer : LinkAnswer) :
    d.Moves (d.routeMembershipEvents events answer) := by
  unfold routeMembershipEvents
  split
  · exact .refl d
  · rw [hstaged]
    exact absorbMembershipEvents_moves events answer

theorem routeBatches_moves (hstaged : d.stagedMembership = none) (batches : List (Batch G)) :
    d.Moves (d.routeBatches batches) := by
  induction batches generalizing d with
  | nil => exact .refl d
  | cons batch batches ih =>
    have hfirst := routeMembershipEvents_moves hstaged batch.events batch.answer
    exact hfirst.trans (ih (hfirst.stagedMembership.trans hstaged))

theorem applyRecoveryOutputs_moves (hstaged : d.stagedMembership = none) (recovery : Recovery G) :
    d.Moves (d.applyRecoveryOutputs recovery) := by
  unfold applyRecoveryOutputs
  split
  · exact .refl d
  · exact routeBatches_moves hstaged recovery.batches

theorem publishAdoptedMembership_moves (answer : LinkAnswer) :
    d.Moves (d.publishAdoptedMembership answer).1 := by
  unfold publishAdoptedMembership
  split
  · exact .refl d
  · split
    · rename_i reason hrefused
      obtain ⟨held, hheld, k, hk, hthrough⟩ := MembershipCandidate.apply_error hrefused
      refine (Move.record d reason k hk fun cur hcur => ?_).moves
      rw [Option.mem_def] at hcur
      have hheld : d.currentCommitted = some held := hheld
      cases hheld.symm.trans hcur
      exact hthrough.ge
    · rename_i c happly
      exact installMembership_moves (MembershipCandidate.apply_reaches happly) answer

theorem adoptionCandidate_reaches {runtime : RuntimeView}
    (h : d.adoptionCandidate checkpoint runtime = .ok c) : d.membershipCandidate.Reaches c := by
  obtain ⟨⟨joined, marker⟩, hrestore, h⟩ := bind_eq_ok_iff.1 h
  obtain ⟨-, -, h⟩ := bind_eq_ok_iff.1 h
  obtain rfl := pure_eq_ok_iff.1 h
  exact restoreCheckpoint_reaches hrestore

variable (hstaged : d.stagedMembership = none)

include hstaged

theorem installAdopted_moves
    (hc : d.membershipCandidate.Reaches c) (group : OfferedGroup G) (recovery : Recovery G)
    (answer : LinkAnswer) : d.Moves (d.installAdopted group recovery c answer).1 := by
  have hslot : d.Moves { d with nodeId := group.nodeId, group := some group.runtime } :=
    (Move.live d group.nodeId (some group.runtime) d.effectiveMembers d.committedMembers
      d.shuttingDown).moves
  have hinstalled := hslot.trans (assignMembership_moves hc)
  have hrecovered := hinstalled.trans
    (applyRecoveryOutputs_moves (hinstalled.stagedMembership.trans hstaged) recovery)
  unfold installAdopted publishUnlessContradicted
  dsimp only
  split
  · exact hrecovered
  · exact hrecovered.trans (publishAdoptedMembership_moves answer)

theorem adoptGroupWithCheckpoint_moves
    (group : OfferedGroup G) (recovery : Recovery G) (checkpoint : PeerControlPlaneCheckpoint G)
    (answer : LinkAnswer) :
    d.Moves (d.adoptGroupWithCheckpoint group recovery checkpoint answer).1 := by
  unfold adoptGroupWithCheckpoint
  split
  · exact .refl d
  · split
    · exact .refl d
    · split
      · exact .refl d
      · split
        · exact .refl d
        · split
          · exact .refl d
          · rename_i c hc
            split
            · exact .refl d
            · split
              · exact .refl d
              · exact installAdopted_moves hstaged (adoptionCandidate_reaches hc) group recovery
                  answer

/-- Every call of a driver with no construction open is a chain of moves. -/
theorem call_moves (call : Call G) :
    d.Moves (d.call call) := by
  cases call with
  | flush answer => exact (Move.flush d answer).moves
  | step runtime batches =>
    rw [Driver.call, stepGroup]
    split
    · exact .refl d
    · have hslot : d.Moves { d with group := some runtime } :=
        (Move.live d d.nodeId (some runtime) d.effectiveMembers d.committedMembers
          d.shuttingDown).moves
      exact hslot.trans (routeBatches_moves (hslot.stagedMembership.trans hstaged) batches)
  | release =>
    rw [Driver.call, releaseGroup]
    split
    · exact .refl d
    · exact (Move.live d d.nodeId none d.effectiveMembers d.committedMembers
        d.shuttingDown).moves
  | adopt group recovery checkpoint answer =>
    exact adoptGroupWithCheckpoint_moves hstaged group recovery checkpoint answer
  | shutdown =>
    exact (Move.live d d.nodeId d.group d.effectiveMembers d.committedMembers true).moves

theorem calls_moves (calls : List (Call G)) :
    d.Moves (d.calls calls) := by
  induction calls generalizing d with
  | nil => exact .refl d
  | cons call calls ih =>
    have hfirst := call_moves hstaged call
    exact hfirst.trans (ih (hfirst.stagedMembership.trans hstaged))

omit hstaged

/-! ## Construction -/

/-- A construction whose transaction is open over a record. -/
structure Opened (checkpoint : PeerControlPlaneCheckpoint G) (transport : List PeerUpdate)
    (staged : StagedMembership) (d : Driver G) : Prop where
  staged_eq : d.stagedMembership = some staged
  valid : checkpoint.validate d.groupId = .ok ()
  transport_eq : d.transport = transport
  group_isSome : d.group.isSome
  marker : d.contradiction.map Contradiction.through = checkpoint.contradictedAt
  candidate : d.contradiction = none →
    Grows checkpoint.committedIdHighWater checkpoint.currentCommitted
      staged.candidate.committedIdHighWater staged.candidate.currentCommitted ∧
    Recorded staged.candidate.committedIdHighWater staged.candidate.currentCommitted
  frozen : d.contradiction.isSome →
    d.committedIdHighWater = checkpoint.committedIdHighWater ∧
      d.currentCommitted = checkpoint.currentCommitted
  epoch_le : d.checkpointEpoch ≤ u64Max

theorem openMembershipTransaction_opened {group : OfferedGroup G}
    (h : (fresh group transport).openMembershipTransaction checkpoint = .ok d) :
    ∃ staged, Opened checkpoint transport staged d := by
  unfold openMembershipTransaction at h
  split at h
  · cases h
  · rename_i c hrestore
    obtain ⟨hvalid, hmarker, -⟩ := restoreCheckpoint_ok hrestore
    obtain ⟨hmark, hcurrent⟩ := restoreCheckpoint_fresh rfl rfl hrestore
    have hrecorded := (restoreCheckpoint_reaches hrestore).2 recorded_none
    cases h
    refine ⟨⟨c, none⟩, rfl, hvalid, rfl, rfl, hmarker, fun _ => ⟨?_, hrecorded⟩, fun hsome => ?_,
      Nat.zero_le _⟩
    · rw [hmark, hcurrent]
      exact .refl _ _
    · cases hsome
  · rename_i c through hrestore
    obtain ⟨hvalid, hmarker, -⟩ := restoreCheckpoint_ok hrestore
    obtain ⟨hmark, hcurrent⟩ := restoreCheckpoint_fresh rfl rfl hrestore
    -- The fresh driver is not contradicted, so the record is assigned and then marked.
    have hassigned : (fresh group transport).installRestoredMembership c =
        ({ fresh group transport with
          effectiveMembers := c.effectiveMembers
          committedMembers := c.committedMembers } : Driver G).assignRecord c := rfl
    rw [hassigned, assignRecord_eq,
      recordContradiction_eq (Contradiction.of_refusal (.restored through)) rfl] at h
    cases h
    refine ⟨_, rfl, hvalid, rfl, rfl, hmarker, fun hnone => ?_, fun _ => ⟨hmark, hcurrent⟩,
      min_le_right _ _⟩
    cases hnone

theorem stageMembershipEvents_opened (h : Opened checkpoint transport staged d)
    (events : List (MembershipEvent G)) :
    ∃ staged', Opened checkpoint transport staged' (d.stageMembershipEvents staged events) := by
  unfold stageMembershipEvents
  split
  · split
    · exact ⟨_, rfl, h.valid, h.transport_eq, h.group_isSome, h.marker, h.candidate, h.frozen,
        h.epoch_le⟩
    · rename_i c hfold
      have hreaches := foldMembershipEvents_reaches hfold
      refine ⟨_, rfl, h.valid, h.transport_eq, h.group_isSome, h.marker, fun hnone => ?_, h.frozen,
        h.epoch_le⟩
      obtain ⟨hgrows, hrecorded⟩ := h.candidate hnone
      exact ⟨hgrows.trans hreaches.1, hreaches.2 hrecorded⟩
  · exact ⟨staged, h⟩

theorem routeBatches_opened (h : Opened checkpoint transport staged d) (batches : List (Batch G)) :
    ∃ staged', Opened checkpoint transport staged' (d.routeBatches batches) := by
  induction batches generalizing d staged with
  | nil => exact ⟨staged, h⟩
  | cons batch batches ih =>
    have hfirst : ∃ staged', Opened checkpoint transport staged'
        (d.routeMembershipEvents batch.events batch.answer) := by
      unfold routeMembershipEvents
      split
      · exact ⟨staged, h⟩
      · rw [h.staged_eq]
        exact stageMembershipEvents_opened h batch.events
    obtain ⟨staged', h'⟩ := hfirst
    exact ih h'

/-- A driver that a construction over a record handed out. -/
structure Resumed (d : Driver G) (checkpoint : PeerControlPlaneCheckpoint G)
    (transport : List PeerUpdate) : Prop where
  staged_eq : d.stagedMembership = none
  valid : checkpoint.validate d.groupId = .ok ()
  isSome : d.currentCommitted.isSome
  recorded : Recorded d.committedIdHighWater d.currentCommitted
  marker : d.contradiction.map Contradiction.through = checkpoint.contradictedAt
  grows : Grows checkpoint.committedIdHighWater checkpoint.currentCommitted
    d.committedIdHighWater d.currentCommitted
  frozen : d.contradiction.isSome →
    d.committedIdHighWater = checkpoint.committedIdHighWater ∧
      d.currentCommitted = checkpoint.currentCommitted
  made : ∃ made, d.transport = transport ++ made ∧ d.Flushed made
  epoch_le : d.checkpointEpoch ≤ u64Max

omit [DecidableEq G] in
theorem recordContradiction_transport (d : Driver G) (reason : ControlPlaneCheckpointError) :
    (d.recordContradiction reason).transport = d.transport := by
  unfold recordContradiction
  split
  · rfl
  · split <;> rfl

omit [DecidableEq G] in
theorem assignRuntimeMembership_eq (d : Driver G) : ∃ effective committed,
    d.assignRuntimeMembership = { d with
      effectiveMembers := effective
      committedMembers := committed } := by
  unfold assignRuntimeMembership
  split
  · exact ⟨d.effectiveMembers, d.committedMembers, rfl⟩
  · exact ⟨_, _, rfl⟩

/-- A driver that is not contradicted takes a candidate whole. -/
theorem installMembership_eq (hnone : d.contradiction = none) (c : MembershipCandidate)
    (answer : LinkAnswer) : d.installMembership c answer =
      (({ d with
        effectiveMembers := c.effectiveMembers
        committedMembers := c.committedMembers } : Driver G).assignRecord c).flushPeerPolicy
          answer := by
  have hnot : ¬d.contradiction.isSome := by simp [hnone]
  rw [installMembership, assignMembership, if_neg hnot]

section Closing

variable {checkpoint : PeerControlPlaneCheckpoint G} {transport : List PeerUpdate}
  {staged : StagedMembership}

variable (h : Opened checkpoint transport staged d)

include h

/-- A record that came marked is handed out as it is. -/
theorem Opened.resumed_of_marked
    (hsome : d.contradiction.isSome) (effective committed : Finset NodeId) :
    Resumed { d with
      stagedMembership := none
      effectiveMembers := effective
      committedMembers := committed } checkpoint transport := by
  obtain ⟨hmark, hcurrent⟩ := h.frozen hsome
  obtain ⟨-, hmarker, hrecorded⟩ := PeerControlPlaneCheckpoint.validate_ok_iff.1 h.valid
  refine ⟨rfl, h.valid, ?_, ?_, h.marker, ?_, fun _ => ⟨hmark, hcurrent⟩, ⟨[], ?_, .inl rfl⟩,
    h.epoch_le⟩
  · -- The marker stands on a register.
    obtain ⟨k, hk⟩ := Option.isSome_iff_exists.1 hsome
    have hat : k.through ∈ checkpoint.contradictedAt := by
      rw [← h.marker, hk]
      rfl
    obtain ⟨cur, hcur, -⟩ := hmarker k.through hat
    show d.currentCommitted.isSome
    rw [hcurrent]
    exact Option.isSome_iff_exists.2 ⟨cur, hcur⟩
  · show Recorded d.committedIdHighWater d.currentCommitted
    rw [hmark, hcurrent]
    exact hrecorded
  · show Grows _ _ d.committedIdHighWater d.currentCommitted
    rw [hmark, hcurrent]
    exact .refl _ _
  · rw [List.append_nil]
    exact h.transport_eq

/-- A candidate the runtime's endpoint survived is installed and stated once. -/
theorem Opened.resumed_of_candidate
    (hnone : d.contradiction = none) (hreaches : staged.candidate.Reaches c)
    (hsome : c.currentCommitted.isSome) (answer : LinkAnswer) :
    (({ d with stagedMembership := none } : Driver G).installMembership c answer).Resumed
      checkpoint transport := by
  obtain ⟨hgrows, hrecorded⟩ := h.candidate hnone
  have hclosed : ({ d with stagedMembership := none } : Driver G).contradiction = none := hnone
  rw [installMembership_eq hclosed, assignRecord_eq]
  obtain ⟨made, published, heq, hmade⟩ := flushPeerPolicy_eq (G := G) _ answer
  rw [heq]
  refine ⟨rfl, h.valid, hsome, hreaches.2 hrecorded, h.marker, hgrows.trans hreaches.1,
    fun hmarked => ?_, ⟨made, ?_, hmade⟩, ?_⟩
  · have hmarked : d.contradiction.isSome := hmarked
    rw [hnone] at hmarked
    cases hmarked
  · show d.transport ++ made = _
    rw [h.transport_eq]
  · show (if _ then d.checkpointEpoch else min (d.checkpointEpoch + 1) u64Max) ≤ u64Max
    split
    · exact h.epoch_le
    · exact min_le_right _ _

/-- Closing a transaction hands out a resumed driver, or refuses and has told the link layer
nothing. -/
theorem commitMembershipTransaction_resumed
    (answer : LinkAnswer) :
    ((d.commitMembershipTransaction answer).2 = .ok () ∧
      (d.commitMembershipTransaction answer).1.Resumed checkpoint transport) ∨
    ((d.commitMembershipTransaction answer).2 ≠ .ok () ∧
      (d.commitMembershipTransaction answer).1.transport = transport) := by
  unfold commitMembershipTransaction
  rw [h.staged_eq]
  dsimp only
  split
  · refine .inr ⟨by simp, ?_⟩
    rw [recordContradiction_transport]
    exact h.transport_eq
  · split
    · rename_i hsome
      obtain ⟨effective, committed, heq⟩ :=
        assignRuntimeMembership_eq ({ d with stagedMembership := none } : Driver G)
      rw [heq]
      exact .inl ⟨rfl, h.resumed_of_marked hsome effective committed⟩
    · rename_i hnone
      have hnone : d.contradiction = none := Option.not_isSome_iff_eq_none.1 hnone
      unfold commitCandidate
      split
      · rename_i hgroup
        have hgroup : d.group = none := hgroup
        have hsome := h.group_isSome
        rw [hgroup] at hsome
        cases hsome
      · split
        · refine .inr ⟨by simp, ?_⟩
          rw [recordContradiction_transport]
          exact h.transport_eq
        · rename_i c happly
          exact .inl ⟨rfl, h.resumed_of_candidate hnone (MembershipCandidate.apply_reaches happly)
            (MembershipCandidate.apply_committed_isSome happly) answer⟩

omit h

/-- A construction hands out a driver that resumed the record, or leaves the link layer alone. -/
theorem withControlPlaneCheckpoint_resumed (group : OfferedGroup G) (recovery : Recovery G)
    (transport : List PeerUpdate) (checkpoint : PeerControlPlaneCheckpoint G)
    (answer : LinkAnswer) :
    ((withControlPlaneCheckpoint group recovery transport checkpoint answer).2 = .ok () ∧
      (withControlPlaneCheckpoint group recovery transport checkpoint answer).1.Resumed
        checkpoint transport) ∨
    ((withControlPlaneCheckpoint group recovery transport checkpoint answer).2 ≠ .ok () ∧
      (withControlPlaneCheckpoint group recovery transport checkpoint answer).1.transport =
        transport) := by
  unfold withControlPlaneCheckpoint
  split
  · exact .inr ⟨by simp, rfl⟩
  · split
    · exact .inr ⟨by simp, rfl⟩
    · rename_i opened hopen
      obtain ⟨staged, hopened⟩ := openMembershipTransaction_opened hopen
      have hrecovered : ∃ staged', Opened checkpoint transport staged'
          (opened.applyRecoveryOutputs recovery) := by
        unfold applyRecoveryOutputs
        split
        · exact ⟨staged, hopened⟩
        · exact routeBatches_opened hopened recovery.batches
      obtain ⟨staged', hrecovered⟩ := hrecovered
      dsimp only
      split
      · exact .inr ⟨by simp, hrecovered.transport_eq⟩
      · rcases commitMembershipTransaction_resumed hrecovered answer with ⟨hok, hd⟩ | ⟨hne, hd⟩
        · exact .inl ⟨by rw [hok]; rfl, hd⟩
        · refine .inr ⟨fun hok => hne ?_, hd⟩
          exact (Bytes.mapError_eq_ok_iff).1 hok

end Closing

end Driver

namespace World

variable {G : Type} [DecidableEq G]

/-- What an event does: nothing, a call on the running driver, a stop that keeps the record and the
link layer, or a start of a driver that resumed the record. -/
theorem step_cases (w : World G) (event : Event G) :
    w.step event = w ∨ (∃ d call, w = running d ∧ w.step event = running (d.call call)) ∨
    (∃ d, w = running d ∧ w.step event = down d.controlPlaneCheckpoint d.transport) ∨
    ∃ saved transport d, w = down saved transport ∧ w.step event = running d ∧
      d.Resumed saved transport := by
  cases w with
  | running d =>
    cases event with
    | call call => exact .inr (.inl ⟨d, call, rfl, rfl⟩)
    | crash => exact .inr (.inr (.inl ⟨d, rfl, rfl⟩))
    | start => exact .inl rfl
  | down saved transport =>
    cases event with
    | call | crash => exact .inl rfl
    | start group recovery answer =>
      unfold step start
      dsimp only
      rcases Driver.withControlPlaneCheckpoint_resumed group recovery transport saved answer with
        ⟨hok, hd⟩ | ⟨hne, htransport⟩
      · rw [hok]
        exact .inr (.inr (.inr ⟨saved, transport, _, rfl, rfl, hd⟩))
      · left
        split
        · rename_i hok
          exact absurd hok hne
        · rw [htransport]

end World

end Rafter.Service
