import Mathlib.Data.Finset.Max
import Rafter.App.Event
import Rafter.Bytes.Codec

/-!
# Membership facts of the transport driver

`crates/rafter-service/src/driver/transport/`: what one membership event asserts (`observation.rs`),
how two observations of the committed membership combine (`merge.rs`), the staged membership fields
(`candidate.rs`, `candidate/committed.rs`), and the record a restarted process resumes from
(`checkpoint.rs`, `checkpoint/record.rs`, `checkpoint/validation.rs`).

A `BTreeSet<NodeId>` is a `Finset`. The fields of a fact that only name the event's group are left
out: the fold reads none of them.

Results:

* `observeCommitted_spent`, `restoreCheckpoint_spent`: no fold un-spends an identity;
* `observeCommitted_recorded`, `restoreCheckpoint_ok`: the mark and the register come and go
  together, and the register names nothing above the mark.
-/

namespace Rafter.Service

/-! ## Observations -/

/-- The replicas a configuration names. -/
def members (m : MembershipConfig) : Finset NodeId := m.replicaIds.toFinset

theorem members_nonempty (m : MembershipConfig) : (members m).Nonempty := by
  have hset : ∀ s : MembershipSet, ∃ n, n ∈ s.replicaIds := by
    intro s
    obtain ⟨n, rest, hvoters⟩ := List.exists_cons_of_ne_nil s.voters_ne_nil
    exact ⟨n, by simp [MembershipSet.replicaIds, hvoters]⟩
  cases m with
  | stable s =>
    obtain ⟨n, hn⟩ := hset s
    exact ⟨n, by simpa [members, MembershipConfig.replicaIds] using hn⟩
  | joint j =>
    obtain ⟨n, hn⟩ := hset j.old
    exact ⟨n, by simp [members, MembershipConfig.replicaIds, hn]⟩

/-- `CommittedObservation`: where a committed membership fact stands, what it names, and what it
proves was removed. It is only built from configurations, which name at least one replica. -/
structure CommittedObservation where
  through : ℕ
  membership : Finset NodeId
  previous : Option (Finset NodeId)
  removed : Finset NodeId
  named : Finset NodeId
  membership_subset : membership ⊆ named
  named_nonempty : named.Nonempty

namespace CommittedObservation

/-- `CommittedObservation::crossing`. -/
def crossing (through : ℕ) (previous committed : MembershipConfig) : CommittedObservation where
  through := through
  membership := members committed
  previous := some (members previous)
  removed := members previous \ members committed
  named := members previous ∪ members committed
  membership_subset := Finset.subset_union_right
  named_nonempty := (members_nonempty committed).mono Finset.subset_union_right

/-- `CommittedObservation::endpoint`. -/
def endpoint (through : ℕ) (committed : MembershipConfig) : CommittedObservation where
  through := through
  membership := members committed
  previous := none
  removed := ∅
  named := members committed
  membership_subset := Finset.Subset.refl _
  named_nonempty := members_nonempty committed

/-- `membership_claimed_at`: a transition speaks of the position right below it. -/
def membershipClaimedAt (fact : CommittedObservation) (position : ℕ) : Option (Finset NodeId) :=
  if checkedNext position = some fact.through then fact.previous else none

end CommittedObservation

/-- `ObservedMembership`. -/
inductive ObservedMembership where
  | effective (membership : Finset NodeId)
  | committed (fact : CommittedObservation)
  | nothing

/-- `observed_membership`. -/
def observedMembership {G : Type} : MembershipEvent G → ObservedMembership
  | .effectiveChanged _ _ _ membership => .effective (members membership)
  | .applied _ index _ previous membership => .committed (.crossing index previous membership)
  | .committedEndpoint _ index _ membership => .committed (.endpoint index membership)
  | .rejected _ _ _ => .nothing

/-- `MembershipFact`. -/
inductive MembershipFact where
  | effective (membership : Finset NodeId)
  | committed (fact : CommittedObservation) (effective : Finset NodeId)

/-! ## The register and its merge -/

/-- `CurrentCommittedState`: the committed membership last observed, less every spent identity. -/
structure CurrentCommittedState where
  through : ℕ
  membership : Finset NodeId
deriving DecidableEq

/-- `ControlPlaneCheckpointError`. -/
inductive ControlPlaneCheckpointError where
  | foreignGroup
  | contradictionWithoutCurrentState
  | contradictionBeneathCurrentState (contradictedAt through : ℕ)
  | retirementWithoutCurrentState
  | currentStateWithoutRetirement
  | liveMemberAboveMark (nodeId mark : NodeId)
  | contradictedRecordMerged (through : ℕ)
  | staleCurrentState (held incoming : ℕ)
  | contradictoryCurrentState (through : ℕ)
  | contradictoryTransitionPredecessor (through : ℕ)
deriving DecidableEq

/-- `live`: a membership less everything a removal took and everything already spent. -/
def live (membership removed : Finset NodeId) (spent : NodeId → Bool) : Finset NodeId :=
  membership.filter fun n => n ∉ removed ∧ spent n = false

/-- `IncomingObservation`. -/
structure IncomingObservation where
  through : ℕ
  membership : Finset NodeId
  provenRemoved : Finset NodeId

/-- The later of two observations, less what only the older one names and what is proven removed:
the pair proves both were removed. -/
def laterState (through : ℕ) (older newer provenRemoved : Finset NodeId) (spent : NodeId → Bool) :
    CurrentCommittedState :=
  ⟨through, live newer (older \ newer ∪ provenRemoved) spent⟩

/-- `merge_current_state`. -/
def mergeCurrentState (held : Option CurrentCommittedState) (incoming : IncomingObservation)
    (spent : NodeId → Bool) : Except ControlPlaneCheckpointError CurrentCommittedState :=
  match held with
  | none => .ok ⟨incoming.through, live incoming.membership incoming.provenRemoved spent⟩
  | some held =>
    if held.through < incoming.through then
      .ok (laterState incoming.through held.membership incoming.membership incoming.provenRemoved
        spent)
    else if incoming.through < held.through then
      .ok (laterState held.through incoming.membership held.membership incoming.provenRemoved
        spent)
    else if live held.membership ∅ spent = live incoming.membership ∅ spent then
      .ok ⟨held.through, live held.membership ∅ spent⟩
    else .error (.contradictoryCurrentState held.through)

/-- `spends_under`: a committed removal consumed the identity. -/
def spendsUnder (mark : Option NodeId) (current : Option CurrentCommittedState) (n : NodeId) :
    Bool :=
  mark.any (n ≤ ·) && !current.any (n ∈ ·.membership)

/-- The greatest identity of a set. -/
def highest (ids : Finset NodeId) : Option NodeId :=
  if h : ids.Nonempty then some (ids.max' h) else none

/-- The higher of two marks. -/
def higherMark : Option NodeId → Option NodeId → Option NodeId
  | some a, some b => some (max a b)
  | a, none => a
  | none, b => b

/-! ## The candidate -/

/-- `MembershipCandidate`: the membership fields of a driver, staged. -/
structure MembershipCandidate where
  effectiveMembers : Finset NodeId
  committedMembers : Finset NodeId
  currentCommitted : Option CurrentCommittedState
  committedIdHighWater : Option NodeId
deriving DecidableEq

namespace MembershipCandidate

/-- The candidate of a driver that has observed nothing. -/
def empty : MembershipCandidate := ⟨∅, ∅, none, none⟩

/-- `is_spent`, and the test `spent_before` captures. -/
def isSpent (c : MembershipCandidate) (n : NodeId) : Bool :=
  spendsUnder c.committedIdHighWater c.currentCommitted n

/-- `check_ancestry`. -/
def checkAncestry (c : MembershipCandidate) (fact : CommittedObservation) :
    Except ControlPlaneCheckpointError Unit :=
  match c.currentCommitted with
  | none => .ok ()
  | some held =>
    match fact.membershipClaimedAt held.through with
    | none => .ok ()
    | some claimed =>
      if live held.membership ∅ c.isSpent = live claimed ∅ c.isSpent then .ok ()
      else .error (.contradictoryTransitionPredecessor held.through)

/-- The merge of `observe_committed` and of `probe`. -/
def mergeFact (c : MembershipCandidate) (fact : CommittedObservation) :
    Except ControlPlaneCheckpointError CurrentCommittedState := do
  c.checkAncestry fact
  mergeCurrentState c.currentCommitted ⟨fact.through, fact.membership, fact.removed⟩ c.isSpent

/-- `observe_committed`. -/
def observeCommitted (c : MembershipCandidate) (fact : CommittedObservation) :
    Except ControlPlaneCheckpointError MembershipCandidate := do
  let current ← c.mergeFact fact
  return { c with
    committedIdHighWater := higherMark c.committedIdHighWater (highest fact.named)
    currentCommitted := some current
    committedMembers := fact.membership }

/-- `probe`. -/
def probe (c : MembershipCandidate) (fact : CommittedObservation) :
    Except ControlPlaneCheckpointError Unit := do
  let _ ← c.mergeFact fact

/-- `apply`. -/
def apply (c : MembershipCandidate) : MembershipFact →
    Except ControlPlaneCheckpointError MembershipCandidate
  | .effective effective => .ok { c with effectiveMembers := effective }
  | .committed fact effective => do
    let c ← c.observeCommitted fact
    return { c with effectiveMembers := effective }

end MembershipCandidate

/-! ## The checkpoint -/

/-- `PeerControlPlaneCheckpoint`. -/
structure PeerControlPlaneCheckpoint (G : Type) where
  group : G
  committedIdHighWater : Option NodeId
  currentCommitted : Option CurrentCommittedState
  contradictedAt : Option ℕ
deriving DecidableEq

namespace PeerControlPlaneCheckpoint

variable {G : Type}

/-- `PeerControlPlaneCheckpoint::empty`. -/
def empty (group : G) : PeerControlPlaneCheckpoint G := ⟨group, none, none, none⟩

/-- The membership of the record's register, or nothing. -/
def membership (r : PeerControlPlaneCheckpoint G) : Finset NodeId :=
  (r.currentCommitted.map CurrentCommittedState.membership).getD ∅

/-- The marker's half of `validate`. -/
def validateMarker (r : PeerControlPlaneCheckpoint G) : Except ControlPlaneCheckpointError Unit :=
  match r.contradictedAt with
  | none => .ok ()
  | some contradictedAt =>
    match r.currentCommitted with
    | none => .error .contradictionWithoutCurrentState
    | some current =>
      if contradictedAt < current.through then
        .error (.contradictionBeneathCurrentState contradictedAt current.through)
      else .ok ()

/-- The coupling of the mark and the register in `validate`. -/
def validateCoupling (r : PeerControlPlaneCheckpoint G) :
    Except ControlPlaneCheckpointError Unit :=
  match r.currentCommitted, r.committedIdHighWater with
  | none, some _ => .error .retirementWithoutCurrentState
  | some _, none => .error .currentStateWithoutRetirement
  | none, none => .ok ()
  | some _, some mark =>
    if h : (r.membership.filter (mark < ·)).Nonempty then
      .error (.liveMemberAboveMark ((r.membership.filter (mark < ·)).min' h) mark)
    else .ok ()

/-- `validate`. -/
def validate [DecidableEq G] (r : PeerControlPlaneCheckpoint G) (group : G) :
    Except ControlPlaneCheckpointError Unit :=
  if r.group ≠ group then .error .foreignGroup
  else do
    r.validateMarker
    r.validateCoupling

end PeerControlPlaneCheckpoint

variable {spent : NodeId → Bool} {n : NodeId}

/-- `RecordJoin`: whether a record resumes its own chain or is merged into a running driver. -/
inductive RecordJoin where
  | resume
  | merge
deriving DecidableEq

/-- The chain rule of `restore_checkpoint`. -/
def checkStale (held incoming : Option CurrentCommittedState) :
    Except ControlPlaneCheckpointError Unit :=
  match held, incoming with
  | some held, some incoming =>
    if incoming.through < held.through then
      .error (.staleCurrentState held.through incoming.through)
    else .ok ()
  | _, _ => .ok ()

/-- The register of the join of a candidate and a record. -/
def joinCurrent (c : MembershipCandidate) (mark : Option NodeId)
    (restored : Option CurrentCommittedState) :
    Except ControlPlaneCheckpointError (Option CurrentCommittedState) :=
  match restored with
  | none => .ok c.currentCommitted
  | some incoming => do
    let current ← mergeCurrentState c.currentCommitted
      ⟨incoming.through, incoming.membership, ∅⟩
      fun n => c.isSpent n || spendsUnder mark restored n
    return some current

/-- `restore_checkpoint`: the candidate joined with the record, and the record's marker. -/
def restoreCheckpoint {G : Type} [DecidableEq G] (c : MembershipCandidate)
    (checkpoint : PeerControlPlaneCheckpoint G) (group : G) (join : RecordJoin) :
    Except ControlPlaneCheckpointError (MembershipCandidate × Option ℕ) := do
  checkpoint.validate group
  match checkpoint.contradictedAt, join with
  | some through, .merge => .error (.contradictedRecordMerged through)
  | _, _ =>
    checkStale c.currentCommitted checkpoint.currentCommitted
    let current ← joinCurrent c checkpoint.committedIdHighWater checkpoint.currentCommitted
    let joined : PeerControlPlaneCheckpoint G :=
      ⟨group, higherMark c.committedIdHighWater checkpoint.committedIdHighWater, current,
        checkpoint.contradictedAt⟩
    joined.validate group
    return ({ c with
      committedIdHighWater := joined.committedIdHighWater
      currentCommitted := joined.currentCommitted }, joined.contradictedAt)

/-! ## What a fold keeps -/

open Bytes (bind_eq_ok_iff pure_eq_ok_iff)

theorem mem_live {membership removed : Finset NodeId} :
    n ∈ live membership removed spent ↔ n ∈ membership ∧ n ∉ removed ∧ spent n = false := by
  rw [live, Finset.mem_filter]

theorem live_subset (membership removed : Finset NodeId) (spent : NodeId → Bool) :
    live membership removed spent ⊆ membership := Finset.filter_subset ..

/-- Nothing is taken out of a membership that no removal and no spent identity touches. -/
theorem live_eq_self {membership removed : Finset NodeId}
    (h : ∀ n ∈ membership, n ∉ removed ∧ spent n = false) :
    live membership removed spent = membership :=
  Finset.filter_true_of_mem h

@[simp] theorem spendsUnder_iff {mark : Option NodeId} {current : Option CurrentCommittedState} :
    spendsUnder mark current n = true ↔
      (∃ m ∈ mark, n ≤ m) ∧ ∀ cur ∈ current, n ∉ cur.membership := by
  cases mark <;> cases current <;> simp [spendsUnder]

variable {ids : Finset NodeId} {held : Option CurrentCommittedState}
variable {incoming : IncomingObservation}

theorem highest_mem (h : highest ids = some n) : n ∈ ids := by
  unfold highest at h
  split at h
  · rw [← Option.some.inj h]
    exact ids.max'_mem _
  · cases h

theorem le_highest (hn : n ∈ ids) :
    ∃ top, highest ids = some top ∧ n ≤ top := by
  have hne : ids.Nonempty := ⟨n, hn⟩
  exact ⟨ids.max' hne, dif_pos hne, ids.le_max' n hn⟩

/-- A higher mark covers what either mark covers. -/
theorem le_higherMark {a b : Option NodeId} :
    (∃ m ∈ higherMark a b, n ≤ m) ↔ (∃ m ∈ a, n ≤ m) ∨ ∃ m ∈ b, n ≤ m := by
  cases a <;> cases b <;> simp [higherMark]

/-- The higher of two marks is one of them. -/
theorem mem_higherMark {a b : Option NodeId} {m : NodeId} (h : m ∈ higherMark a b) :
    m ∈ a ∨ m ∈ b := by
  cases a with
  | none => exact .inr (by cases b <;> exact h)
  | some a =>
    cases b with
    | none => exact .inl h
    | some b =>
      cases h
      rcases max_choice a b with hmax | hmax
      · exact .inl (congrArg some hmax.symm)
      · exact .inr (congrArg some hmax.symm)

@[simp] theorem higherMark_none (a : Option NodeId) : higherMark a none = a := by
  cases a <;> rfl

/-- What every accepted merge guarantees: the position is the later one, nothing spent is named,
and nothing that neither side named. -/
theorem mergeCurrentState_ok {current : CurrentCommittedState}
    (h : mergeCurrentState held incoming spent = .ok current) :
    incoming.through ≤ current.through ∧ (∀ cur ∈ held, cur.through ≤ current.through) ∧
      (∀ n ∈ current.membership, spent n = false) ∧
      ∀ n ∈ current.membership, n ∈ incoming.membership ∨ ∃ cur ∈ held, n ∈ cur.membership := by
  cases held with
  | none =>
    cases h
    refine ⟨le_rfl, by simp, fun n hn => (mem_live.1 hn).2.2, fun n hn => ?_⟩
    exact .inl (mem_live.1 hn).1
  | some held =>
    rw [mergeCurrentState] at h
    split at h
    · rename_i hlt
      cases h
      refine ⟨le_rfl, by simpa [laterState] using hlt.le, fun n hn => (mem_live.1 hn).2.2,
        fun n hn => ?_⟩
      exact .inl (mem_live.1 hn).1
    · split at h
      · rename_i hlt
        cases h
        refine ⟨hlt.le, by simp [laterState], fun n hn => (mem_live.1 hn).2.2, fun n hn => ?_⟩
        exact .inr ⟨held, rfl, (mem_live.1 hn).1⟩
      · rename_i hge hle
        split at h
        · cases h
          refine ⟨not_lt.1 hge, by simp, fun n hn => (mem_live.1 hn).2.2, fun n hn => ?_⟩
          exact .inr ⟨held, rfl, (mem_live.1 hn).1⟩
        · cases h

/-- A refused merge names the position both sides stand at. -/
theorem mergeCurrentState_error {e : ControlPlaneCheckpointError}
    (h : mergeCurrentState held incoming spent = .error e) :
    ∃ cur ∈ held, e = .contradictoryCurrentState cur.through := by
  cases held with
  | none => cases h
  | some held =>
    rw [mergeCurrentState] at h
    split at h
    · cases h
    · split at h
      · cases h
      · split at h
        · cases h
        · cases h
          exact ⟨held, rfl, rfl⟩

/-- The coupling `validate` checks: a mark and a register come together, and the register names
nothing above the mark. -/
structure Recorded (mark : Option NodeId) (current : Option CurrentCommittedState) : Prop where
  isSome_iff : current.isSome ↔ mark.isSome
  le_mark : ∀ cur ∈ current, ∀ n ∈ cur.membership, ∃ m ∈ mark, n ≤ m

theorem recorded_none : Recorded none none := ⟨Iff.rfl, by simp⟩

namespace PeerControlPlaneCheckpoint

variable {G : Type} [DecidableEq G]
variable {r : PeerControlPlaneCheckpoint G}

omit [DecidableEq G] in
theorem validateCoupling_ok_iff :
    r.validateCoupling = .ok () ↔ Recorded r.committedIdHighWater r.currentCommitted := by
  cases hcurrent : r.currentCommitted with
  | none =>
    cases hmark : r.committedIdHighWater with
    | none => simp [validateCoupling, hcurrent, hmark, recorded_none]
    | some mark =>
      refine iff_of_false (by simp [validateCoupling, hcurrent, hmark]) fun h => ?_
      simpa using h.isSome_iff
  | some current =>
    cases hmark : r.committedIdHighWater with
    | none =>
      refine iff_of_false (by simp [validateCoupling, hcurrent, hmark]) fun h => ?_
      simpa using h.isSome_iff
    | some mark =>
      simp only [validateCoupling, hcurrent, hmark, membership, Option.map_some, Option.getD_some]
      split
      · rename_i habove
        refine iff_of_false (by simp) fun h => ?_
        obtain ⟨n, hn⟩ := habove
        rw [Finset.mem_filter] at hn
        obtain ⟨m, hm, hle⟩ := h.le_mark current rfl n hn.1
        cases hm
        exact absurd hn.2 (not_lt.2 hle)
      · rename_i hnone
        refine iff_of_true rfl ⟨by simp, fun cur hcur n hn => ⟨mark, rfl, ?_⟩⟩
        cases hcur
        by_contra hlt
        exact hnone ⟨n, Finset.mem_filter.2 ⟨hn, not_le.1 hlt⟩⟩

omit [DecidableEq G] in
theorem validateMarker_ok_iff :
    r.validateMarker = .ok () ↔
      ∀ at' ∈ r.contradictedAt, ∃ cur ∈ r.currentCommitted, cur.through ≤ at' := by
  cases hmarker : r.contradictedAt with
  | none => simp [validateMarker, hmarker]
  | some at' =>
    cases hcurrent : r.currentCommitted with
    | none => simp [validateMarker, hmarker, hcurrent]
    | some current => simp [validateMarker, hmarker, hcurrent]

/-- A record is valid exactly if it is the group's, its marker stands at or above its register and
its mark covers its register. -/
theorem validate_ok_iff {group : G} :
    r.validate group = .ok () ↔ r.group = group ∧
      (∀ at' ∈ r.contradictedAt, ∃ cur ∈ r.currentCommitted, cur.through ≤ at') ∧
      Recorded r.committedIdHighWater r.currentCommitted := by
  rw [← validateMarker_ok_iff, ← validateCoupling_ok_iff, validate]
  by_cases hgroup : r.group = group
  · rw [if_neg (not_not.2 hgroup), bind_eq_ok_iff]
    constructor
    · rintro ⟨⟨⟩, hmarker, hcoupling⟩
      exact ⟨hgroup, hmarker, hcoupling⟩
    · rintro ⟨-, hmarker, hcoupling⟩
      exact ⟨(), hmarker, hcoupling⟩
  · simp [hgroup]

end PeerControlPlaneCheckpoint

namespace MembershipCandidate

variable {c c' : MembershipCandidate} {fact : CommittedObservation}

/-- An accepted fact, taken apart. -/
theorem observeCommitted_ok (h : c.observeCommitted fact = .ok c') : ∃ current,
    c.checkAncestry fact = .ok () ∧
    mergeCurrentState c.currentCommitted ⟨fact.through, fact.membership, fact.removed⟩ c.isSpent =
      .ok current ∧
    c' = { c with
      committedIdHighWater := higherMark c.committedIdHighWater (highest fact.named)
      currentCommitted := some current
      committedMembers := fact.membership } := by
  obtain ⟨current, hmerge, hc'⟩ := bind_eq_ok_iff.1 h
  obtain ⟨⟨⟩, hancestry, hmerge⟩ := bind_eq_ok_iff.1 hmerge
  exact ⟨current, hancestry, hmerge, (pure_eq_ok_iff.1 hc').symm⟩

/-- An endpoint speaks of no position but its own. -/
theorem checkAncestry_endpoint (c : MembershipCandidate) (through : ℕ)
    (committed : MembershipConfig) : c.checkAncestry (.endpoint through committed) = .ok () := by
  unfold checkAncestry
  split
  · rfl
  · split
    · rfl
    · rename_i claimed hclaimed
      unfold CommittedObservation.membershipClaimedAt at hclaimed
      split at hclaimed <;> cases hclaimed

/-- A refused fact names the position the register stands at. -/
theorem observeCommitted_error {e : ControlPlaneCheckpointError}
    (h : c.observeCommitted fact = .error e) : ∃ cur ∈ c.currentCommitted,
      e = .contradictoryCurrentState cur.through ∨
        e = .contradictoryTransitionPredecessor cur.through := by
  unfold observeCommitted mergeFact at h
  cases hancestry : c.checkAncestry fact with
  | error e' =>
    rw [hancestry] at h
    cases h
    unfold checkAncestry at hancestry
    split at hancestry
    · cases hancestry
    · rename_i cur hcur
      split at hancestry
      · cases hancestry
      · split at hancestry
        · cases hancestry
        · cases hancestry
          exact ⟨cur, hcur, .inr rfl⟩
  | ok u =>
    rw [hancestry] at h
    cases hmerge : mergeCurrentState c.currentCommitted
        ⟨fact.through, fact.membership, fact.removed⟩ c.isSpent with
    | error e' =>
      obtain ⟨cur, hcur, rfl⟩ := mergeCurrentState_error hmerge
      refine ⟨cur, hcur, .inl ?_⟩
      simp only [bind, Except.bind, hmerge] at h
      cases h
      rfl
    | ok current =>
      simp only [bind, Except.bind, hmerge] at h
      cases h

/-- A fact un-spends nothing: the mark only rises, and the register takes nothing spent back. -/
theorem observeCommitted_spent (h : c.observeCommitted fact = .ok c') {n : NodeId}
    (hspent : c.isSpent n = true) : c'.isSpent n = true := by
  obtain ⟨current, -, hmerge, rfl⟩ := observeCommitted_ok h
  obtain ⟨-, -, hlive, -⟩ := mergeCurrentState_ok hmerge
  have hmark := (spendsUnder_iff.1 hspent).1
  refine spendsUnder_iff.2 ⟨le_higherMark.2 (.inl hmark), fun cur hcur hn => ?_⟩
  cases hcur
  rw [hlive n hn] at hspent
  cases hspent

/-- After a fact the mark covers the register. -/
theorem observeCommitted_recorded (h : c.observeCommitted fact = .ok c')
    (hc : Recorded c.committedIdHighWater c.currentCommitted) :
    Recorded c'.committedIdHighWater c'.currentCommitted := by
  obtain ⟨current, -, hmerge, rfl⟩ := observeCommitted_ok h
  obtain ⟨-, -, -, hnamed⟩ := mergeCurrentState_ok hmerge
  obtain ⟨first, hfirst⟩ := fact.named_nonempty
  obtain ⟨top, htop, -⟩ := le_highest hfirst
  refine ⟨?_, fun cur hcur n hn => ?_⟩
  · cases hmark : c.committedIdHighWater <;> simp [htop, higherMark]
  · cases hcur
    refine le_higherMark.2 ?_
    rcases hnamed n hn with hn | ⟨held, hheld, hn⟩
    · obtain ⟨top', htop', hle⟩ := le_highest (fact.membership_subset hn)
      exact .inr ⟨top', htop', hle⟩
    · exact .inl (hc.le_mark held hheld n hn)

/-- A fact leaves a register that stands no lower. -/
theorem observeCommitted_through (h : c.observeCommitted fact = .ok c') :
    ∃ cur' ∈ c'.currentCommitted, ∀ cur ∈ c.currentCommitted, cur.through ≤ cur'.through := by
  obtain ⟨current, -, hmerge, rfl⟩ := observeCommitted_ok h
  exact ⟨current, rfl, (mergeCurrentState_ok hmerge).2.1⟩

end MembershipCandidate

/-! ## What a join keeps -/

section Restore

variable {G : Type} [DecidableEq G] {c c' : MembershipCandidate}
  {checkpoint : PeerControlPlaneCheckpoint G} {group : G} {join : RecordJoin} {marker : Option ℕ}

/-- An accepted record, taken apart. -/
theorem restoreCheckpoint_ok (h : restoreCheckpoint c checkpoint group join = .ok (c', marker)) :
    checkpoint.validate group = .ok () ∧ marker = checkpoint.contradictedAt ∧
      (join = .merge → checkpoint.contradictedAt = none) ∧
      checkStale c.currentCommitted checkpoint.currentCommitted = .ok () ∧
      ∃ current, joinCurrent c checkpoint.committedIdHighWater checkpoint.currentCommitted =
          .ok current ∧
        Recorded (higherMark c.committedIdHighWater checkpoint.committedIdHighWater) current ∧
        (∀ at' ∈ marker, ∃ cur ∈ current, cur.through ≤ at') ∧
        c' = { c with
          committedIdHighWater := higherMark c.committedIdHighWater checkpoint.committedIdHighWater
          currentCommitted := current } := by
  obtain ⟨⟨⟩, hvalid, h⟩ := bind_eq_ok_iff.1 h
  have hjoined : (do
      checkStale c.currentCommitted checkpoint.currentCommitted
      let current ← joinCurrent c checkpoint.committedIdHighWater checkpoint.currentCommitted
      let joined : PeerControlPlaneCheckpoint G :=
        ⟨group, higherMark c.committedIdHighWater checkpoint.committedIdHighWater, current,
          checkpoint.contradictedAt⟩
      joined.validate group
      return ({ c with
        committedIdHighWater := joined.committedIdHighWater
        currentCommitted := joined.currentCommitted }, joined.contradictedAt)) =
      (.ok (c', marker) : Except ControlPlaneCheckpointError _) ∧
      (join = .merge → checkpoint.contradictedAt = none) := by
    cases hat : checkpoint.contradictedAt with
    | none =>
      rw [hat] at h
      exact ⟨h, fun _ => rfl⟩
    | some at' =>
      rw [hat] at h
      cases join with
      | resume => exact ⟨h, fun hmerge => by cases hmerge⟩
      | merge => cases h
  obtain ⟨hjoined, hmerge⟩ := hjoined
  obtain ⟨⟨⟩, hstale, hjoined⟩ := bind_eq_ok_iff.1 hjoined
  obtain ⟨current, hcurrent, hjoined⟩ := bind_eq_ok_iff.1 hjoined
  obtain ⟨⟨⟩, hvalidJoin, hjoined⟩ := bind_eq_ok_iff.1 hjoined
  obtain ⟨-, hmarker, hrecorded⟩ := PeerControlPlaneCheckpoint.validate_ok_iff.1 hvalidJoin
  have hout := pure_eq_ok_iff.1 hjoined
  rw [Prod.mk.injEq] at hout
  obtain ⟨rfl, rfl⟩ := hout
  exact ⟨hvalid, rfl, hmerge, hstale, current, hcurrent, hrecorded, hmarker, rfl⟩

/-- Joining a record un-spends nothing either side had spent. -/
theorem restoreCheckpoint_spent (h : restoreCheckpoint c checkpoint group join = .ok (c', marker))
    {n : NodeId} (hspent : c.isSpent n = true ∨
      spendsUnder checkpoint.committedIdHighWater checkpoint.currentCommitted n = true) :
    c'.isSpent n = true := by
  obtain ⟨hvalid, -, -, -, current, hcurrent, -, -, rfl⟩ := restoreCheckpoint_ok h
  have hmark : ∃ m ∈ higherMark c.committedIdHighWater checkpoint.committedIdHighWater, n ≤ m := by
    refine le_higherMark.2 ?_
    rcases hspent with hspent | hspent
    · exact .inl (spendsUnder_iff.1 hspent).1
    · exact .inr (spendsUnder_iff.1 hspent).1
  refine spendsUnder_iff.2 ⟨hmark, fun cur hcur hn => ?_⟩
  have hcur : current = some cur := hcur
  cases hrestored : checkpoint.currentCommitted with
  | none =>
    -- A record without a register has no mark, so only the candidate can have spent the identity.
    rw [hrestored, joinCurrent] at hcurrent
    cases hcurrent
    have hnone : checkpoint.committedIdHighWater = none := by
      have hiff := (PeerControlPlaneCheckpoint.validate_ok_iff.1 hvalid).2.2.isSome_iff
      rw [hrestored] at hiff
      simpa using hiff
    rcases hspent with hspent | hspent
    · exact (spendsUnder_iff.1 hspent).2 cur hcur hn
    · obtain ⟨m, hm, -⟩ := (spendsUnder_iff.1 hspent).1
      rw [hnone] at hm
      cases hm
  | some incoming =>
    rw [hrestored, joinCurrent] at hcurrent
    obtain ⟨merged, hmerge, hsome⟩ := bind_eq_ok_iff.1 hcurrent
    have hmerged : some merged = some cur := (pure_eq_ok_iff.1 hsome).trans hcur
    cases hmerged
    have hlive := (mergeCurrentState_ok hmerge).2.2.1 n hn
    rw [Bool.or_eq_false_iff] at hlive
    rcases hspent with hspent | hspent
    · rw [hlive.1] at hspent
      cases hspent
    · rw [hrestored, hlive.2] at hspent
      cases hspent

end Restore

end Rafter.Service
