import Rafter.Service.ControlPlane

/-!
# Records are resumable and a contradiction is terminal

What an embedder persists against: every record a driver reports can be resumed, the epoch follows
the record, a refused batch is dropped whole, and a recorded contradiction freezes the record, the
link layer and the clients out, in this process and in every one resumed from it.

The epoch saturates (`advance_checkpoint_epoch` says so), so it follows the record only below
`u64::MAX`; `saturated_epoch_stands` is a run that gets there.

Results:

* `control_plane_resumable`: the four statements over every run.
-/

namespace Rafter.Service

/-! ## One process -/

namespace Driver

variable {G : Type} {d d' d'' : Driver G}
variable {events : List (MembershipEvent G)}

/-- What holds of a driver between calls. -/
structure Valid (d : Driver G) : Prop where
  staged_eq : d.stagedMembership = none
  isSome : d.currentCommitted.isSome
  recorded : Recorded d.committedIdHighWater d.currentCommitted
  marker : ∀ k ∈ d.contradiction, ∀ cur ∈ d.currentCommitted, cur.through ≤ k.through
  epoch_le : d.checkpointEpoch ≤ u64Max

/-- What a chain of calls keeps. -/
structure Leads (d d' : Driver G) : Prop where
  groupId : d'.groupId = d.groupId
  grows : Grows d.committedIdHighWater d.currentCommitted
    d'.committedIdHighWater d'.currentCommitted
  kept : ∀ k, d.contradiction = some k → d'.contradiction = some k
  frozen : d.contradiction.isSome → d'.committedIdHighWater = d.committedIdHighWater ∧
    d'.currentCommitted = d.currentCommitted ∧ d'.transport = d.transport
  epoch_le : d.checkpointEpoch ≤ u64Max →
    d.checkpointEpoch ≤ d'.checkpointEpoch ∧ d'.checkpointEpoch ≤ u64Max
  paced : d'.checkpointEpoch < u64Max → d.checkpointEpoch ≤ d'.checkpointEpoch →
    (d'.checkpointEpoch = d.checkpointEpoch ↔
      d'.controlPlaneCheckpoint = d.controlPlaneCheckpoint)

theorem controlPlaneCheckpoint_eq_iff : d'.controlPlaneCheckpoint = d.controlPlaneCheckpoint ↔
    d'.groupId = d.groupId ∧ d'.committedIdHighWater = d.committedIdHighWater ∧
      d'.currentCommitted = d.currentCommitted ∧
      d'.contradiction.map Contradiction.through = d.contradiction.map Contradiction.through := by
  rw [controlPlaneCheckpoint, controlPlaneCheckpoint, PeerControlPlaneCheckpoint.mk.injEq]

/-- A move that writes nothing an embedder persists. -/
theorem leads_of_same (hgroup : d'.groupId = d.groupId)
    (hmark : d'.committedIdHighWater = d.committedIdHighWater)
    (hcurrent : d'.currentCommitted = d.currentCommitted)
    (hmarker : d'.contradiction = d.contradiction)
    (hepoch : d'.checkpointEpoch = d.checkpointEpoch)
    (htransport : d.contradiction.isSome → d'.transport = d.transport) : d.Leads d' where
  groupId := hgroup
  grows := by
    rw [hmark, hcurrent]
    exact .refl _ _
  kept := fun k hk => hmarker.trans hk
  frozen := fun hsome => ⟨hmark, hcurrent, htransport hsome⟩
  epoch_le := fun hle => by
    rw [hepoch]
    exact ⟨le_rfl, hle⟩
  paced := fun _ _ => by
    refine iff_of_true hepoch (controlPlaneCheckpoint_eq_iff.2 ⟨hgroup, hmark, hcurrent, ?_⟩)
    rw [hmarker]

theorem Leads.refl (d : Driver G) : d.Leads d := leads_of_same rfl rfl rfl rfl rfl fun _ => rfl

/-- A record reached again was never left: what lies between two equal records is equal to both. -/
theorem Leads.eq_of_eq (h : d.Leads d') (h' : d'.Leads d'')
    (heq : d''.controlPlaneCheckpoint = d.controlPlaneCheckpoint) :
    d'.controlPlaneCheckpoint = d.controlPlaneCheckpoint := by
  obtain ⟨-, hmark, hcurrent, hmarker⟩ := controlPlaneCheckpoint_eq_iff.1 heq
  have hback : Grows d'.committedIdHighWater d'.currentCommitted
      d.committedIdHighWater d.currentCommitted := hmark ▸ hcurrent ▸ h'.grows
  obtain ⟨hmark', hcurrent'⟩ := hback.antisymm h.grows
  refine controlPlaneCheckpoint_eq_iff.2 ⟨h.groupId, hmark', hcurrent', ?_⟩
  cases hk' : d'.contradiction with
  | some k =>
    rw [h'.kept k hk'] at hmarker
    exact hmarker
  | none =>
    cases hk : d.contradiction with
    | none => rfl
    | some k =>
      rw [h.kept k hk] at hk'
      cases hk'

theorem Leads.trans (h : d.Leads d') (h' : d'.Leads d'') : d.Leads d'' where
  groupId := h'.groupId.trans h.groupId
  grows := h.grows.trans h'.grows
  kept := fun k hk => h'.kept k (h.kept k hk)
  frozen := fun hsome => by
    obtain ⟨k, hk⟩ := Option.isSome_iff_exists.1 hsome
    obtain ⟨hmark, hcurrent, htransport⟩ := h.frozen hsome
    obtain ⟨hmark', hcurrent', htransport'⟩ :=
      h'.frozen (Option.isSome_iff_exists.2 ⟨k, h.kept k hk⟩)
    exact ⟨hmark'.trans hmark, hcurrent'.trans hcurrent, htransport'.trans htransport⟩
  epoch_le := fun hle => by
    obtain ⟨hle₁, hmax₁⟩ := h.epoch_le hle
    obtain ⟨hle₂, hmax₂⟩ := h'.epoch_le hmax₁
    exact ⟨hle₁.trans hle₂, hmax₂⟩
  paced := fun hlt hle => by
    have hmax : d.checkpointEpoch ≤ u64Max := hle.trans hlt.le
    obtain ⟨hle₁, hmax₁⟩ := h.epoch_le hmax
    obtain ⟨hle₂, -⟩ := h'.epoch_le hmax₁
    have hlt₁ : d'.checkpointEpoch < u64Max := lt_of_le_of_lt hle₂ hlt
    constructor
    · intro hepoch
      have hmid : d'.checkpointEpoch = d.checkpointEpoch := le_antisymm (hepoch ▸ hle₂) hle₁
      exact ((h'.paced hlt hle₂).1 (hepoch.trans hmid.symm)).trans ((h.paced hlt₁ hle₁).1 hmid)
    · intro hrecord
      have hmid := h.eq_of_eq h' hrecord
      exact ((h'.paced hlt hle₂).2 (hrecord.trans hmid.symm)).trans ((h.paced hlt₁ hle₁).2 hmid)

variable [DecidableEq G]

theorem Move.leads (h : Move d d') : d.Leads d' := by
  cases h with
  | live => exact leads_of_same rfl rfl rfl rfl rfl fun _ => rfl
  | assign c hnone hc =>
    rw [assignRecord_eq]
    by_cases hsame : d.committedIdHighWater = c.committedIdHighWater ∧
        d.currentCommitted = c.currentCommitted
    · rw [if_pos hsame]
      exact leads_of_same rfl hsame.1.symm hsame.2.symm rfl rfl fun _ => rfl
    · rw [if_neg hsame]
      refine ⟨rfl, hc.1, fun k hk => hk, fun hsome => ?_, fun hle => ?_, fun hlt hle => ?_⟩
      · rw [hnone] at hsome
        cases hsome
      · show d.checkpointEpoch ≤ min (d.checkpointEpoch + 1) u64Max ∧
          min (d.checkpointEpoch + 1) u64Max ≤ u64Max
        omega
      · have hlt : min (d.checkpointEpoch + 1) u64Max < u64Max := hlt
        refine iff_of_false ?_ fun heq => ?_
        · show ¬min (d.checkpointEpoch + 1) u64Max = d.checkpointEpoch
          omega
        · obtain ⟨-, hmark, hcurrent, -⟩ := controlPlaneCheckpoint_eq_iff.1 heq
          exact hsame ⟨hmark.symm, hcurrent.symm⟩
  | record reason k hk hle =>
    by_cases hsome : d.contradiction.isSome
    · rw [recordContradiction_of_isSome hsome]
      exact .refl d
    · have hnone := Option.not_isSome_iff_eq_none.1 hsome
      rw [recordContradiction_eq hk hnone]
      refine ⟨rfl, .refl _ _, fun k' hk' => ?_, fun hsome' => absurd hsome' hsome, fun hle => ?_,
        fun hlt hle => ?_⟩
      · rw [hnone] at hk'
        cases hk'
      · show d.checkpointEpoch ≤ min (d.checkpointEpoch + 1) u64Max ∧
          min (d.checkpointEpoch + 1) u64Max ≤ u64Max
        omega
      · have hlt : min (d.checkpointEpoch + 1) u64Max < u64Max := hlt
        refine iff_of_false ?_ fun heq => ?_
        · show ¬min (d.checkpointEpoch + 1) u64Max = d.checkpointEpoch
          omega
        · obtain ⟨-, -, -, hmarker⟩ := controlPlaneCheckpoint_eq_iff.1 heq
          rw [hnone] at hmarker
          cases hmarker
  | flush answer =>
    obtain ⟨made, published, heq, hmade⟩ := flushPeerPolicy_eq d answer
    rw [heq]
    refine leads_of_same rfl rfl rfl rfl rfl fun hsome => ?_
    rcases hmade with rfl | ⟨hnone, -⟩
    · exact List.append_nil _
    · rw [hnone] at hsome
      cases hsome

theorem Moves.leads (h : d.Moves d') : d.Leads d' :=
  Moves.lift Leads.refl (fun _ _ _ hab hbc => hab.trans hbc) (fun _ _ hmove => hmove.leads) h

theorem Move.valid (h : Move d d') (hd : d.Valid) : d'.Valid := by
  have hstaged := h.stagedMembership.trans hd.staged_eq
  have hepoch := (h.leads.epoch_le hd.epoch_le).2
  cases h with
  | live => exact ⟨hstaged, hd.isSome, hd.recorded, hd.marker, hepoch⟩
  | assign c hnone hc =>
    obtain ⟨cur, hcur⟩ := Option.isSome_iff_exists.1 hd.isSome
    obtain ⟨cur', hcur', -⟩ := hc.1.register_le cur hcur
    rw [assignRecord_eq] at hstaged hepoch ⊢
    refine ⟨hstaged, Option.isSome_iff_exists.2 ⟨cur', hcur'⟩, hc.2 hd.recorded, fun k hk => ?_,
      hepoch⟩
    rw [hnone] at hk
    cases hk
  | record reason k hk hle =>
    by_cases hsome : d.contradiction.isSome
    · rw [recordContradiction_of_isSome hsome]
      exact hd
    · rw [recordContradiction_eq hk (Option.not_isSome_iff_eq_none.1 hsome)] at hstaged hepoch ⊢
      refine ⟨hstaged, hd.isSome, hd.recorded, fun k' hk' => ?_, hepoch⟩
      cases hk'
      exact hle
  | flush answer =>
    obtain ⟨made, published, heq, -⟩ := flushPeerPolicy_eq d answer
    rw [heq] at hstaged hepoch ⊢
    exact ⟨hstaged, hd.isSome, hd.recorded, hd.marker, hepoch⟩

theorem Moves.valid (h : d.Moves d') (hd : d.Valid) : d'.Valid :=
  Moves.lift (R := fun a b => a.Valid → b.Valid) (fun _ h => h)
    (fun _ _ _ hab hbc ha => hbc (hab ha)) (fun _ _ hmove => hmove.valid) h hd

/-- A driver between calls reports a record that can be resumed. -/
theorem Valid.validate (hd : d.Valid) : d.controlPlaneCheckpoint.validate d.groupId = .ok () := by
  refine PeerControlPlaneCheckpoint.validate_ok_iff.2 ⟨rfl, fun at' hat => ?_, hd.recorded⟩
  obtain ⟨k, hk, rfl⟩ := Option.mem_map.1 hat
  obtain ⟨cur, hcur⟩ := Option.isSome_iff_exists.1 hd.isSome
  exact ⟨cur, hcur, hd.marker k hk cur hcur⟩

/-- A driver that a construction handed out is one between calls. -/
theorem Resumed.toValid {checkpoint : PeerControlPlaneCheckpoint G} {transport : List PeerUpdate}
    (h : d.Resumed checkpoint transport) : d.Valid where
  staged_eq := h.staged_eq
  isSome := h.isSome
  recorded := h.recorded
  marker := by
    intro k hk cur hcur
    obtain ⟨-, hmarker, -⟩ := PeerControlPlaneCheckpoint.validate_ok_iff.1 h.valid
    have hat : k.through ∈ checkpoint.contradictedAt := by
      rw [← h.marker, Option.mem_def.1 hk]
      rfl
    obtain ⟨held, hheld, hle⟩ := hmarker k.through hat
    have hcurrent := (h.frozen (Option.isSome_iff_exists.2 ⟨k, hk⟩)).2
    rw [Option.mem_def] at hheld hcur
    rw [hcurrent, hheld] at hcur
    cases hcur
    exact hle
  epoch_le := h.epoch_le

/-- A contradicted driver starts no client operation. -/
theorem rejectBeforeStart_of_contradiction (hsome : d.contradiction.isSome) (groupId : G) :
    d.rejectBeforeStart groupId ≠ .ok () := by
  obtain ⟨k, hk⟩ := Option.isSome_iff_exists.1 hsome
  unfold rejectBeforeStart
  split
  · simp
  · rename_i hup
    split
    · simp
    · have hstate : d.serviceState = k.serviceState := by
        rw [serviceState, if_neg hup, hk]
      rw [rejectIfNotServing, hstate]
      cases k <;> simp [Contradiction.serviceState, Except.mapError]

theorem absorbMembershipEvents_ok {c : MembershipCandidate}
    (h : d.foldMembershipEvents d.membershipCandidate events = .ok c) (answer : LinkAnswer) :
    d.absorbMembershipEvents events answer = d.installMembership c answer := by
  rw [absorbMembershipEvents, h]

variable {reason : ControlPlaneCheckpointError}

theorem absorbMembershipEvents_error
    (h : d.foldMembershipEvents d.membershipCandidate events = .error reason)
    (answer : LinkAnswer) :
    d.absorbMembershipEvents events answer = d.recordContradiction reason := by
  rw [absorbMembershipEvents, h]

/-- What a refused batch leaves: everything but the marker and its epoch. -/
structure Refused (d : Driver G) (reason : ControlPlaneCheckpointError) (d' : Driver G) : Prop where
  mark : d'.committedIdHighWater = d.committedIdHighWater
  register : d'.currentCommitted = d.currentCommitted
  effective : d'.effectiveMembers = d.effectiveMembers
  committed : d'.committedMembers = d.committedMembers
  published : d'.publishedPolicy = d.publishedPolicy
  transport : d'.transport = d.transport
  marker : d'.contradiction = d.contradiction.or (Contradiction.of reason)

theorem routeMembershipEvents_refused (hstaged : d.stagedMembership = none)
    (h : d.foldMembershipEvents d.membershipCandidate events = .error reason)
    (answer : LinkAnswer) :
    d.Refused reason (d.routeMembershipEvents events answer) := by
  obtain ⟨k, hk, -⟩ := foldMembershipEvents_error h
  have hroute : d.routeMembershipEvents events answer = d.recordContradiction reason := by
    cases events with
    | nil => cases h
    | cons event events =>
      rw [routeMembershipEvents, hstaged]
      exact absorbMembershipEvents_error h answer
  rw [hroute]
  by_cases hsome : d.contradiction.isSome
  · rw [recordContradiction_of_isSome hsome]
    refine ⟨rfl, rfl, rfl, rfl, rfl, rfl, ?_⟩
    obtain ⟨k', hk'⟩ := Option.isSome_iff_exists.1 hsome
    rw [hk']
    rfl
  · have hnone := Option.not_isSome_iff_eq_none.1 hsome
    rw [recordContradiction_eq hk hnone]
    refine ⟨rfl, rfl, rfl, rfl, rfl, rfl, ?_⟩
    rw [hnone, hk]
    rfl

end Driver

/-! ## Every process -/

namespace World

variable {G : Type} [DecidableEq G] {w : World G}

/-- Every running driver is one between calls. -/
def Valid : World G → Prop
  | down _ _ => True
  | running d => d.Valid

theorem step_valid (hw : w.Valid) (event : Event G) : (w.step event).Valid := by
  rcases step_cases w event with heq | ⟨d, call, rfl, heq⟩ | ⟨d, rfl, heq⟩ |
    ⟨saved, transport, d, rfl, heq, hd⟩ <;> rw [heq]
  · exact hw
  · have hd : d.Valid := hw
    exact (Driver.call_moves hd.staged_eq call).valid hd
  · trivial
  · exact hd.toValid

theorem run_valid (hw : w.Valid) (events : List (Event G)) : (w.run events).Valid := by
  induction events generalizing w with
  | nil => exact hw
  | cons event events ih => exact ih (step_valid hw event)

/-- One event of a deployment whose record is marked changes neither the record nor what the link
layer was told. -/
theorem step_marked (hw : w.Valid) (hmarked : w.checkpoint.contradictedAt.isSome)
    (event : Event G) :
    (w.step event).checkpoint = w.checkpoint ∧ (w.step event).transport = w.transport := by
  rcases step_cases w event with heq | ⟨d, call, rfl, heq⟩ | ⟨d, rfl, heq⟩ |
    ⟨saved, transport, d, rfl, heq, hd⟩ <;> rw [heq]
  · exact ⟨rfl, rfl⟩
  · have hd : d.Valid := hw
    have hsome : d.contradiction.isSome := by
      rw [← Option.isSome_map (f := Contradiction.through)]
      exact hmarked
    have hleads := (Driver.call_moves hd.staged_eq call).leads
    obtain ⟨hmark, hcurrent, htransport⟩ := hleads.frozen hsome
    obtain ⟨k, hk⟩ := Option.isSome_iff_exists.1 hsome
    refine ⟨Driver.controlPlaneCheckpoint_eq_iff.2 ⟨hleads.groupId, hmark, hcurrent, ?_⟩,
      htransport⟩
    rw [hleads.kept k hk, hk]
  · exact ⟨rfl, rfl⟩
  · have hsome : d.contradiction.isSome := by
      rw [← Option.isSome_map (f := Contradiction.through), hd.marker]
      exact hmarked
    obtain ⟨hmark, hcurrent⟩ := hd.frozen hsome
    obtain ⟨hgroup, -⟩ := PeerControlPlaneCheckpoint.validate_ok_iff.1 hd.valid
    refine ⟨?_, ?_⟩
    · show d.controlPlaneCheckpoint = saved
      rw [Driver.controlPlaneCheckpoint, hmark, hcurrent, hd.marker, ← hgroup]
    · obtain ⟨made, hmade, rfl | ⟨hnone, -⟩⟩ := hd.made
      · exact hmade.trans (List.append_nil _)
      · rw [hnone] at hsome
        cases hsome

theorem run_marked (hw : w.Valid) (hmarked : w.checkpoint.contradictedAt.isSome)
    (events : List (Event G)) :
    (w.run events).checkpoint = w.checkpoint ∧ (w.run events).transport = w.transport := by
  induction events generalizing w with
  | nil => exact ⟨rfl, rfl⟩
  | cons event events ih =>
    obtain ⟨hcheckpoint, htransport⟩ := step_marked hw hmarked event
    obtain ⟨hcheckpoint', htransport'⟩ := ih (step_valid hw event) (hcheckpoint ▸ hmarked)
    exact ⟨hcheckpoint'.trans hcheckpoint, htransport'.trans htransport⟩

end World

/-- Over every run: reported records can be resumed; between any two moments of one process the
epoch never falls and, below its bound, differs exactly if the record does; a refused batch leaves
all but the marker; and once a contradiction is recorded the record and the link layer never change
again, across restarts, and no client operation starts. -/
theorem control_plane_resumable {G : Type} [DecidableEq G]
    (saved : PeerControlPlaneCheckpoint G) (events : List (Event G)) :
    ∀ d, (World.down saved []).run events = .running d →
      d.controlPlaneCheckpoint.validate d.groupId = .ok () ∧
      (∀ calls, d.checkpointEpoch ≤ (d.calls calls).checkpointEpoch ∧
        ((d.calls calls).checkpointEpoch < u64Max →
          ((d.calls calls).checkpointEpoch = d.checkpointEpoch ↔
            (d.calls calls).controlPlaneCheckpoint = d.controlPlaneCheckpoint))) ∧
      (∀ batch answer reason,
        d.foldMembershipEvents d.membershipCandidate batch = .error reason →
        d.Refused reason (d.routeMembershipEvents batch answer)) ∧
      (d.contradiction.isSome → ∀ later,
        ((World.running d).run later).checkpoint = d.controlPlaneCheckpoint ∧
        ((World.running d).run later).transport = d.transport ∧
        ∀ d', (World.running d).run later = .running d' →
          ∀ groupId, d'.rejectBeforeStart groupId ≠ .ok ()) := by
  intro d hrun
  have hvalid : d.Valid := by
    have hw := World.run_valid (show (World.down saved [] : World G).Valid from trivial) events
    rw [hrun] at hw
    exact hw
  refine ⟨hvalid.validate, fun calls => ?_, fun batch answer reason hrefused => ?_,
    fun hsome later => ?_⟩
  · have hleads := (Driver.calls_moves hvalid.staged_eq calls).leads
    have hle := (hleads.epoch_le hvalid.epoch_le).1
    exact ⟨hle, fun hlt => hleads.paced hlt hle⟩
  · exact Driver.routeMembershipEvents_refused hvalid.staged_eq hrefused answer
  · have hmarked : (World.running d).checkpoint.contradictedAt.isSome := by
      show (d.contradiction.map Contradiction.through).isSome
      rw [Option.isSome_map]
      exact hsome
    have hw : (World.running d).Valid := hvalid
    obtain ⟨hcheckpoint, htransport⟩ := World.run_marked hw hmarked later
    refine ⟨hcheckpoint, htransport, fun d' hd' groupId => ?_⟩
    refine Driver.rejectBeforeStart_of_contradiction ?_ groupId
    rw [hd'] at hcheckpoint
    rw [← Option.isSome_map (f := Contradiction.through)]
    have hfield := congrArg PeerControlPlaneCheckpoint.contradictedAt hcheckpoint
    show (World.running d').checkpoint.contradictedAt.isSome
    rw [hfield]
    exact hmarked

/-! ## The epoch at its bound -/

/-- The runtime of a group of one voter, committed through a position. -/
def soleRuntime (position : ℕ) : RuntimeView := ⟨position, .stable oneVoter, .stable oneVoter⟩

/-- The driver of that group once it has observed every position up to one. -/
def soleDriver (position : ℕ) : Driver ℕ where
  groupId := 0
  nodeId := 1
  group := some (soleRuntime position)
  transport := [⟨1, ⟨∅, some 1⟩, true⟩]
  effectiveMembers := members (.stable oneVoter)
  committedMembers := members (.stable oneVoter)
  currentCommitted := some ⟨position, members (.stable oneVoter)⟩
  committedIdHighWater := some 1
  publishedPolicy := some ⟨∅, some 1⟩
  contradiction := none
  stagedMembership := none
  checkpointEpoch := min (position + 1) u64Max
  shuttingDown := false

/-- Its start over an empty record. -/
def soleStart : Event ℕ := .start ⟨0, 1, soleRuntime 0, none⟩ ⟨[], false⟩ .accepted

/-- A step that hands back the endpoint of a position. -/
def endpointStep (position : ℕ) (membership : MembershipSet) : Call ℕ :=
  .step (soleRuntime position) [⟨[.committedEndpoint 0 position 1 (.stable membership)], .unnamed⟩]

/-- The endpoint of the next position moves the register there and names nothing new. -/
theorem soleDriver_observes (position : ℕ) :
    (soleDriver position).membershipCandidate.apply
      (.committed (.endpoint (position + 1) (.stable oneVoter)) (members (.stable oneVoter))) =
      .ok (soleDriver (position + 1)).membershipCandidate := by
  have hlater : laterState (position + 1) (members (.stable oneVoter)) (members (.stable oneVoter))
      ∅ (soleDriver position).membershipCandidate.isSpent =
      ⟨position + 1, members (.stable oneVoter)⟩ := by
    rw [laterState, live_eq_self]
    intro n hn
    refine ⟨by simp, ?_⟩
    rw [Bool.eq_false_iff]
    intro hspent
    exact (spendsUnder_iff.1 hspent).2 _ rfl hn
  have hmerge : (soleDriver position).membershipCandidate.mergeFact
      (.endpoint (position + 1) (.stable oneVoter)) =
      .ok ⟨position + 1, members (.stable oneVoter)⟩ := by
    rw [MembershipCandidate.mergeFact, MembershipCandidate.checkAncestry_endpoint]
    show mergeCurrentState (some ⟨position, members (.stable oneVoter)⟩)
      ⟨position + 1, members (.stable oneVoter), ∅⟩ _ = _
    rw [mergeCurrentState, if_pos (Nat.lt_succ_self position), hlater]
  rw [MembershipCandidate.apply, MembershipCandidate.observeCommitted, hmerge]
  rfl

/-- One step moves the register, and the epoch with it. -/
theorem soleDriver_step (position : ℕ) :
    (soleDriver position).call (endpointStep (position + 1) oneVoter) =
      soleDriver (position + 1) := by
  have hfold : ({ soleDriver position with group := some (soleRuntime (position + 1)) } :
      Driver ℕ).foldMembershipEvents (soleDriver position).membershipCandidate
        [.committedEndpoint 0 (position + 1) 1 (.stable oneVoter)] =
      .ok (soleDriver (position + 1)).membershipCandidate := by
    have hevent : ({ soleDriver position with group := some (soleRuntime (position + 1)) } :
        Driver ℕ).foldMembershipEvent (soleDriver position).membershipCandidate
          (.committedEndpoint 0 (position + 1) 1 (.stable oneVoter)) =
        .ok (soleDriver (position + 1)).membershipCandidate := soleDriver_observes position
    rw [Driver.foldMembershipEvents, List.foldlM_cons, hevent]
    rfl
  have habsorb : (soleDriver position).call (endpointStep (position + 1) oneVoter) =
      ({ soleDriver position with group := some (soleRuntime (position + 1)) } :
        Driver ℕ).installMembership (soleDriver (position + 1)).membershipCandidate .unnamed := by
    exact Driver.absorbMembershipEvents_ok hfold .unnamed
  have hepoch : min (min (position + 1) u64Max + 1) u64Max = min (position + 1 + 1) u64Max := by
    omega
  rw [habsorb, Driver.installMembership_eq rfl, Driver.assignRecord_eq]
  simp only [Driver.membershipCandidate, soleDriver]
  rw [if_neg (by simp), hepoch]
  rfl

/-- Every position in turn. -/
theorem soleDriver_reached (position : ℕ) :
    (World.running (soleDriver 0)).run
      ((List.range position).map fun i => .call (endpointStep (i + 1) oneVoter)) =
      .running (soleDriver position) := by
  induction position with
  | zero => rfl
  | succ position ih =>
    rw [List.range_succ, List.map_append, World.run, List.foldl_append]
    rw [World.run] at ih
    rw [ih]
    show World.running ((soleDriver position).call _) = _
    rw [soleDriver_step]

/-- The endpoint of the position the register stands at, with other members, is refused. -/
theorem soleDriver_refuses (position : ℕ) :
    (soleDriver position).foldMembershipEvents (soleDriver position).membershipCandidate
      [.committedEndpoint 0 position 1 (.stable threeVoters)] =
      .error (.contradictoryCurrentState position) := by
  have hmerge : mergeCurrentState (some ⟨position, members (.stable oneVoter)⟩)
      ⟨position, members (.stable threeVoters), ∅⟩
      (soleDriver position).membershipCandidate.isSpent =
      .error (.contradictoryCurrentState position) := by
    rw [mergeCurrentState, if_neg (lt_irrefl _), if_neg (lt_irrefl _)]
    refine if_neg fun hlive => ?_
    -- The second voter is above the mark, so nothing takes it out.
    have hsecond : 2 ∈ live (members (.stable threeVoters)) ∅
        (soleDriver position).membershipCandidate.isSpent :=
      mem_live.2 ⟨by decide, by decide, rfl⟩
    rw [← hlive] at hsecond
    have hsole : 2 ∈ members (.stable oneVoter) := live_subset _ _ _ hsecond
    exact absurd hsole (by decide)
  have hfact : (soleDriver position).membershipCandidate.mergeFact
      (.endpoint position (.stable threeVoters)) =
      .error (.contradictoryCurrentState position) := by
    rw [MembershipCandidate.mergeFact, MembershipCandidate.checkAncestry_endpoint]
    exact hmerge
  have hevent : (soleDriver position).foldMembershipEvent
      (soleDriver position).membershipCandidate
      (.committedEndpoint 0 position 1 (.stable threeVoters)) =
      .error (.contradictoryCurrentState position) := by
    show (soleDriver position).membershipCandidate.apply
      (.committed (.endpoint position (.stable threeVoters)) _) = _
    rw [MembershipCandidate.apply, MembershipCandidate.observeCommitted, hfact]
    rfl
  rw [Driver.foldMembershipEvents, List.foldlM_cons, hevent]
  rfl

theorem soleDriver_contradicted (position : ℕ) :
    (soleDriver position).call (endpointStep position threeVoters) =
      (soleDriver position).recordContradiction (.contradictoryCurrentState position) :=
  Driver.absorbMembershipEvents_error (soleDriver_refuses position) .unnamed

/-- A batch is refused, and the contradiction that a step records outlasts whatever follows. -/
theorem control_plane_resumable_contradicted :
    (soleDriver 0).controlPlaneCheckpoint.validate 0 = .ok () ∧
      (soleDriver 0).Refused (.contradictoryCurrentState 0) ((soleDriver 0).routeMembershipEvents
        [.committedEndpoint 0 0 1 (.stable threeVoters)] .unnamed) ∧
      ∃ d, (World.down (.empty 0) []).run [soleStart, .call (endpointStep 0 threeVoters)] =
          .running d ∧ d.contradiction.isSome ∧
        ∀ later, ((World.running d).run later).checkpoint = d.controlPlaneCheckpoint ∧
          ((World.running d).run later).transport = d.transport := by
  obtain ⟨hvalid, -, hrefused, -⟩ :=
    control_plane_resumable (.empty 0) [soleStart] (soleDriver 0) rfl
  have hrun : (World.down (.empty 0) []).run [soleStart, .call (endpointStep 0 threeVoters)] =
      .running ((soleDriver 0).call (endpointStep 0 threeVoters)) := rfl
  have hsome : ((soleDriver 0).call (endpointStep 0 threeVoters)).contradiction.isSome := by
    rw [soleDriver_contradicted, Driver.recordContradiction_eq rfl rfl]
    rfl
  obtain ⟨-, -, -, hfrozen⟩ := control_plane_resumable (.empty 0) _ _ hrun
  refine ⟨hvalid, hrefused _ _ _ (soleDriver_refuses 0), _, hrun, hsome, fun later => ?_⟩
  exact ⟨(hfrozen hsome later).1, (hfrozen hsome later).2.1⟩

/-- At the bound a changed record leaves the epoch where it is: here the change is the marker that
freezes the replica out. -/
theorem saturated_epoch_stands :
    ∃ (events : List (Event ℕ)) (d : Driver ℕ) (call : Call ℕ),
      (World.down (.empty 0) []).run events = .running d ∧
      (d.call call).controlPlaneCheckpoint ≠ d.controlPlaneCheckpoint ∧
      (d.call call).checkpointEpoch = d.checkpointEpoch := by
  obtain ⟨last, hlast⟩ : ∃ last, last + 1 = u64Max := ⟨u64Max - 1, rfl⟩
  refine ⟨soleStart :: (List.range last).map fun i => .call (endpointStep (i + 1) oneVoter),
    soleDriver last, endpointStep last threeVoters, ?_, ?_, ?_⟩
  · exact soleDriver_reached last
  · rw [soleDriver_contradicted, Driver.recordContradiction_eq rfl rfl]
    intro heq
    obtain ⟨-, -, -, hmarker⟩ := Driver.controlPlaneCheckpoint_eq_iff.1 heq
    cases hmarker
  · rw [soleDriver_contradicted, Driver.recordContradiction_eq rfl rfl]
    show min (min (last + 1) u64Max + 1) u64Max = min (last + 1) u64Max
    omega

end Rafter.Service
