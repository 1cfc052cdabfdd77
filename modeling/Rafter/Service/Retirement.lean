import Rafter.Service.ControlPlane
import Rafter.Transport.Directory

/-!
# Retirement is permanent

The identities a committed removal consumed, and what a driver tells its link layer about them,
over every run of calls, crashes and restarts from the record of the latest epoch.

The argument: a policy states the mark as its floor, so an identity at or below the floor that the
policy leaves out, and that is not the local replica, was spent when the policy was stated. Spent
identities stay spent, and no policy names one.

Results:

* `retirement_permanent`: spent identities stay spent and are never again stated or admitted.
-/

namespace Rafter.Service

open Rafter.Transport (Bindings GroupPolicy DirectoryError replacePolicy principals
  resolvePolicy_eq_ok resolvePolicy_error_ne refuseRetiredReauthorization_ok)
open Bytes (bind_eq_ok_iff pure_eq_ok_iff)

/-! ## What the stated policies fix -/

/-- What a later mark, register and policy may not undo. -/
structure Ledger (mark : Option NodeId) (current : Option CurrentCommittedState)
    (transport : List PeerUpdate) : Prop where
  covered : ∀ u ∈ transport, ∀ f ∈ u.policy.retirementFloor, ∃ m ∈ mark, f ≤ m
  retired : ∀ u ∈ transport, ∀ n, (∃ f ∈ u.policy.retirementFloor, n ≤ f) →
    n ∉ u.policy.peers → n ≠ u.nodeId → spendsUnder mark current n = true
  floors : transport.Pairwise fun u v =>
    ∀ f ∈ u.policy.retirementFloor, ∃ g ∈ v.policy.retirementFloor, f ≤ g
  authorized : transport.Pairwise fun u v => u.nodeId = v.nodeId →
    ∀ n ∈ v.policy.peers, (∃ f ∈ u.policy.retirementFloor, n ≤ f) → n ∈ u.policy.peers

theorem ledger_nil (mark : Option NodeId) (current : Option CurrentCommittedState) :
    Ledger mark current [] :=
  ⟨by simp, by simp, .nil, .nil⟩

theorem Ledger.grows {mark mark' : Option NodeId} {current current' : Option CurrentCommittedState}
    {transport : List PeerUpdate} (h : Ledger mark current transport)
    (hgrows : Grows mark current mark' current') : Ledger mark' current' transport where
  covered := fun u hu f hf => hgrows.mark_le f (h.covered u hu f hf)
  retired := fun u hu n hle hnot hne => hgrows.spent n (h.retired u hu n hle hnot hne)
  floors := h.floors
  authorized := h.authorized

namespace Driver

variable {G : Type} {d d' : Driver G} {n : NodeId} {made : List PeerUpdate}

theorem isSpent_eq (d : Driver G) (n : NodeId) :
    d.isSpent n = spendsUnder d.committedIdHighWater d.currentCommitted n := by
  unfold isSpent spendsUnder liveCommittedMembers
  cases d.currentCommitted <;> simp

theorem mem_desiredPeers : n ∈ d.desiredPeers ↔
    (n ∈ d.effectiveMembers ∨ n ∈ d.committedMembers ∨ n ∈ d.liveCommittedMembers) ∧
      n ≠ d.nodeId ∧ d.isSpent n = false := by
  simp [desiredPeers, authorizedMembers]

/-- An identity at or below the mark that a policy leaves out was spent, or is the driver's own. -/
theorem isSpent_of_notMem_desiredPeers (hle : ∃ m ∈ d.committedIdHighWater, n ≤ m)
    (hnot : n ∉ d.desiredPeers) (hne : n ≠ d.nodeId) : d.isSpent n = true := by
  by_contra hspent
  have hspent : d.isSpent n = false := Bool.not_eq_true _ ▸ hspent
  -- At or below the mark, what is not spent is in the register, which every policy names.
  have hlive : n ∈ d.liveCommittedMembers := by
    by_contra hgone
    have : d.isSpent n = true := by
      obtain ⟨m, hm, hnm⟩ := hle
      rw [Option.mem_def] at hm
      simp [isSpent, hm, hnm, hgone]
    rw [this] at hspent
    cases hspent
  exact hnot (mem_desiredPeers.2 ⟨.inr (.inr hlive), hne, hspent⟩)

/-- Stating the desired policy keeps the ledger. -/
theorem Flushed.ledger (h : d.Flushed made) {transport : List PeerUpdate}
    (hledger : Ledger d.committedIdHighWater d.currentCommitted transport) :
    Ledger d.committedIdHighWater d.currentCommitted (transport ++ made) := by
  rcases h with rfl | ⟨-, accepted, rfl⟩
  · rw [List.append_nil]
    exact hledger
  · refine ⟨fun u hu f hf => ?_, fun u hu n hle hnot hne => ?_, ?_, ?_⟩
    · rcases List.mem_append.1 hu with hu | hu
      · exact hledger.covered u hu f hf
      · obtain rfl := List.mem_singleton.1 hu
        exact ⟨f, hf, le_rfl⟩
    · rcases List.mem_append.1 hu with hu | hu
      · exact hledger.retired u hu n hle hnot hne
      · obtain rfl := List.mem_singleton.1 hu
        rw [← isSpent_eq]
        exact isSpent_of_notMem_desiredPeers hle hnot hne
    · refine List.pairwise_append.2 ⟨hledger.floors, List.pairwise_singleton _ _, ?_⟩
      intro u hu v hv f hf
      obtain rfl := List.mem_singleton.1 hv
      exact hledger.covered u hu f hf
    · refine List.pairwise_append.2 ⟨hledger.authorized, List.pairwise_singleton _ _, ?_⟩
      intro u hu v hv hsame n hn hle
      obtain rfl := List.mem_singleton.1 hv
      obtain ⟨-, hne, hspent⟩ := mem_desiredPeers.1 hn
      by_contra hnot
      have hretired := hledger.retired u hu n hle hnot (fun heq => hne (heq.trans hsame))
      rw [← isSpent_eq, hspent] at hretired
      cases hretired

theorem Flushed.not_spent (h : d.Flushed made) {u : PeerUpdate} (hu : u ∈ made)
    (hn : n ∈ u.policy.peers) : d.isSpent n = false := by
  rcases h with rfl | ⟨-, accepted, rfl⟩
  · cases hu
  · obtain rfl := List.mem_singleton.1 hu
    exact (mem_desiredPeers.1 hn).2.2

end Driver

/-! ## Later states -/

/-- What a run keeps: the record grew, the policies stated meanwhile name nothing spent before
them, and the ledger stands. -/
structure Later (mark : Option NodeId) (current : Option CurrentCommittedState)
    (transport : List PeerUpdate) (mark' : Option NodeId)
    (current' : Option CurrentCommittedState) (transport' : List PeerUpdate) : Prop where
  grows : Grows mark current mark' current'
  made : ∃ made, transport' = transport ++ made ∧
    ∀ u ∈ made, ∀ n ∈ u.policy.peers, spendsUnder mark current n = false
  ledger : Ledger mark current transport → Ledger mark' current' transport'

section Later

variable {mark mark' mark'' : Option NodeId}
  {current current' current'' : Option CurrentCommittedState}
  {transport transport' transport'' : List PeerUpdate}

theorem Later.refl (mark : Option NodeId) (current : Option CurrentCommittedState)
    (transport : List PeerUpdate) : Later mark current transport mark current transport :=
  ⟨.refl mark current, ⟨[], (List.append_nil _).symm, by simp⟩, fun h => h⟩

theorem Later.of_grows (hgrows : Grows mark current mark' current') :
    Later mark current transport mark' current' transport :=
  ⟨hgrows, ⟨[], (List.append_nil _).symm, by simp⟩, fun h => h.grows hgrows⟩

theorem Later.trans (h : Later mark current transport mark' current' transport')
    (h' : Later mark' current' transport' mark'' current'' transport'') :
    Later mark current transport mark'' current'' transport'' := by
  obtain ⟨made, hmade, hclear⟩ := h.made
  obtain ⟨made', hmade', hclear'⟩ := h'.made
  refine ⟨h.grows.trans h'.grows, ⟨made ++ made', ?_, fun u hu n hn => ?_⟩,
    fun hledger => h'.ledger (h.ledger hledger)⟩
  · rw [hmade', hmade, List.append_assoc]
  · rcases List.mem_append.1 hu with hu | hu
    · exact hclear u hu n hn
    · -- Not spent later means not spent before.
      rw [Bool.eq_false_iff]
      intro hspent
      have hlater := h.grows.spent n hspent
      rw [hclear' u hu n hn] at hlater
      cases hlater

end Later

namespace Driver

variable {G : Type} {d d' : Driver G}

/-- The second is a later state of the first. -/
def Precedes (d d' : Driver G) : Prop :=
  Later d.committedIdHighWater d.currentCommitted d.transport
    d'.committedIdHighWater d'.currentCommitted d'.transport

theorem flush_precedes {made : List PeerUpdate} (hmade : d.Flushed made)
    (hmark : d'.committedIdHighWater = d.committedIdHighWater)
    (hcurrent : d'.currentCommitted = d.currentCommitted)
    (htransport : d'.transport = d.transport ++ made) : d.Precedes d' := by
  unfold Precedes
  rw [hmark, hcurrent, htransport]
  refine ⟨.refl _ _, ⟨made, rfl, fun u hu n hn => ?_⟩, fun h => hmade.ledger h⟩
  rw [← isSpent_eq]
  exact hmade.not_spent hu hn

variable [DecidableEq G]

theorem Move.precedes (h : Move d d') : d.Precedes d' := by
  cases h with
  | live => exact .refl _ _ _
  | assign c hnone hc =>
    rw [assignRecord_eq]
    exact .of_grows hc.1
  | record reason k hk hle =>
    by_cases hsome : d.contradiction.isSome
    · rw [recordContradiction_of_isSome hsome]
      exact .refl _ _ _
    · rw [recordContradiction_eq hk (Option.not_isSome_iff_eq_none.1 hsome)]
      exact .refl _ _ _
  | flush answer =>
    obtain ⟨made, published, heq, hmade⟩ := flushPeerPolicy_eq d answer
    rw [heq]
    exact flush_precedes hmade rfl rfl rfl

theorem Moves.precedes (h : d.Moves d') : d.Precedes d' :=
  Moves.lift (fun _ => .refl _ _ _) (fun _ _ _ hab hbc => hab.trans hbc)
    (fun _ _ hmove => hmove.precedes) h

/-- A resumed driver is later than the record it resumed. -/
theorem Resumed.later {checkpoint : PeerControlPlaneCheckpoint G} {transport : List PeerUpdate}
    (h : d.Resumed checkpoint transport) :
    Later checkpoint.committedIdHighWater checkpoint.currentCommitted transport
      d.committedIdHighWater d.currentCommitted d.transport := by
  obtain ⟨made, hmade, hflushed⟩ := h.made
  refine (Later.of_grows h.grows).trans ⟨.refl _ _, ⟨made, hmade, fun u hu n hn => ?_⟩, ?_⟩
  · rw [← isSpent_eq]
    exact hflushed.not_spent hu hn
  · intro hledger
    rw [hmade]
    exact hflushed.ledger hledger

end Driver

/-! ## Runs -/

namespace World

variable {G : Type} [DecidableEq G] {w w' : World G}

/-- The second is a later state of the first. -/
def Precedes (w w' : World G) : Prop :=
  Later w.checkpoint.committedIdHighWater w.checkpoint.currentCommitted w.transport
    w'.checkpoint.committedIdHighWater w'.checkpoint.currentCommitted w'.transport

/-- No construction is open between calls. -/
def Settled : World G → Prop
  | down _ _ => True
  | running d => d.stagedMembership = none

theorem step_settled (hw : w.Settled) (event : Event G) : (w.step event).Settled := by
  rcases step_cases w event with heq | ⟨d, call, rfl, heq⟩ | ⟨d, rfl, heq⟩ |
    ⟨saved, transport, d, rfl, heq, hd⟩ <;> rw [heq]
  · exact hw
  · exact (Driver.call_moves hw call).stagedMembership.trans hw
  · trivial
  · exact hd.staged_eq

theorem step_precedes (hw : w.Settled) (event : Event G) : w.Precedes (w.step event) := by
  rcases step_cases w event with heq | ⟨d, call, rfl, heq⟩ | ⟨d, rfl, heq⟩ |
    ⟨saved, transport, d, rfl, heq, hd⟩ <;> rw [heq]
  · exact .refl _ _ _
  · exact (Driver.call_moves hw call).precedes
  · exact .refl _ _ _
  · exact hd.later

theorem run_settled (hw : w.Settled) (events : List (Event G)) : (w.run events).Settled := by
  induction events generalizing w with
  | nil => exact hw
  | cons event events ih => exact ih (step_settled hw event)

/-- Along a run the record grows, policies name nothing spent, and the ledger stands. -/
theorem run_later (hw : w.Settled) (events : List (Event G)) : w.Precedes (w.run events) := by
  induction events generalizing w with
  | nil => exact .refl _ _ _
  | cons event events ih => exact (step_precedes hw event).trans (ih (step_settled hw event))

omit [DecidableEq G] in
theorem not_admitted_of_spent {n : NodeId} (h : w.isSpent n = true) : w.isAdmitted n = false := by
  cases w with
  | down saved transport => rfl
  | running d =>
    have hspent : d.isSpent n = true := (Driver.isSpent_eq d n).trans h
    simp [isAdmitted, Driver.isAdmitted, hspent]

end World

/-! ## A TLS directory behind the driver -/

section Directory

variable {P : Type} [DecidableEq P] {current : Option GroupPolicy}

/-- One policy offered to a directory. A peer without a principal stops the flush before the
transport is reached; a refused policy leaves the one installed. -/
def offerPolicy (current : Option GroupPolicy) (bindings : Bindings P) (update : PeerUpdate) :
    Option GroupPolicy × Except (DirectoryError P) Unit :=
  match principals bindings update.policy.peers with
  | none => (current, .ok ())
  | some named =>
    match replacePolicy bindings current named update.policy.retirementFloor with
    | .ok policy => (some policy, .ok ())
    | .error e => (current, .error e)

/-- The answers of a directory to a sequence of policies, under the bindings of each moment. -/
def offerPolicies (current : Option GroupPolicy) :
    List (Bindings P × PeerUpdate) → List (Except (DirectoryError P) Unit)
  | [] => []
  | (bindings, update) :: rest =>
    (offerPolicy current bindings update).2 ::
      offerPolicies (offerPolicy current bindings update).1 rest

/-- A later floor replaces an earlier one. -/
theorem higherMark_eq_right {a b : Option NodeId} (h : ∀ f ∈ a, ∃ g ∈ b, f ≤ g) :
    higherMark a b = b := by
  cases a with
  | none => cases b <;> rfl
  | some f =>
    obtain ⟨g, hg, hle⟩ := h f rfl
    rw [Option.mem_def] at hg
    rw [hg, higherMark, max_eq_right hle]

/-- What an update leaves installed. -/
def PeerUpdate.installed (u : PeerUpdate) : GroupPolicy :=
  ⟨u.policy.peers, u.policy.retirementFloor⟩

/-- A policy that neither retires nor lowers what is installed is installed as it is, unless it
cannot be named. -/
theorem offerPolicy_cases {update : PeerUpdate} (bindings : Bindings P)
    (hauthorized : ∀ policy ∈ current, ∀ floor ∈ policy.retirementFloor,
      ∀ n ∈ update.policy.peers, n ≤ floor → n ∈ policy.authorizedNodes)
    (hfloor : ∀ policy ∈ current, ∀ f ∈ policy.retirementFloor,
      ∃ g ∈ update.policy.retirementFloor, f ≤ g) :
    ((offerPolicy current bindings update).1 = current ∨
      (offerPolicy current bindings update).1 = some update.installed) ∧
    ∀ n floor, (offerPolicy current bindings update).2 ≠
      .error (.retiredNodeReauthorization n floor) := by
  unfold offerPolicy
  split
  · exact ⟨.inl rfl, by simp⟩
  · rename_i named hnamed
    split
    · rename_i policy hreplaced
      obtain ⟨nodes, hresolved, hreplaced⟩ := bind_eq_ok_iff.1 hreplaced
      obtain ⟨-, -, hreplaced⟩ := bind_eq_ok_iff.1 hreplaced
      obtain rfl := pure_eq_ok_iff.1 hreplaced
      obtain rfl := resolvePolicy_eq_ok hnamed hresolved
      have hfloors : higherMark (current.bind GroupPolicy.retirementFloor)
          update.policy.retirementFloor = update.policy.retirementFloor := by
        refine higherMark_eq_right fun f hf => ?_
        obtain ⟨policy, hpolicy, hf⟩ := Option.bind_eq_some_iff.1 hf
        exact hfloor policy hpolicy f hf
      refine ⟨.inr ?_, by simp⟩
      rw [hfloors]
      rfl
    · rename_i e hrefused
      refine ⟨.inl rfl, fun n floor heq => ?_⟩
      have he : e = .retiredNodeReauthorization n floor := Except.error.inj heq
      subst he
      -- Resolution does not raise this error, and the retirement check passes.
      rw [replacePolicy] at hrefused
      cases hresolved : Rafter.Transport.resolvePolicy bindings named with
      | error e =>
        rw [hresolved] at hrefused
        cases hrefused
        exact resolvePolicy_error_ne hresolved
      | ok nodes =>
        obtain rfl := resolvePolicy_eq_ok hnamed hresolved
        rw [hresolved] at hrefused
        have hpass := refuseRetiredReauthorization_ok (P := P) hauthorized
        simp only [bind, Except.bind, hpass, pure, Except.pure] at hrefused
        cases hrefused

/-- A policy an update may follow: it lowers no floor and takes nothing retired back. -/
def Follows (policy : GroupPolicy) (update : PeerUpdate) : Prop :=
  (∀ f ∈ policy.retirementFloor, ∃ g ∈ update.policy.retirementFloor, f ≤ g) ∧
    ∀ floor ∈ policy.retirementFloor, ∀ n ∈ update.policy.peers, n ≤ floor →
      n ∈ policy.authorizedNodes

variable {offered : List (Bindings P × PeerUpdate)}

/-- Updates that may follow each other are never refused as retired reauthorizations. -/
theorem offerPolicies_not_retired (hcurrent : ∀ policy ∈ current, ∀ o ∈ offered, Follows policy o.2)
    (hoffered : offered.Pairwise fun a b => Follows a.2.installed b.2) :
    ∀ answer ∈ offerPolicies current offered,
      ∀ n floor, answer ≠ .error (.retiredNodeReauthorization n floor) := by
  induction offered generalizing current with
  | nil => simp [offerPolicies]
  | cons o offered ih =>
    obtain ⟨bindings, update⟩ := o
    obtain ⟨hhead, htail⟩ := List.pairwise_cons.1 hoffered
    have hfollows : ∀ policy ∈ current, Follows policy update :=
      fun policy hpolicy => hcurrent policy hpolicy _ (List.mem_cons_self ..)
    obtain ⟨hnext, hanswer⟩ := offerPolicy_cases bindings
      (fun policy hpolicy => (hfollows policy hpolicy).2)
      (fun policy hpolicy => (hfollows policy hpolicy).1)
    intro answer hmem
    rw [offerPolicies, List.mem_cons] at hmem
    rcases hmem with rfl | hmem
    · exact hanswer
    · refine ih (fun policy hpolicy o ho => ?_) htail answer hmem
      rcases hnext with hnext | hnext
      · rw [hnext] at hpolicy
        exact hcurrent policy hpolicy o (List.mem_cons_of_mem _ ho)
      · rw [hnext] at hpolicy
        cases hpolicy
        exact hhead o ho

omit [DecidableEq P] in
/-- The ledger lets the updates of one local identity follow each other. -/
theorem Ledger.follows {mark : Option NodeId} {current : Option CurrentCommittedState}
    {transport : List PeerUpdate} (h : Ledger mark current transport) {nodeId : NodeId}
    (hsub : (offered.map Prod.snd).Sublist transport) (hid : ∀ o ∈ offered, o.2.nodeId = nodeId) :
    offered.Pairwise fun a b => Follows a.2.installed b.2 := by
  have hfloors := List.pairwise_map.1 (h.floors.sublist hsub)
  have hauthorized := List.pairwise_map.1 (h.authorized.sublist hsub)
  refine (hfloors.and hauthorized).imp_of_mem ?_
  intro a b ha hb hab
  refine ⟨hab.1, fun floor hfloor n hn hle => ?_⟩
  exact hab.2 ((hid a ha).trans (hid b hb).symm) n hn ⟨floor, hfloor, hle⟩

end Directory

/-! ## The result -/

/-- From the record of any deployment, over any run and any continuation of it: what was spent
stays spent, is not admitted and not stated again; floors never fall; and while the local identity
is the same no policy authorizes below an earlier floor what the earlier policy did not, so a TLS
directory refuses none as a retired reauthorization. -/
theorem retirement_permanent {G P : Type} [DecidableEq G] [DecidableEq P]
    (saved : PeerControlPlaneCheckpoint G) (before after : List (Event G)) :
    let w := (World.down saved []).run before
    let w' := w.run after
    (∀ n, w.isSpent n = true → w'.isSpent n = true ∧ w'.isAdmitted n = false) ∧
    (∃ made, w'.transport = w.transport ++ made ∧
      ∀ n, w.isSpent n = true → ∀ u ∈ made, n ∉ u.policy.peers) ∧
    (w'.transport.Pairwise fun u v =>
      ∀ f ∈ u.policy.retirementFloor, ∃ g ∈ v.policy.retirementFloor, f ≤ g) ∧
    (w'.transport.Pairwise fun u v => u.nodeId = v.nodeId →
      ∀ n ∈ v.policy.peers, (∃ f ∈ u.policy.retirementFloor, n ≤ f) → n ∈ u.policy.peers) ∧
    ∀ (nodeId : NodeId) (offered : List (Bindings P × PeerUpdate)),
      (offered.map Prod.snd).Sublist w'.transport → (∀ o ∈ offered, o.2.nodeId = nodeId) →
      ∀ answer ∈ offerPolicies none offered,
        ∀ n floor, answer ≠ .error (.retiredNodeReauthorization n floor) := by
  intro w w'
  have hinit : (World.down saved [] : World G).Settled := trivial
  have hsettled : w.Settled := World.run_settled hinit before
  have hledger := (World.run_later hsettled after).ledger
    ((World.run_later hinit before).ledger (ledger_nil _ _))
  have hlater := World.run_later hsettled after
  obtain ⟨made, hmade, hclear⟩ := hlater.made
  refine ⟨fun n hn => ?_, ⟨made, hmade, fun n hn u hu hpeer => ?_⟩, hledger.floors,
    hledger.authorized, fun nodeId offered hsub hid => ?_⟩
  · have hspent : w'.isSpent n = true := hlater.grows.spent n hn
    exact ⟨hspent, World.not_admitted_of_spent hspent⟩
  · have hn : spendsUnder w.checkpoint.committedIdHighWater w.checkpoint.currentCommitted n =
        true := hn
    rw [hclear u hu n hpeer] at hn
    cases hn
  · exact offerPolicies_not_retired (by simp) (hledger.follows hsub hid)

end Rafter.Service
