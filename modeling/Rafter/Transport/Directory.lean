import Mathlib.Data.Finset.Sort
import Rafter.Service.Membership

/-!
# Replacing the peer policy of a TLS directory

`TlsPeerDirectory::replace_policy` (`crates/rafter-transport-tls/src/directory/mutation.rs`,
`mutation/validate.rs`): a policy is resolved to node identities, refused if it authorizes an
identity the current policy retired, and installed with the higher of the two floors. The leases of
the authorized identities are left out: no check reads them.

Results:

* `resolvePolicy_eq_ok`: a policy that names its peers through the bindings resolves to them;
* `refuseRetiredReauthorization_ok`: what the current policy authorized is never refused as retired.
-/

namespace Rafter.Transport

open Rafter.Service (higherMark)

/-- `DirectoryError`, the variants `replace_policy` raises for a known group. -/
inductive DirectoryError (P : Type) where
  | duplicatePolicyPeer (peerId : P)
  | unknownPolicyPeer (peerId : P)
  | retiredNodeReauthorization (nodeId retirementFloor : NodeId)
deriving DecidableEq

/-- The bindings of one group: `node_to_peer` and `peer_to_node`, which answer each other. -/
structure Bindings (P : Type) where
  nodeToPeer : NodeId → Option P
  peerToNode : P → Option NodeId
  inverse : ∀ n p, nodeToPeer n = some p → peerToNode p = some n

/-- `GroupPolicy`. -/
structure GroupPolicy where
  authorizedNodes : Finset NodeId
  retirementFloor : Option NodeId
deriving DecidableEq

variable {P : Type} [DecidableEq P]
variable {b : Bindings P} {peers seen : List P} {nodes resolved : Finset NodeId} {ids : List NodeId}

/-- The loop of `resolve_policy`, with the peers and the nodes resolved so far. -/
def resolvePolicyFrom (b : Bindings P) (seen : List P) (nodes : Finset NodeId) :
    List P → Except (DirectoryError P) (Finset NodeId)
  | [] => .ok nodes
  | peer :: rest =>
    if peer ∈ seen then .error (.duplicatePolicyPeer peer)
    else match b.peerToNode peer with
    | none => .error (.unknownPolicyPeer peer)
    | some n => resolvePolicyFrom b (peer :: seen) (insert n nodes) rest

/-- `resolve_policy`. -/
def resolvePolicy (b : Bindings P) (peers : List P) : Except (DirectoryError P) (Finset NodeId) :=
  resolvePolicyFrom b [] ∅ peers

/-- The identities a policy would authorize again after the current one retired them. -/
def reauthorized (floor : NodeId) (current nodes : Finset NodeId) : Finset NodeId :=
  nodes.filter fun n => n ≤ floor ∧ n ∉ current

/-- `refuse_retired_reauthorization`: the least such identity is named. -/
def refuseRetiredReauthorization (current : Option GroupPolicy) (nodes : Finset NodeId) :
    Except (DirectoryError P) Unit :=
  match current with
  | none => .ok ()
  | some policy =>
    match policy.retirementFloor with
    | none => .ok ()
    | some floor =>
      if h : (reauthorized floor policy.authorizedNodes nodes).Nonempty then
        .error (.retiredNodeReauthorization
          ((reauthorized floor policy.authorizedNodes nodes).min' h) floor)
      else .ok ()

/-- `replace_policy` of a known group: the policy it leaves. -/
def replacePolicy (b : Bindings P) (current : Option GroupPolicy) (peers : List P)
    (floor : Option NodeId) : Except (DirectoryError P) GroupPolicy := do
  let nodes ← resolvePolicy b peers
  refuseRetiredReauthorization current nodes
  return ⟨nodes, higherMark (current.bind GroupPolicy.retirementFloor) floor⟩

/-- The principals a driver names for a set of peers, in their order; `none` if one is unbound. -/
def principals (b : Bindings P) (peers : Finset NodeId) : Option (List P) :=
  (peers.sort (· ≤ ·)).mapM b.nodeToPeer

/-! ## Resolution -/

omit [DecidableEq P] in
/-- The principals of a list are bound to the list. -/
theorem mapM_nodeToPeer (h : ids.mapM b.nodeToPeer = some peers) :
    peers.map b.peerToNode = ids.map some := by
  induction ids generalizing peers with
  | nil =>
    rw [List.mapM_nil] at h
    cases h
    rfl
  | cons n ids ih =>
    rw [List.mapM_cons] at h
    obtain ⟨p, hp, h⟩ := Option.bind_eq_some_iff.1 h
    obtain ⟨rest, hrest, h⟩ := Option.bind_eq_some_iff.1 h
    cases h
    rw [List.map_cons, List.map_cons, ih hrest, b.inverse n p hp]

/-- Resolving principals that are bound to a list adds the list. -/
theorem resolvePolicyFrom_eq_ok (hbound : peers.map b.peerToNode = ids.map some)
    (h : resolvePolicyFrom b seen nodes peers = .ok resolved) : resolved = nodes
    ∪ ids.toFinset := by
  induction peers generalizing seen nodes ids with
  | nil =>
    cases ids with
    | nil =>
      cases h
      rw [List.toFinset_nil, Finset.union_empty]
    | cons n ids => cases hbound
  | cons p peers ih =>
    cases ids with
    | nil => cases hbound
    | cons n ids =>
      rw [List.map_cons, List.map_cons, List.cons.injEq] at hbound
      unfold resolvePolicyFrom at h
      split at h
      · cases h
      · rw [hbound.1] at h
        rw [ih hbound.2 h, List.toFinset_cons, Finset.insert_union, Finset.union_insert]

/-- A policy named through the bindings resolves to the peers it was named for. -/
theorem resolvePolicy_eq_ok {peers : Finset NodeId} {named : List P}
    (hnamed : principals b peers = some named) (h : resolvePolicy b named = .ok resolved) :
    resolved = peers := by
  have hresolved := resolvePolicyFrom_eq_ok (mapM_nodeToPeer hnamed) h
  rw [Finset.sort_toFinset, Finset.empty_union] at hresolved
  exact hresolved

/-- Resolution refuses duplicates and unknown peers only. -/
theorem resolvePolicyFrom_error {e : DirectoryError P}
    (h : resolvePolicyFrom b seen nodes peers = .error e) :
    (∃ peer, e = .duplicatePolicyPeer peer) ∨ ∃ peer, e = .unknownPolicyPeer peer := by
  induction peers generalizing seen nodes with
  | nil => cases h
  | cons p peers ih =>
    unfold resolvePolicyFrom at h
    split at h
    · cases h
      exact .inl ⟨p, rfl⟩
    · split at h
      · cases h
        exact .inr ⟨p, rfl⟩
      · exact ih h

theorem resolvePolicy_error_ne {n floor : NodeId} :
    resolvePolicy b peers ≠ .error (.retiredNodeReauthorization n floor) := by
  intro h
  rcases resolvePolicyFrom_error h with ⟨peer, he⟩ | ⟨peer, he⟩
  · cases he
  · cases he

/-! ## Retirement -/

omit [DecidableEq P] in
/-- A policy that authorizes nothing the current one retired passes. -/
theorem refuseRetiredReauthorization_ok {current : Option GroupPolicy}
    (h : ∀ policy ∈ current, ∀ floor ∈ policy.retirementFloor, ∀ n ∈ nodes, n ≤ floor →
      n ∈ policy.authorizedNodes) :
    (refuseRetiredReauthorization current nodes : Except (DirectoryError P) Unit) = .ok () := by
  unfold refuseRetiredReauthorization
  split
  · rfl
  · rename_i policy
    split
    · rfl
    · rename_i floor hfloor
      refine dif_neg ?_
      rintro ⟨n, hn⟩
      obtain ⟨hmem, hle, hnot⟩ := Finset.mem_filter.1 hn
      exact hnot (h policy rfl floor hfloor n hmem hle)

end Rafter.Transport
