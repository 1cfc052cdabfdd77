import Rafter.Types.Message

/-!
# Membership events

`crates/rafter-app/src/membership/event.rs`: what a group reports about the membership of its
runtime.
-/

namespace Rafter

/-- `MembershipEvent`. -/
inductive MembershipEvent (G : Type) where
  /-- The configuration in effect changed, seen with the log at `index` and `term`. -/
  | effectiveChanged (groupId : G) (index term : ℕ) (membership : MembershipConfig)
  /-- The commit index crossed a configuration entry. -/
  | applied (groupId : G) (index term : ℕ) (previous membership : MembershipConfig)
  /-- The committed configuration moved without such an entry. -/
  | committedEndpoint (groupId : G) (index term : ℕ) (membership : MembershipConfig)
  | rejected (groupId : G) (reason : ProposalRejection) (leaderHint : Option NodeId)
deriving DecidableEq

end Rafter
