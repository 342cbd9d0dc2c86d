import Resourcey.Core.Service

/-!
# Authorization policies

A policy reduces to a filter for an action: the rows it admits. The principal's own identifier is an
argument of the reduction, and its groups are bound onto the membership policies beforehand. The
reductions of a principal's policies are combined by `or_`, so a policy that denies adds nothing.
-/

namespace Resourcey

/-- An action as a policy is asked about it: a standard one, or one a resource declares by name. -/
inductive ActionName where
  | standard (action : Action)
  | custom (name : String)
  deriving DecidableEq, Repr

/-- The value of a standard action. -/
def Action.value : Action → String
  | .create => "create"
  | .read => "read"
  | .update => "update"
  | .delete => "delete"
  | .search => "search"
  | .count => "count"
  | .batchRead => "batch_read"

/-- `_READ_LIKE_ACTIONS`. -/
def readLikeActions : List Action := [.read, .search, .count, .batchRead]

/-- A policy. The groups and principals are identified by numbers. `memberGroups` is what a resolver
has bound, and `custom` an app's own kind of policy. -/
inductive Policy where
  | allowAll
  | denyAll
  | readOnly
  | owner (ownerField : String := "user_id")
  | groupMember (groupIds : List ℕ) (onMatch onMismatch onCreate : Policy)
      (memberGroups : List ℕ := [])
  | acl (ids : List Value) (idField : String := "id") (onCreate : Policy)
  | custom (scopesToCaller : Bool) (reduce : Option ℕ → ActionName → SearchFilter)

namespace Policy

/-- `scopes_to_caller`. -/
def scopesToCaller : Policy → Bool
  | .allowAll | .denyAll | .readOnly => false
  | .custom scopesToCaller _ => scopesToCaller
  | _ => true

/-- `to_search_filter`: the rows the policy admits. -/
def toSearchFilter (userId : Option ℕ) (action : ActionName) : Policy → SearchFilter
  | .allowAll => .all
  | .denyAll => .noMatch
  | .readOnly =>
    match action with
    | .standard a => if a ∈ readLikeActions then .all else .noMatch
    | .custom _ => .noMatch
  | .owner ownerField =>
    match userId with
    | none => .noMatch
    | some u =>
      if action = .standard .create then .all else .attr ownerField (.eq (.scalar (.uuid u)))
  | .groupMember groupIds onMatch onMismatch onCreate memberGroups =>
    if action = .standard .create then onCreate.toSearchFilter userId action
    else if memberGroups.any (· ∈ groupIds) then onMatch.toSearchFilter userId action
    else onMismatch.toSearchFilter userId action
  | .acl ids idField onCreate =>
    if action = .standard .create then onCreate.toSearchFilter userId action
    else if ids = [] then .noMatch
    else .attr idField (.isIn ids)
  | .custom _ reduce => reduce userId action

/-- `bind_member_groups`. -/
def bindMemberGroups (groups : List ℕ) : Policy → Policy
  | .groupMember groupIds onMatch onMismatch onCreate _ =>
    .groupMember groupIds onMatch onMismatch onCreate groups
  | p => p

end Policy

/-- `AuthorizedService._permission_filter`: the rows some policy admits. -/
def permissionFilter (policies : List Policy) (userId : Option ℕ) (action : ActionName) :
    SearchFilter :=
  SearchFilter.or_ (policies.map (·.toSearchFilter userId action))

end Resourcey
