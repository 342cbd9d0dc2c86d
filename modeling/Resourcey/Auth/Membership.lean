import Resourcey.Auth.Policy
import Mathlib.Logic.Function.Basic

/-!
# Group membership in nested policies

`bind_member_groups` copies a membership policy and puts the principal's groups on the copy. The copy
is shallow: the policies below it are those of the stored value, and they stay unbound, so below the
outermost node a membership policy takes `on_mismatch` whoever asks. `memberFilter` is the reduction
in which every node asks for the principal's groups. Creation never asks (`toSearchFilter_create`),
so the two differ exactly where the plain policies differ that the tree ends at with the groups and
without (`bound_intended_iff`).

A policy object keeps its groups as an attribute outside its fields, by the identity of the node
(`PolicyMemory`), so that what the copy shares with the stored value can be told.
-/

namespace Resourcey

namespace Policy

/-- No node of the tree has any groups. -/
def Unbound : Policy → Prop
  | .groupMember _ onMatch onMismatch onCreate memberGroups =>
    memberGroups = [] ∧ onMatch.Unbound ∧ onMismatch.Unbound ∧ onCreate.Unbound
  | .acl _ _ onCreate => onCreate.Unbound
  | _ => True

/-- The reduction for a principal in these groups, every membership policy of the tree selecting
`on_match` exactly when one of its groups is among them. -/
def memberFilter (groups : List ℕ) (userId : Option ℕ) (action : ActionName) :
    Policy → SearchFilter
  | .groupMember groupIds onMatch onMismatch onCreate _ =>
    if action = .standard .create then onCreate.memberFilter groups userId action
    else if groups.any (· ∈ groupIds) then onMatch.memberFilter groups userId action
    else onMismatch.memberFilter groups userId action
  | .acl ids idField onCreate =>
    if action = .standard .create then onCreate.memberFilter groups userId action
    else if ids = [] then .noMatch
    else .attr idField (.isIn ids)
  | p => p.toSearchFilter userId action

/-- The policy at which the tree ends, for what is not a creation. -/
def selected (isMember : List ℕ → Bool) : Policy → Policy
  | .groupMember groupIds onMatch onMismatch _ _ =>
    if isMember groupIds then onMatch.selected isMember else onMismatch.selected isMember
  | p => p

/-- A policy that asks for no groups itself. -/
def Plain : Policy → Prop
  | .groupMember .. => False
  | _ => True

/-- Two policies that are no membership policies grant the same to everybody, for what is not a
creation. -/
def GrantsAs : Policy → Policy → Prop
  | .allowAll, .allowAll => True
  | .denyAll, .denyAll => True
  | .readOnly, .readOnly => True
  | .owner field, .owner field' => field = field'
  | .acl ids field _, .acl ids' field' _ => (ids = [] ∧ ids' = []) ∨ (ids = ids' ∧ field = field')
  | .acl ids _ _, .denyAll => ids = []
  | .denyAll, .acl ids _ _ => ids = []
  | .custom _ reduce, p => ∀ userId action, action ≠ .standard .create →
      reduce userId action = p.toSearchFilter userId action
  | p, .custom _ reduce => ∀ userId action, action ≠ .standard .create →
      p.toSearchFilter userId action = reduce userId action
  | _, _ => False

/-- What the outermost node selects, for what is not a creation. -/
def branch (groups : List ℕ) : Policy → Policy
  | .groupMember groupIds onMatch onMismatch _ _ =>
    if groups.any (· ∈ groupIds) then onMatch else onMismatch
  | p => p

/-- The policy that a bound one consults, for what is not a creation: below the outermost node no
policy has any groups. -/
def consulted (groups : List ℕ) (p : Policy) : Policy := (p.branch groups).selected fun _ => false

/-- Below the outermost node the tree ends at policies that grant the same with the groups and
without. -/
def Honoured (groups : List ℕ) (p : Policy) : Prop :=
  ((p.branch groups).selected fun ids => groups.any (· ∈ ids)).GrantsAs (p.consulted groups)

variable {groups : List ℕ} {userId : Option ℕ} {action : ActionName}

/-- Creation does not ask for groups. -/
theorem toSearchFilter_create (p : Policy) :
    p.toSearchFilter userId (.standard .create) = p.memberFilter groups userId (.standard .create) := by
  induction p with
  | groupMember _ _ _ _ _ _ _ ih | acl _ _ _ ih =>
      simpa only [toSearchFilter, memberFilter, if_true] using ih
  | _ => rfl

/-- An unbound tree takes `on_mismatch` at every node. -/
theorem toSearchFilter_unbound {p : Policy} (hp : p.Unbound) (ha : action ≠ .standard .create) :
    p.toSearchFilter userId action = (p.selected fun _ => false).toSearchFilter userId action := by
  induction p with
  | groupMember groupIds onMatch onMismatch onCreate memberGroups _ ih _ =>
      obtain ⟨rfl, -, hmismatch, -⟩ := hp
      simp [toSearchFilter, selected, ha, ih hmismatch]
  | _ => rfl

theorem memberFilter_selected {p : Policy} (ha : action ≠ .standard .create) :
    p.memberFilter groups userId action
      = (p.selected fun ids => groups.any (· ∈ ids)).toSearchFilter userId action := by
  induction p with
  | groupMember groupIds onMatch onMismatch onCreate memberGroups ihmatch ihmismatch _ =>
      simp only [memberFilter, selected, if_neg ha]
      split
      · exact ihmatch
      · exact ihmismatch
  | acl => simp [memberFilter, selected, toSearchFilter, ha]
  | _ => rfl

/-- The tree ends at a policy that is no membership policy. -/
theorem selected_plain (isMember : List ℕ → Bool) (p : Policy) : (p.selected isMember).Plain := by
  induction p with
  | groupMember groupIds onMatch onMismatch onCreate memberGroups ihmatch ihmismatch _ =>
      rw [selected]
      split
      · exact ihmatch
      · exact ihmismatch
  | _ => trivial

theorem consulted_plain (groups : List ℕ) (p : Policy) : (p.consulted groups).Plain :=
  selected_plain _ _

/-- **Two plain policies reduce alike for everybody exactly if they grant the same.** An anonymous
read, a read and an update tell any two of the built-in ones apart. -/
theorem grantsAs_iff {p q : Policy} (hp : p.Plain) (hq : q.Plain) :
    (∀ userId action, action ≠ .standard .create →
      p.toSearchFilter userId action = q.toSearchFilter userId action) ↔ p.GrantsAs q := by
  constructor
  · intro h
    have hanonymous := h none (.standard .read) (by simp)
    have hread := h (some 0) (.standard .read) (by simp)
    have hupdate := h (some 0) (.standard .update) (by simp)
    cases p <;> cases q <;> first | contradiction | exact h | skip
    all_goals simp [toSearchFilter, readLikeActions] at hanonymous hread hupdate
    all_goals first | trivial | grind [GrantsAs]
  · intro h userId action ha
    cases p <;> cases q <;> first | contradiction | exact h userId action ha | skip
    case acl.acl =>
      rcases h with ⟨rfl, rfl⟩ | ⟨rfl, rfl⟩ <;> simp [toSearchFilter, ha]
    all_goals simp_all [toSearchFilter, GrantsAs]

theorem toSearchFilter_bindMemberGroups {p : Policy} (hp : p.Unbound)
    (ha : action ≠ .standard .create) :
    (p.bindMemberGroups groups).toSearchFilter userId action
      = (p.consulted groups).toSearchFilter userId action := by
  cases p with
  | groupMember groupIds onMatch onMismatch onCreate memberGroups =>
      obtain ⟨-, hmatch, hmismatch, -⟩ := hp
      rw [bindMemberGroups, toSearchFilter, if_neg ha, consulted, branch]
      split
      · exact toSearchFilter_unbound hmatch ha
      · exact toSearchFilter_unbound hmismatch ha
  | _ => rfl

theorem memberFilter_branch (p : Policy) (ha : action ≠ .standard .create) :
    p.memberFilter groups userId action
      = ((p.branch groups).selected fun ids => groups.any (· ∈ ids)).toSearchFilter userId action := by
  rw [memberFilter_selected ha]
  cases p with
  | groupMember groupIds onMatch onMismatch onCreate memberGroups =>
      rw [selected, branch]
      split <;> rfl
  | _ => rfl

theorem bindMemberGroups_create (p : Policy) :
    (p.bindMemberGroups groups).toSearchFilter userId (.standard .create)
      = p.toSearchFilter userId (.standard .create) := by
  cases p <;> rfl

/-- **Binding the outermost node honours the groups of the whole tree** exactly if below it the tree
ends at policies that grant the same with the groups and without. -/
theorem bindMemberGroups_iff {p : Policy} (hp : p.Unbound) :
    (∀ userId action, (p.bindMemberGroups groups).toSearchFilter userId action
      = p.memberFilter groups userId action) ↔ p.Honoured groups := by
  rw [Honoured, ← grantsAs_iff (selected_plain _ _) (consulted_plain _ _)]
  constructor
  · intro h userId action ha
    rw [← memberFilter_branch p ha, ← h, toSearchFilter_bindMemberGroups hp ha]
  · intro h userId action
    by_cases ha : action = .standard .create
    · rw [ha, bindMemberGroups_create]
      exact toSearchFilter_create p
    · rw [toSearchFilter_bindMemberGroups hp ha, memberFilter_branch p ha, h userId action ha]

end Policy

/-! ## Policy objects -/

/-- A policy as an object. The groups of a membership policy are in its private attribute, which is
found under the identity of the node. -/
inductive PolicyObject where
  | allowAll
  | denyAll
  | readOnly
  | owner (ownerField : String)
  | groupMember (node : ℕ) (groupIds : List ℕ) (onMatch onMismatch onCreate : PolicyObject)
  | acl (ids : List Value) (idField : String) (onCreate : PolicyObject)
  | custom (scopesToCaller : Bool) (reduce : Option ℕ → ActionName → SearchFilter)

/-- The `_member_groups` of the nodes, and the identity of the next node. -/
structure PolicyMemory where
  memberGroups : ℕ → List ℕ
  next : ℕ

namespace PolicyObject

/-- The policy that an object is. -/
def value (memberGroups : ℕ → List ℕ) : PolicyObject → Policy
  | .allowAll => .allowAll
  | .denyAll => .denyAll
  | .readOnly => .readOnly
  | .owner ownerField => .owner ownerField
  | .groupMember node groupIds onMatch onMismatch onCreate =>
    .groupMember groupIds (onMatch.value memberGroups) (onMismatch.value memberGroups)
      (onCreate.value memberGroups) (memberGroups node)
  | .acl ids idField onCreate => .acl ids idField (onCreate.value memberGroups)
  | .custom scopesToCaller reduce => .custom scopesToCaller reduce

/-- The nodes of an object and of those below it. -/
def nodes : PolicyObject → List ℕ
  | .groupMember node _ onMatch onMismatch onCreate =>
    node :: onMatch.nodes ++ onMismatch.nodes ++ onCreate.nodes
  | .acl _ _ onCreate => onCreate.nodes
  | _ => []

/-- `bind_member_groups`: the copy of a membership policy is a new node over the same fields, and
its attribute is set. -/
def bindMemberGroups (groups : List ℕ) (m : PolicyMemory) : PolicyObject → PolicyObject × PolicyMemory
  | .groupMember _ groupIds onMatch onMismatch onCreate =>
    (.groupMember m.next groupIds onMatch onMismatch onCreate,
      ⟨Function.update m.memberGroups m.next groups, m.next + 1⟩)
  | p => (p, m)

variable {groups : List ℕ} {m : PolicyMemory} {p : PolicyObject}

theorem value_congr {f g : ℕ → List ℕ} {p : PolicyObject} (h : ∀ n ∈ p.nodes, f n = g n) :
    p.value f = p.value g := by
  induction p with
  | groupMember node groupIds onMatch onMismatch onCreate ihmatch ihmismatch ihcreate =>
      simp only [nodes, List.cons_append, List.forall_mem_cons, List.forall_mem_append] at h
      obtain ⟨hnode, ⟨hmatch, hmismatch⟩, hcreate⟩ := h
      rw [value, value, ihmatch hmatch, ihmismatch hmismatch, ihcreate hcreate, hnode]
  | acl ids idField onCreate ih => rw [value, value, ih h]
  | _ => rfl

/-- The object is in memory. -/
def Allocated (m : PolicyMemory) (p : PolicyObject) : Prop := ∀ n ∈ p.nodes, n < m.next

/-- What is in memory is not changed. -/
theorem value_bindMemberGroups_of_allocated {q : PolicyObject} (hq : q.Allocated m) :
    q.value (p.bindMemberGroups groups m).2.memberGroups = q.value m.memberGroups := by
  cases p with
  | groupMember node groupIds onMatch onMismatch onCreate =>
      exact value_congr fun n hn => Function.update_of_ne (hq n hn).ne _ _
  | _ => rfl

/-- The object that is bound is the policy that is bound. -/
theorem value_bindMemberGroups (hp : p.Allocated m) :
    (p.bindMemberGroups groups m).1.value (p.bindMemberGroups groups m).2.memberGroups
      = (p.value m.memberGroups).bindMemberGroups groups := by
  cases p with
  | groupMember node groupIds onMatch onMismatch onCreate =>
      have hsame : ∀ q : PolicyObject, q.Allocated m →
          q.value (Function.update m.memberGroups m.next groups) = q.value m.memberGroups :=
        fun q hq => value_congr fun n hn => Function.update_of_ne (hq n hn).ne _ _
      simp only [Allocated, nodes, List.cons_append, List.forall_mem_cons,
        List.forall_mem_append] at hp
      obtain ⟨-, ⟨hmatch, hmismatch⟩, hcreate⟩ := hp
      simp only [bindMemberGroups, value, Policy.bindMemberGroups, Function.update_self,
        hsame _ hmatch, hsame _ hmismatch, hsame _ hcreate]
  | _ => rfl

/-- An object none of whose nodes has any groups is unbound. -/
theorem value_unbound {f : ℕ → List ℕ} (h : ∀ n ∈ p.nodes, f n = []) : (p.value f).Unbound := by
  induction p with
  | groupMember node groupIds onMatch onMismatch onCreate ihmatch ihmismatch ihcreate =>
      simp only [nodes, List.cons_append, List.forall_mem_cons, List.forall_mem_append] at h
      obtain ⟨hnode, ⟨hmatch, hmismatch⟩, hcreate⟩ := h
      exact ⟨hnode, ihmatch hmatch, ihmismatch hmismatch, ihcreate hcreate⟩
  | acl ids idField onCreate ih => exact ih h
  | _ => trivial

/-- **A principal's groups count at every level of a stored policy**, which itself stays unbound,
exactly if below its outermost node the policy ends at policies that grant the same with the groups
and without. -/
theorem bound_intended_iff (hp : p.Allocated m) (hunbound : ∀ n ∈ p.nodes, m.memberGroups n = []) :
    ((∀ userId action,
      ((p.bindMemberGroups groups m).1.value
        (p.bindMemberGroups groups m).2.memberGroups).toSearchFilter userId action
          = (p.value m.memberGroups).memberFilter groups userId action) ∧
      ∀ n ∈ p.nodes, (p.bindMemberGroups groups m).2.memberGroups n = []) ↔
        (p.value m.memberGroups).Honoured groups := by
  rw [value_bindMemberGroups hp, Policy.bindMemberGroups_iff (value_unbound hunbound)]
  refine and_iff_left fun n hn => ?_
  rw [← hunbound n hn]
  cases p with
  | groupMember node groupIds onMatch onMismatch onCreate =>
      exact Function.update_of_ne (hp n hn).ne _ _
  | _ => rfl

/-- The members of group 1. -/
def groupOne : PolicyObject := .groupMember 0 [1] .readOnly .denyAll .allowAll

/-- The members of group 1 that are not in group 2. -/
def groupOneOnly : PolicyObject :=
  .groupMember 0 [1] (.groupMember 1 [2] .denyAll .allowAll .denyAll) .denyAll .denyAll

/-- A memory in which no policy is bound. -/
def nothingBound : PolicyMemory := ⟨fun _ => [], 2⟩

/-- Over plain policies the groups count. -/
theorem bound_intended_iff_plain :
    (∀ userId action,
      ((groupOne.bindMemberGroups [1] nothingBound).1.value
        (groupOne.bindMemberGroups [1] nothingBound).2.memberGroups).toSearchFilter userId action
          = (groupOne.value nothingBound.memberGroups).memberFilter [1] userId action) ∧
      ∀ n ∈ groupOne.nodes,
        (groupOne.bindMemberGroups [1] nothingBound).2.memberGroups n = [] := by
  have hallocated : groupOne.Allocated nothingBound :=
    List.forall_mem_cons.mpr ⟨Nat.zero_lt_two, List.forall_mem_nil _⟩
  have hhonoured : (groupOne.value nothingBound.memberGroups).Honoured [1] := trivial
  exact (bound_intended_iff hallocated (fun _ _ => rfl)).mpr hhonoured

/-- The inner node stays unbound, and lets those in group 2 in. -/
theorem bound_not_intended :
    ((groupOneOnly.bindMemberGroups [1, 2] nothingBound).1.value
      (groupOneOnly.bindMemberGroups [1, 2] nothingBound).2.memberGroups).toSearchFilter none
        (.standard .delete) = .all ∧
      (groupOneOnly.value nothingBound.memberGroups).memberFilter [1, 2] none (.standard .delete)
        = .noMatch ∧ SearchFilter.all ≠ .noMatch :=
  ⟨rfl, rfl, by simp⟩

end PolicyObject

end Resourcey
