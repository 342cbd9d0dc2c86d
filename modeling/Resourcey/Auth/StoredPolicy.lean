import Resourcey.Auth.Membership
import Resourcey.Logic.JsonText
import Resourcey.Logic.UuidText
import Resourcey.Util.SearchFilter

/-!
# Stored policies

A policy of a built-in kind is stored as a JSON object that names its kind, and is read back by that
name. The ids of an `Acl` have no declared type, so a UUID among them is written as text and stays
text when it is read (`load_toJson`), and a row's UUID is equal to no text. Everything else comes
back as it was. So a policy keeps its meaning exactly if no `Acl` that its reduction consults lists a
UUID (`keeps_meaning_iff`).
-/

namespace Resourcey

/-- An id of an `Acl`, as far as JSON has it. -/
inductive AclId where
  | null
  | bool (b : Bool)
  | int (n : ℤ)
  | str (s : String)
  | uuid (u : Uuid)
  deriving DecidableEq

/-- The value that an id is. -/
def AclId.value : AclId → Value
  | .null => .none
  | .bool b => .scalar (.bool b)
  | .int n => .scalar (.int n)
  | .str s => .scalar (.str s)
  | .uuid u => .scalar (.uuid u)

/-- A policy of a built-in kind with its fields. Every kind has `group_ids`, and a set is the list of
its members. -/
inductive StoredPolicy where
  | allowAll (groupIds : List Uuid)
  | denyAll (groupIds : List Uuid)
  | readOnly (groupIds : List Uuid)
  | owner (groupIds : List Uuid) (ownerField : String)
  | groupMember (groupIds : List Uuid) (onMatch onMismatch onCreate : StoredPolicy)
  | acl (groupIds : List Uuid) (ids : List AclId) (idField : String) (onCreate : StoredPolicy)

namespace StoredPolicy

/-- The policy, which nothing has been bound to. -/
def policy : StoredPolicy → Policy
  | .allowAll _ => .allowAll
  | .denyAll _ => .denyAll
  | .readOnly _ => .readOnly
  | .owner _ ownerField => .owner ownerField
  | .groupMember groupIds onMatch onMismatch onCreate =>
    .groupMember (groupIds.map Fin.val) onMatch.policy onMismatch.policy onCreate.policy
  | .acl _ ids idField onCreate => .acl (ids.map AclId.value) idField onCreate.policy

end StoredPolicy

/-! ## Writing -/

/-- An id in JSON. -/
def AclId.json : AclId → JsonTree
  | .null => .null
  | .bool b => .bool b
  | .int n => .int n
  | .str s => .str s
  | .uuid u => .str u.text

/-- `group_ids` in JSON. -/
def groupIdsJson (groupIds : List Uuid) : JsonTree := .arr (groupIds.map fun u => .str u.text)

/-- `policy_to_json`. -/
def policyToJson : StoredPolicy → JsonTree
  | .allowAll groupIds => .obj [("group_ids", groupIdsJson groupIds), ("kind", .str "AllowAll")]
  | .denyAll groupIds => .obj [("group_ids", groupIdsJson groupIds), ("kind", .str "DenyAll")]
  | .readOnly groupIds => .obj [("group_ids", groupIdsJson groupIds), ("kind", .str "ReadOnly")]
  | .owner groupIds ownerField =>
    .obj [("group_ids", groupIdsJson groupIds), ("owner_field", .str ownerField),
      ("kind", .str "Owner")]
  | .groupMember groupIds onMatch onMismatch onCreate =>
    .obj [("group_ids", groupIdsJson groupIds), ("on_match", policyToJson onMatch),
      ("on_mismatch", policyToJson onMismatch), ("on_create", policyToJson onCreate),
      ("kind", .str "GroupMember")]
  | .acl groupIds ids idField onCreate =>
    .obj [("group_ids", groupIdsJson groupIds), ("ids", .arr (ids.map AclId.json)),
      ("id_field", .str idField), ("on_create", policyToJson onCreate), ("kind", .str "Acl")]

/-! ## Reading -/

/-- Why a policy cannot be read: a `ValidationError`, or a `TypeError` of the validator itself, which
pydantic does not turn into one. -/
inductive LoadError where
  | validation
  | typeError
  deriving DecidableEq

/-- Two fields of a model. Pydantic collects the errors of validation, and stops at any other. -/
def bothFields {α β : Type} : Except LoadError α → Except LoadError β → Except LoadError (α × β)
  | .ok a, .ok b => .ok (a, b)
  | .error .typeError, _ => .error .typeError
  | _, .error .typeError => .error .typeError
  | _, _ => .error .validation

/-- A UUID from JSON. -/
def loadUuid : JsonTree → Except LoadError Uuid
  | .str s => (Uuid.ofText s).elim (.error .validation) .ok
  | _ => .error .validation

/-- `group_ids`. -/
def loadGroupIds : Option JsonTree → Except LoadError (List Uuid)
  | none => .ok []
  | some (.arr items) => items.mapM loadUuid
  | some _ => .error .validation

/-- A member of `ids`: an array or object has no hash. -/
def loadAclId : JsonTree → Except LoadError AclId
  | .null => .ok .null
  | .bool b => .ok (.bool b)
  | .int n => .ok (.int n)
  | .str s => .ok (.str s)
  | .arr _ | .obj _ => .error .validation

/-- `ids`. -/
def loadIds : Option JsonTree → Except LoadError (List AclId)
  | none => .ok []
  | some (.arr items) => items.mapM loadAclId
  | some _ => .error .validation

/-- A text field with its default. -/
def loadText (default : String) : Option JsonTree → Except LoadError String
  | none => .ok default
  | some (.str s) => .ok s
  | some _ => .error .validation

/-- The model of a kind, from its members and from what the members are as policies. -/
def loadKind (members : List (String × JsonTree))
    (nested : List (String × Except LoadError StoredPolicy)) : Except LoadError StoredPolicy :=
  let groupIds := loadGroupIds (members.lookup "group_ids")
  let onCreate (default : StoredPolicy) := (nested.lookup "on_create").getD (.ok default)
  match members.lookup "kind" with
  | some (.str "AllowAll") => groupIds.map .allowAll
  | some (.str "DenyAll") => groupIds.map .denyAll
  | some (.str "ReadOnly") => groupIds.map .readOnly
  | some (.str "Owner") =>
    (bothFields groupIds (loadText "user_id" (members.lookup "owner_field"))).map
      fun (groupIds, ownerField) => .owner groupIds ownerField
  | some (.str "GroupMember") =>
    (bothFields groupIds (bothFields ((nested.lookup "on_match").getD (.ok (.denyAll [])))
      (bothFields ((nested.lookup "on_mismatch").getD (.ok (.denyAll [])))
        (onCreate (.denyAll []))))).map
        fun (groupIds, onMatch, onMismatch, onCreate) =>
          .groupMember groupIds onMatch onMismatch onCreate
  | some (.str "Acl") =>
    (bothFields groupIds (bothFields (loadIds (members.lookup "ids"))
      (bothFields (loadText "id" (members.lookup "id_field")) (onCreate (.allowAll []))))).map
        fun (groupIds, ids, idField, onCreate) => .acl groupIds ids idField onCreate
  | some (.arr _) | some (.obj _) => .error .typeError  -- no hash
  | _ => .error .validation  -- no kind, or an unknown one

mutual

/-- `Policy.model_validate`. What has no items has no `dict` either. -/
def loadPolicy : JsonTree → Except LoadError StoredPolicy
  | .obj members => loadKind members (loadMembers members)
  | .str _ | .arr _ => .error .validation
  | .null | .bool _ | .int _ => .error .typeError

/-- The members of an object, each as a policy. -/
def loadMembers : List (String × JsonTree) → List (String × Except LoadError StoredPolicy)
  | [] => []
  | (key, j) :: members => (key, loadPolicy j) :: loadMembers members

end

/-- `policy_from_rows`: a row that is no mapping, names a kind that is not loaded, or is malformed is
skipped. -/
def policyFromRows : List JsonTree → Except LoadError (List StoredPolicy)
  | [] => .ok []
  | .obj members :: rows =>
    match loadPolicy (.obj members) with
    | .ok p => (policyFromRows rows).map (p :: ·)
    | .error .validation => policyFromRows rows
    | .error .typeError => .error .typeError
  | _ :: rows => policyFromRows rows

/-! ## The round trip -/

/-- An id after the round trip. -/
def AclId.reread : AclId → AclId
  | .uuid u => .str u.text
  | id => id

/-- A policy after the round trip. -/
def StoredPolicy.reread : StoredPolicy → StoredPolicy
  | .groupMember groupIds onMatch onMismatch onCreate =>
    .groupMember groupIds onMatch.reread onMismatch.reread onCreate.reread
  | .acl groupIds ids idField onCreate =>
    .acl groupIds (ids.map AclId.reread) idField onCreate.reread
  | p => p

theorem loadGroupIds_json (groupIds : List Uuid) :
    loadGroupIds (some (groupIdsJson groupIds)) = .ok groupIds := by
  have hload : ∀ u : Uuid, loadUuid (.str u.text) = .ok u := fun u => by
    rw [loadUuid, Uuid.ofText_text]
    rfl
  show (groupIds.map fun u => JsonTree.str u.text).mapM loadUuid = _
  simp only [List.mapM_map, Function.comp_def, hload]
  exact (List.mapM_pure (f := id)).trans (congrArg Except.ok (List.map_id _))

theorem loadIds_json (ids : List AclId) :
    loadIds (some (.arr (ids.map AclId.json))) = .ok (ids.map AclId.reread) := by
  have hload : ∀ id : AclId, loadAclId id.json = .ok id.reread := fun id => by cases id <;> rfl
  simp only [loadIds, List.mapM_map, Function.comp_def, hload]
  exact List.mapM_pure

/-- **What is read back of a policy.** -/
theorem loadPolicy_toJson (p : StoredPolicy) : loadPolicy (policyToJson p) = .ok p.reread := by
  induction p with
  | allowAll groupIds | denyAll groupIds | readOnly groupIds | owner groupIds ownerField =>
      simp [policyToJson, loadPolicy, loadKind, List.lookup_cons, loadGroupIds_json, bothFields, loadText,
        StoredPolicy.reread, Except.map]
  | groupMember groupIds onMatch onMismatch onCreate ihmatch ihmismatch ihcreate =>
      simp [policyToJson, loadPolicy, loadMembers, loadKind, List.lookup_cons, loadGroupIds_json,
        bothFields, StoredPolicy.reread, Except.map, ihmatch, ihmismatch, ihcreate]
  | acl groupIds ids idField onCreate ihcreate =>
      simp [policyToJson, loadPolicy, loadMembers, loadKind, List.lookup_cons, loadGroupIds_json,
        loadIds_json, bothFields, loadText, StoredPolicy.reread, Except.map, ihcreate]

theorem policyFromRows_toJson (p : StoredPolicy) :
    policyFromRows [policyToJson p] = .ok [p.reread] := by
  have hload := loadPolicy_toJson p
  cases p <;> simp_all [policyFromRows, policyToJson, Except.map]

/-! ## Meaning -/

/-- A value after the round trip. -/
def rereadValue : Value → Value
  | .scalar (.uuid n) => .scalar (.str (Uuid.text (Fin.ofNat (2 ^ 128) n)))
  | v => v

theorem rereadValue_value (id : AclId) : rereadValue id.value = id.reread.value := by
  cases id with
  | uuid u => exact congrArg (fun v : Uuid => Value.scalar (.str v.text)) (Fin.ofNat_val_eq_self u)
  | _ => rfl

/-- No row's UUID is in what was read back. -/
theorem pyEq_rereadValue (n : ℕ) (v : Value) :
    (Value.scalar (.uuid n)).pyEq (rereadValue v) = false := by
  cases v with
  | scalar s => cases s <;> rfl
  | _ => rfl

namespace Policy

/-- The policy with other ids. -/
def mapIds (f : Value → Value) : Policy → Policy
  | .groupMember groupIds onMatch onMismatch onCreate memberGroups =>
    .groupMember groupIds (onMatch.mapIds f) (onMismatch.mapIds f) (onCreate.mapIds f) memberGroups
  | .acl ids idField onCreate => .acl (ids.map f) idField (onCreate.mapIds f)
  | p => p

/-- The policy is an `Acl` with a UUID in it. -/
def ListsUuid : Policy → Prop
  | .acl ids _ _ => ∃ n, .scalar (.uuid n) ∈ ids
  | _ => False

variable {groups : List ℕ} {userId : Option ℕ} {action : ActionName} {f : Value → Value}

theorem toSearchFilter_create_mapIds (p : Policy) :
    (p.mapIds f).toSearchFilter userId (.standard .create)
      = p.toSearchFilter userId (.standard .create) := by
  induction p with
  | groupMember _ _ _ _ _ _ _ ih | acl _ _ _ ih =>
      simpa only [mapIds, toSearchFilter, if_true] using ih
  | _ => rfl

theorem selected_mapIds (isMember : List ℕ → Bool) (p : Policy) :
    (p.mapIds f).selected isMember = (p.selected isMember).mapIds f := by
  induction p with
  | groupMember groupIds onMatch onMismatch onCreate memberGroups ihmatch ihmismatch _ =>
      rw [mapIds, selected, selected, ihmatch, ihmismatch]
      split <;> rfl
  | _ => rfl

theorem consulted_mapIds (p : Policy) :
    (p.mapIds f).consulted groups = (p.consulted groups).mapIds f := by
  rw [consulted, consulted, ← selected_mapIds]
  cases p with
  | groupMember =>
      rw [mapIds, branch, branch]
      split <;> rfl
  | _ => rfl

/-- **A plain policy keeps its meaning** exactly if it lists no UUID. -/
theorem matches_reread_iff [TextRules] {p : Policy} (hp : p.Plain) :
    (∀ userId action row, action ≠ .standard .create →
      ((p.mapIds rereadValue).toSearchFilter userId action).matches row
        = (p.toSearchFilter userId action).matches row) ↔ ¬ p.ListsUuid := by
  cases p with
  | groupMember => contradiction
  | acl ids idField onCreate =>
      constructor
      · rintro h ⟨n, hn⟩
        have hids : ids ≠ [] := List.ne_nil_of_mem hn
        have hsame := h none (.standard .read) (.object fun _ => .scalar (.uuid n)) (by simp)
        have hbefore : (ids.any fun v => (Value.scalar (.uuid n)).pyEq v) = true :=
          List.any_eq_true.mpr ⟨_, hn, by simp [Value.pyEq, Scalar.pyEq_self]⟩
        have hafter : ((ids.map rereadValue).any fun v => (Value.scalar (.uuid n)).pyEq v) = false := by
          simp [pyEq_rereadValue]
        simp only [mapIds, toSearchFilter, List.map_eq_nil_iff, if_neg hids, reduceCtorEq, if_false,
          ActionName.standard.injEq, SearchFilter.matches, Subject.get, Subject.pyEq] at hsame
        rw [hbefore, hafter] at hsame
        cases hsame
      · intro h userId action row ha
        have hsame : ids.map rereadValue = ids := by
          refine (List.map_congr_left fun v hv => ?_).trans (List.map_id ids)
          show rereadValue v = v
          unfold rereadValue
          split
          · next n => exact absurd ⟨n, hv⟩ h
          · rfl
        rw [mapIds, toSearchFilter, toSearchFilter, hsame, if_neg ha, if_neg ha]
  | _ => exact ⟨fun _ => id, fun _ _ _ _ _ => rfl⟩

end Policy

namespace StoredPolicy

theorem policy_reread (p : StoredPolicy) : p.reread.policy = p.policy.mapIds rereadValue := by
  induction p with
  | groupMember groupIds onMatch onMismatch onCreate ihmatch ihmismatch ihcreate =>
      simp only [reread, policy, Policy.mapIds, ihmatch, ihmismatch, ihcreate]
  | acl groupIds ids idField onCreate ihcreate =>
      simp only [reread, policy, Policy.mapIds, ihcreate, List.map_map]
      congr 1
      exact List.map_congr_left fun id _ => (rereadValue_value id).symm
  | _ => rfl

theorem policy_unbound (p : StoredPolicy) : p.policy.Unbound := by
  induction p with
  | groupMember _ _ _ _ ihmatch ihmismatch ihcreate => exact ⟨rfl, ihmatch, ihmismatch, ihcreate⟩
  | acl _ _ _ _ ihcreate => exact ihcreate
  | _ => trivial

/-- **A stored policy keeps its meaning**, for every principal, action and row, exactly if no `Acl`
that its reduction consults, whatever groups are bound, lists a UUID. -/
theorem keeps_meaning_iff [TextRules] (p : StoredPolicy) :
    (∃ q, policyFromRows [policyToJson p] = .ok [q] ∧ ∀ groups userId action row,
      ((q.policy.bindMemberGroups groups).toSearchFilter userId action).matches row
        = ((p.policy.bindMemberGroups groups).toSearchFilter userId action).matches row) ↔
      ∀ groups, ¬ (p.policy.consulted groups).ListsUuid := by
  have hconsulted (groups : List ℕ) :
      (∀ userId action row, action ≠ .standard .create →
        ((p.reread.policy.bindMemberGroups groups).toSearchFilter userId action).matches row
          = ((p.policy.bindMemberGroups groups).toSearchFilter userId action).matches row) ↔
        ¬ (p.policy.consulted groups).ListsUuid := by
    rw [← Policy.matches_reread_iff (Policy.consulted_plain _ _)]
    refine forall₃_congr fun userId action row => imp_congr_right fun ha => ?_
    rw [Policy.toSearchFilter_bindMemberGroups p.reread.policy_unbound ha,
      Policy.toSearchFilter_bindMemberGroups p.policy_unbound ha, policy_reread,
      Policy.consulted_mapIds]
  constructor
  · rintro ⟨q, hq, hsame⟩ groups
    rw [policyFromRows_toJson] at hq
    cases hq
    exact (hconsulted groups).mp fun userId action row _ => hsame groups userId action row
  · intro h
    refine ⟨p.reread, policyFromRows_toJson p, fun groups userId action row => ?_⟩
    by_cases ha : action = .standard .create
    · rw [ha, Policy.bindMemberGroups_create, Policy.bindMemberGroups_create, policy_reread,
        Policy.toSearchFilter_create_mapIds]
    · exact (hconsulted groups).mpr (h groups) userId action row ha

/-- A policy that admits one note by its UUID, read back, admits it no more. -/
theorem keeps_meaning_lost :
    letI := TextRules.ascii
    let p := acl [] [.uuid 7] "id" (.denyAll [])
    ¬ ∃ q, policyFromRows [policyToJson p] = .ok [q] ∧ ∀ groups userId action row,
      ((q.policy.bindMemberGroups groups).toSearchFilter userId action).matches row
        = ((p.policy.bindMemberGroups groups).toSearchFilter userId action).matches row := by
  intro p hkept
  obtain ⟨q, hq, hsame⟩ := hkept
  rw [policyFromRows_toJson] at hq
  cases hq
  have hplain : p.policy.Plain := trivial
  refine (@Policy.matches_reread_iff TextRules.ascii _ hplain).mp (fun userId action row _ => ?_)
    ⟨7, .head _⟩
  rw [← policy_reread]
  exact hsame [] userId action row

end StoredPolicy

end Resourcey
