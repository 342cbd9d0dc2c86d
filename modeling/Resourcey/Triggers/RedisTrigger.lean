import Resourcey.Core.Service

/-!
# What a Redis trigger publishes

A trigger that is bound to a resource makes one event of every edit of an operation and its result:
a deletion is always announced, and a creation or an update where there is a result, with the
projection of the result onto the read model of the resource. A result that the read model does not
validate raises, and then the rest of the operation is not announced.

What `to_jsonable_python` makes of a value, and what a field of a read model makes of one, are
parameters.
-/

namespace Resourcey

/-- A DTO: the fields that it has, without those that are missing. -/
abbrev Dto := List (String × Value)

/-- `EventKind`. -/
inductive EventKind where
  | created
  | updated
  | deleted
  deriving DecidableEq

/-- `ResourceEvent`, but for its timestamp. -/
structure ResourceEvent where
  resource : String
  kind : EventKind
  id : Value
  item : Option Dto := none
  deriving DecidableEq

/-- A resource, as far as triggers go: its path, its identifier, the fields of its DTO with the
values that they hold, and those of its read model with what each makes of a value, as dumped. -/
structure TriggerTarget where
  path : String
  idField : String
  fields : List String
  holds : String → Value → Bool
  readFields : List String
  read : String → Value → Option Value
  idField_mem : idField ∈ fields
  readFields_subset : readFields ⊆ fields
  read_isSome : ∀ name ∈ readFields, ∀ v, holds name v = true → (read name v).isSome = true

/-- A row of a resource, which a successful write answers with. -/
def TriggerTarget.IsRow (R : TriggerTarget) (dto : Dto) : Prop :=
  dto.map Prod.fst = R.fields ∧ ∀ name v, dto.lookup name = some v → R.holds name v = true

/-- `read_response.model_validate`, as dumped. -/
def TriggerTarget.readResponse (R : TriggerTarget) (dto : Dto) : Option Dto :=
  R.readFields.mapM fun name => (dto.lookup name).bind fun v => (R.read name v).map (name, ·)

section
variable (toJsonable : Value → Value)

/-- `_project_item`. -/
def projectItem (bound : Option TriggerTarget) (dto : Dto) : Option Dto :=
  match bound with
  | none => some (dto.map fun (name, v) => (name, toJsonable v))
  | some R => R.readResponse dto

/-- The identifier in an event: that of the projection, or else the one of the result. -/
def eventId (idField : String) (item dto : Dto) : Value :=
  (item.lookup idField).getD (((dto.lookup idField).map toJsonable).getD .none)

/-- `_build_event`: an event, none for a miss, or the failure of the projection. -/
def buildEvent {π : Type} (resourcePath : String) (bound : Option TriggerTarget) (edit : Edit π)
    (result : Option Dto) : Except Unit (Option ResourceEvent) :=
  match edit, result with
  | .delete id _, _ => .ok (some
      { resource := resourcePath, kind := .deleted, id := toJsonable id })
  | _, none => .ok none
  | edit, some dto =>
    match projectItem toJsonable bound dto with
    | none => .error ()
    | some item => .ok (some
      { resource := resourcePath
        kind := if edit.created.isSome then .created else .updated
        id := eventId toJsonable (bound.elim "id" (·.idField)) item dto
        item := some item })

/-- The loop of `callback`: what becomes of each edit, up to one whose event cannot be made. -/
def buildEvents {π : Type} (resourcePath : String) (bound : Option TriggerTarget) :
    List (Edit π × Option Dto) → List (Edit π × Option Dto × Option ResourceEvent)
  | [] => []
  | (edit, result) :: operation =>
    match buildEvent toJsonable resourcePath bound edit result with
    | .error () => []
    | .ok event => (edit, result, event) :: buildEvents resourcePath bound operation

/-- The identifier of a row, as its resource shows it. -/
def TriggerTarget.shownId (R : TriggerTarget) (dto : Dto) : Option Value :=
  (dto.lookup R.idField).bind fun v =>
    if R.idField ∈ R.readFields then R.read R.idField v else some (toJsonable v)

end

/-! ## Projections -/

variable {R : TriggerTarget} {dto item : Dto} {name : String}

/-- A name that a DTO has is looked up in it. -/
theorem lookup_isSome_iff_mem : (dto.lookup name).isSome = true ↔ name ∈ dto.map Prod.fst := by
  rw [List.lookup_isSome_iff, List.mem_map]
  constructor
  · rintro ⟨entry, hmem, hname⟩
    exact ⟨entry, hmem, (beq_iff_eq.mp hname).symm⟩
  · rintro ⟨entry, hmem, rfl⟩
    exact ⟨entry, hmem, beq_self_eq_true _⟩

/-- What a traversal that names its values makes: the names that it visited, each with its value. -/
theorem mapM_named {names : List String} {f : String → Option Value}
    (h : (names.mapM fun name => (f name).map (name, ·)) = some item) :
    item.map Prod.fst = names ∧
      ∀ name, item.lookup name = if name ∈ names then f name else none := by
  induction names generalizing item with
  | nil =>
      cases h
      exact ⟨rfl, fun _ => rfl⟩
  | cons name names ih =>
      rw [List.mapM_cons] at h
      obtain ⟨entry, hentry, h⟩ := Option.bind_eq_some_iff.mp h
      obtain ⟨rest, hrest, h⟩ := Option.bind_eq_some_iff.mp h
      obtain ⟨v, hv, rfl⟩ := Option.map_eq_some_iff.mp hentry
      cases h
      obtain ⟨hnames, hlookup⟩ := ih hrest
      refine ⟨congrArg (name :: ·) hnames, fun other => ?_⟩
      rw [List.lookup_cons]
      rcases eq_or_ne other name with rfl | hne
      · simp [hv]
      · simp [beq_false_of_ne hne, hlookup, hne]

/-- A projection has exactly the fields of the read model, each with what the read model makes of
the value that the DTO has. -/
theorem TriggerTarget.readResponse_eq_some (h : R.readResponse dto = some item) :
    item.map Prod.fst = R.readFields ∧ ∀ name, item.lookup name =
      if name ∈ R.readFields then (dto.lookup name).bind (R.read name) else none := by
  have hnamed : (R.readFields.mapM fun name => ((dto.lookup name).bind (R.read name)).map
      (name, ·)) = some item := by
    rw [← h, TriggerTarget.readResponse]
    congr 1
    funext name
    cases dto.lookup name <;> rfl
  exact mapM_named hnamed

/-- A row of a resource has a projection onto its read model. -/
theorem TriggerTarget.IsRow.exists_readResponse (h : R.IsRow dto) :
    ∃ item, R.readResponse dto = some item := by
  obtain ⟨hfields, hholds⟩ := h
  have hall : ∀ name ∈ R.readFields, ∃ v, ((dto.lookup name).bind fun v =>
      (R.read name v).map (name, ·)) = some (name, v) := by
    intro name hname
    have hmem : name ∈ dto.map Prod.fst := hfields ▸ R.readFields_subset hname
    obtain ⟨v, hv⟩ := Option.isSome_iff_exists.mp (lookup_isSome_iff_mem.mpr hmem)
    obtain ⟨w, hw⟩ := Option.isSome_iff_exists.mp (R.read_isSome name hname v (hholds name v hv))
    exact ⟨w, by rw [hv, Option.bind_some, hw, Option.map_some]⟩
  unfold TriggerTarget.readResponse
  generalize R.readFields = names at hall
  induction names with
  | nil => exact ⟨[], rfl⟩
  | cons name names ih =>
      obtain ⟨⟨v, hv⟩, hrest⟩ := List.forall_mem_cons.mp hall
      obtain ⟨rest, hrest⟩ := ih hrest
      exact ⟨(name, v) :: rest, by rw [List.mapM_cons, hv, hrest]; rfl⟩

/-- The identifier in the event of a row of the bound resource is the one that it shows. -/
theorem TriggerTarget.IsRow.shownId_eq {toJsonable : Value → Value} (h : R.IsRow dto)
    (hitem : R.readResponse dto = some item) :
    R.shownId toJsonable dto = some (eventId toJsonable R.idField item dto) := by
  obtain ⟨v, hv⟩ : ∃ v, dto.lookup R.idField = some v := by
    rw [← Option.isSome_iff_exists, lookup_isSome_iff_mem, h.1]
    exact R.idField_mem
  rw [eventId, (R.readResponse_eq_some hitem).2 R.idField, TriggerTarget.shownId, hv]
  by_cases hmem : R.idField ∈ R.readFields
  · obtain ⟨w, hw⟩ := Option.isSome_iff_exists.mp
      (R.read_isSome R.idField hmem v (h.2 R.idField v hv))
    simp [hmem, hw]
  · simp [hmem]

end Resourcey
