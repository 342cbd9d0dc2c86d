import Resourcey.Auth.Policy
import Resourcey.Http.BatchRoutes
import Resourcey.Http.GetRoutes
import Resourcey.Sql.ColumnWrites
import Resourcey.Util.QuerySurface

/-!
# Resource views

A view narrows a resource: by its overrides fields leave the response shapes, and the filters and
the sorts of its routes are those of its own read model. The service behind the routes is the inner
one, which converts a filter with the queryable fields of the inner resource. `handle` is what the
routes of a view make of a request: those of its resource, and the nodes of `/batch-edit` that name
it.
-/

namespace Resourcey

open SearchFilter

/-- The response shapes of a resource. -/
inductive ResponseShape where
  | create
  | read
  | update
  | search
  deriving DecidableEq, Repr

/-- `ResourceView`, and what the inner DTO says of a field: its annotation, if its values are
scalars, and the shapes it is in. An override sets some of the flags of a field that is not the
identifier, and turns none back on. -/
structure ResourceView (φ : Type) where
  inner : MappedModel φ
  annotation : String → Option Kind
  innerShape : ResponseShape → String → Bool
  fieldOverrides : List (String × (ResponseShape → Option Bool))
  actions : List Action
  id_readable : innerShape .read inner.idField.attr = true
  known : ∀ o ∈ fieldOverrides, ∃ f ∈ inner.fields, f.attr = o.1
  id_not_overridden : ∀ o ∈ fieldOverrides, o.1 ≠ inner.idField.attr
  no_rewidening : ∀ o ∈ fieldOverrides, ∀ shape, o.2 shape = some true →
    innerShape shape o.1 = true
  actions_subset : actions ⊆ inner.supported

/-- An item as a client sees it. -/
abbrev Fields := List (String × Value)

/-- `RequestLimitsConfig`. -/
structure ViewLimits extends RequestLimits where
  maxBatchEdits : ℕ := 100

/-- A request to the routes of a view. The filter parameters are query parameters by key, their
values coerced to the type of the attribute. A payload holds the members that the client supplied,
and of an edit of `/batch-edit` that updates, the identifier too. -/
inductive ViewRequest (κ φ : Type) where
  | create (env : φ) (payload : String → Option Value)
  | read (id : Value)
  | update (env : φ) (id : Value) (payload : String → Option Value)
  | delete (id : Value)
  | search (filters : List (String × Value)) (sort : Option String) (desc : Bool)
      (cursor : Option κ) (limit : ℕ)
  | count (filters : List (String × Value))
  | batchRead (ids : List Value)
  | batchEdit (edits : List (φ × Edit (String → Option Value)))

/-- The body of a response. -/
inductive ViewBody (κ : Type) where
  | item (item : Option Fields)
  | deleted
  | page (items : List Fields) (limit : ℕ) (nextCursor : Option κ)
  | count (count : ℕ)
  | items (items : List (Option Fields))
  | edits (results : List (EditKind × Option Fields))
  deriving DecidableEq

/-- A response. A route that the view does not mount has none of its own. -/
inductive ViewResponse (κ : Type) where
  | noRoute
  | ok (body : ViewBody κ)
  | error (error : ResourceyError)
  deriving DecidableEq

/-- The standard action of an edit. -/
def EditKind.action : EditKind → Action
  | .create => .create
  | .update => .update
  | .delete => .delete

/-- The repr of a list of names. -/
def reprNames (names : List String) : String :=
  "[" ++ ", ".intercalate (names.map fun name => "'" ++ name ++ "'") ++ "]"

namespace ResourceView

variable {φ κ : Type} (v : ResourceView φ)

/-! ## The surface -/

/-- Whether a field is in a response shape of the view. -/
def shape (s : ResponseShape) (name : String) : Bool :=
  ((v.fieldOverrides.lookup name).bind fun flags => flags s).getD (v.innerShape s name)

/-- `get_queryable_fields` and `get_sortable_fields`: the fields of the read model. -/
def readField (name : String) : Bool :=
  (v.inner.fields.any fun f => f.attr = name) && v.shape .read name

/-- `get_filter_operators`. -/
def filterOperators (name : String) : List String :=
  if v.readField name then (v.annotation name).elim [] operatorsForAnnotation else []

/-- `resolve_sort_order`. -/
def resolveSortOrder (sort : Option String) (desc : Bool) :
    Except ResourceyError (Option SortOrder) :=
  match sort with
  | none | some "" => .ok none
  | some name =>
    if v.readField name then .ok (some ⟨name, desc⟩)
    else .error (.invalidInput ("Unknown or non-sortable sort field '" ++ name ++ "'"))

/-- Whether a query parameter is one of the filter surface: no operator has a separator in it, so
the last one of a key ends its attribute. -/
def knownFilter (key : String) : Bool :=
  (clauseName key).any fun (name, op) => op ∈ v.filterOperators name

/-- `_resolve_filters`. A known operator has a leaf. -/
def resolveFilters (filters : List (String × Value)) :
    Except ResourceyError (Option SearchFilter) :=
  let present := filters.filter fun p => decide (separator <:+: p.1.toList)
  if present = [] then .ok none
  else if v.inner.fields.all fun f => (v.filterOperators f.attr).isEmpty then
    .error (.invalidInput ("Filter parameters " ++
      reprNames ((present.map (·.1)).insertionSort (· ≤ ·)) ++
      " are not supported on this resource"))
  else
    let unknown := present.filter fun p => !v.knownFilter p.1
    if unknown ≠ [] then
      .error (.invalidInput ("Unknown filter parameters " ++
        reprNames ((unknown.map (·.1)).insertionSort (· ≤ ·))))
    else .ok (buildFilter (present.filterMap fun p =>
      (clauseName p.1).map fun (name, op) => (name, op, p.2)))

/-- `_project` of a row's DTO onto a response model. -/
def project (s : ResponseShape) (row : SqlRow) : Fields :=
  (v.inner.fields.filter fun f => v.shape s f.attr).map fun f => (f.attr, row f.column)

/-! ## The service -/

/-- The check of `ViewService.apply_edits`. The model of the body refuses such an edit before. -/
def checkEdits {π : Type} : List (Edit π) → Except ResourceyError Unit
  | [] => .ok ()
  | e :: edits =>
    let action := e.kind.action
    if action ∉ v.actions then
      .error (.invalidInput ("a batch cannot " ++ action.value ++ ": " ++ action.value ++
        " is not exposed"))
    else checkEdits edits

/-- `_edit_node`: the DTO of an item. The condition is passed on as it is. -/
def editNode : Edit (String → Option Value) → Edit (List (String × Value))
  | .create item => .create (v.inner.payloadValues item)
  | .update item condition => .update (v.inner.payloadValues item) condition
  | .delete id condition => .delete id condition

/-- `_project_edit_result`. -/
def projectEditResult : EditKind → Option SqlRow → Option Fields
  | .create, result => result.map (v.project .create)
  | .update, result => result.map (v.project .update)
  | .delete, _ => none

variable [TextRules]

/-- `ViewService.apply_edits`. -/
def applyEdits (rows : List SqlRow) (edits : List (φ × Edit (List (String × Value)))) :
    Except ResourceyError (List (Option SqlRow) × List SqlRow) := do
  v.checkEdits (edits.map (·.2))
  v.inner.resource.applyEdits v.inner.resource.writeActions rows edits

/-! ## The routes -/

variable (codec : CursorCodec κ) (limits : ViewLimits)

/-- What the handler of a request's route answers, and the table it leaves. -/
def answer (rows : List SqlRow) :
    ViewRequest κ φ → Except ResourceyError (ViewBody κ × List SqlRow)
  | .create env payload => do
    let (r, rows) ← v.inner.resource.create env rows (v.inner.payloadValues payload)
    return (.item (some (v.project .create r)), rows)
  | .read id => do
    let r ← v.inner.resource.read rows id
    return (.item (some (v.project .read r)), rows)
  | .update env id payload => do
    -- `_update_dto` sets the identifier of the path.
    let payload := fun name => if name = v.inner.idField.attr then some id else payload name
    let (r, rows) ← v.inner.resource.update env rows (v.inner.payloadValues payload) none
    return (.item (r.map (v.project .update)), rows)
  | .delete id => do
    let (_, rows) ← v.inner.resource.delete rows id none
    return (.deleted, rows)
  | .search filters sort desc cursor limit => do
    checkSearchLimit limit limits.maxSearchLimit
    let f ← v.resolveFilters filters
    let sort ← v.resolveSortOrder sort desc
    let page ← v.inner.resource.search codec rows f sort cursor limit
    return (.page (page.items.map (v.project .search)) page.limit page.nextCursor, rows)
  | .count filters => do
    let f ← v.resolveFilters filters
    return (.count (← v.inner.resource.count rows f), rows)
  | .batchRead ids => do
    checkBatchReadIds ids.length limits.maxBatchReadIds
    return (.items ((v.inner.resource.batchRead rows ids).map (Option.map (v.project .search))),
      rows)
  | .batchEdit edits => do
    if limits.maxBatchEdits < edits.length then
      throw (.invalidInput ("batch-edit accepts at most " ++ toString limits.maxBatchEdits ++
        " edits per request; got " ++ toString edits.length ++ "."))
    let nodes := edits.map fun e => (e.1, v.editNode e.2)
    let (results, rows) ← v.applyEdits rows nodes
    return (.edits ((nodes.zip results).map fun p =>
      (p.1.2.kind, v.projectEditResult p.1.2.kind p.2)), rows)

omit [TextRules] in
/-- Whether the route of a request is mounted. -/
def mounts : ViewRequest κ φ → Bool
  | .create _ _ => Action.create ∈ v.actions
  | .read _ => Action.read ∈ v.actions
  | .update _ _ _ => Action.update ∈ v.actions
  | .delete _ => Action.delete ∈ v.actions
  | .search _ _ _ _ _ => Action.search ∈ v.actions
  | .count _ => Action.count ∈ v.actions
  | .batchRead _ => Action.batchRead ∈ v.actions
  | .batchEdit _ => Action.create ∈ v.actions ∨ Action.update ∈ v.actions ∨ Action.delete ∈ v.actions

/-- The response to a request and the table after it. What raises is rolled back. -/
def handle (rows : List SqlRow) (request : ViewRequest κ φ) : ViewResponse κ × List SqlRow :=
  if v.mounts request then
    match v.answer codec limits rows request with
    | .ok (body, rows) => (.ok body, rows)
    | .error e => (.error e, rows)
  else (.noRoute, rows)

/-- The responses to a sequence of requests. -/
def handleAll (rows : List SqlRow) : List (ViewRequest κ φ) → List (ViewResponse κ) × List SqlRow
  | [] => ([], rows)
  | request :: requests =>
    let (response, rows) := v.handle codec limits rows request
    let (responses, rows) := handleAll rows requests
    (response :: responses, rows)

end ResourceView

end Resourcey
