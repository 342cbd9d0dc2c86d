import Resourcey.Core.Interface
import Resourcey.Mongo.MongoService

/-!
# Writing to a Mongo collection

The other actions of `MongoService`. A write is one atomic operation on one document: its query is
the identifier together with the condition, and it writes or deletes the first document that the
query finds. A batch is not atomic, so what the edits before one that raises wrote stays.
-/

namespace Resourcey

/-- What a resource says about writing its collection. `withDefaults` fills the fields a payload
omits for an operation, `hasData` is whether it then has a field to write besides the identifier,
`write` sets those fields of a document and `insert` is a new one. -/
structure MongoResource (ρ π φ : Type) extends MongoCollection ρ where
  name : String
  payloadId : π → Value
  withDefaults : φ → Action → π → π
  hasData : π → Bool
  write : π → ρ → ρ
  insert : φ → π → ρ
  supported : List Action

/-- The class name of a node, for an object filter that of its base. -/
def SearchFilter.typeName : SearchFilter → String
  | .all => "AllFilter"
  | .noMatch => "NoMatchFilter"
  | .and _ => "AndFilter"
  | .or _ => "OrFilter"
  | .not _ => "NotFilter"
  | .attr _ _ => "AttrFilter"
  | .eq _ => "EqFilter"
  | .order op _ => SearchFilter.kindOfOrder op
  | .contains _ => "ContainsFilter"
  | .isIn _ => "InFilter"
  | .object _ _ => "BaseObjectFilter"
  | .custom kind _ => kind

/-- `find_one_and_update`: the first document that is found, as it is after the update. -/
def updateFirst {ρ : Type} (found : ρ → Bool) (write : ρ → ρ) : List ρ → Option ρ × List ρ
  | [] => (none, [])
  | r :: rows =>
    if found r then (some (write r), write r :: rows)
    else
      let (result, rows) := updateFirst found write rows
      (result, r :: rows)

/-- Where nothing is found nothing is written. -/
theorem updateFirst_of_not_found {ρ : Type} {found : ρ → Bool} (h : ∀ r, found r = false)
    (write : ρ → ρ) (rows : List ρ) : updateFirst found write rows = (none, rows) := by
  induction rows with
  | nil => rfl
  | cons r rows ih => simp [updateFirst, h r, ih]

namespace MongoResource

variable {ρ κ π φ : Type} (m : MongoResource ρ π φ)

/-- `create`, raising on a duplicate key. -/
def create (env : φ) (rows : List ρ) (payload : π) : Except ResourceyError (ρ × List ρ) :=
  let r := m.insert env (m.withDefaults env .create payload)
  if rows.any fun r' => m.idOf r' = m.idOf r then .error (.conflict (m.idOf r))
  else .ok (r, rows ++ [r])

variable [TextRules]

/-- The query for an identifier. -/
def idQuery (id : Value) : MongoQuery := .dict [(mongoIdField, .eq (encodeValue id))]

/-- `read`. -/
def read (rows : List ρ) (id : Value) : Except ResourceyError ρ :=
  match rows.find? fun r => (idQuery id).matches (m.document r) with
  | some r => .ok r
  | none => .error (.notFound id)

/-- `_unconvertible_condition`. -/
def unconvertibleCondition (condition : SearchFilter) : ResourceyError :=
  .unsupportedFilter ("A write's condition must be convertible to a Mongo query: the in-memory " ++
    "iteration fallback is read-only, so it is never used here. " ++ condition.typeName ++
    " has no rule; add one to " ++ m.name ++ ".get_filter_rules() to push it down.")

/-- `_write_query` and `_condition_query`. The scan is refused. -/
def writeQuery (id : Value) : Option SearchFilter → Except ResourceyError (Option MongoQuery)
  | none => .ok (some (idQuery id))
  | some condition =>
    match mongoCondition m.filterContext condition none false with
    | .error (.unsupportedFilter _) => .error (m.unconvertibleCondition condition)
    | q => q.map (mergeQuery (some (idQuery id)))

/-- `update`: an empty payload is a read under the condition. -/
def update (env : φ) (rows : List ρ) (payload : π) (condition : Option SearchFilter) :
    Except ResourceyError (Option ρ × List ρ) :=
  if m.payloadId payload = .none then
    .error (.service "update requires the identifier on the payload")
  else do
    let data := m.withDefaults env .update payload
    let query ← m.writeQuery (m.payloadId payload) condition
    if m.hasData data then
      return updateFirst (fun r => finds query (m.document r)) (m.write data) rows
    else return (rows.find? fun r => finds query (m.document r), rows)

/-- `delete`. -/
def delete (rows : List ρ) (id : Value) (condition : Option SearchFilter) :
    Except ResourceyError (Bool × List ρ) := do
  let query ← m.writeQuery id condition
  return (rows.any fun r => finds query (m.document r),
    rows.eraseP fun r => finds query (m.document r))

/-- `count`. A filter that does not convert counts the documents that match in memory, if the
resource opted into the scan. -/
def count (rows : List ρ) : Option SearchFilter → Except ResourceyError ℕ
  | none => .ok rows.length
  | some f =>
    match mongoCondition m.filterContext f none false with
    | .error (.unsupportedFilter message) =>
      if m.allowFilterIteration then (m.iteratedDocuments f rows).map List.length
      else .error (.unsupportedFilter message)
    | .error e => .error e
    | .ok q => .ok (rows.countP fun r => finds q (m.document r))

/-- `batch_read`: the documents, aligned with the identifiers. As many are fetched as there are
identifiers. -/
def batchRead (rows : List ρ) (ids : List Value) : List (Option ρ) :=
  let unique := ids.eraseDupsBy Value.pyEq
  let query := MongoQuery.dict [(mongoIdField, .isIn (unique.map encodeValue))]
  let found := (rows.filter fun r => query.matches (m.document r)).take unique.length
  ids.map fun id => found.reverse.find? fun r => (m.idOf r).pyEq (encodeValue id)

/-- One item of `apply_edits`, refused when the resource does not declare its action. -/
def applyEdit (env : φ) (rows : List ρ) : Edit π → Except ResourceyError (Option ρ × List ρ)
  | .create item =>
    if .create ∉ m.supported then
      .error (.invalidInput "a batch cannot create: create is not supported")
    else do
      let (r, rows) ← m.create env rows item
      return (some r, rows)
  | .update item condition =>
    if .update ∉ m.supported then
      .error (.invalidInput "a batch cannot update: update is not supported")
    else m.update env rows item condition
  | .delete id condition =>
    if .delete ∉ m.supported then
      .error (.invalidInput "a batch cannot delete: delete is not supported")
    else do
      let (_, rows) ← m.delete rows id condition
      return (none, rows)

/-- `apply_edits`. -/
def applyEdits (rows : List ρ) : List (φ × Edit π) →
    Except ResourceyError (List (Option ρ)) × List ρ
  | [] => (.ok [], rows)
  | (env, edit) :: edits =>
    match m.applyEdit env rows edit with
    | .error e => (.error e, rows)
    | .ok (result, rows) =>
      let (results, rows) := applyEdits rows edits
      (results.map (result :: ·), rows)

/-- `MongoService`. -/
def service (codec : CursorCodec κ) : Service (List ρ) ρ κ π φ where
  call
    | .create env payload => fun rows =>
      match m.create env rows payload with
      | .error e => (.error (.raised e), rows)
      | .ok (r, rows) => (.ok r, rows)
    | .read id => fun rows => ((m.read rows id).mapError .raised, rows)
    | .update env payload condition => fun rows =>
      match m.update env rows payload condition with
      | .error e => (.error (.raised e), rows)
      | .ok (result, rows) => (.ok result, rows)
    | .delete id condition => fun rows =>
      match m.delete rows id condition with
      | .error e => (.error (.raised e), rows)
      | .ok (deleted, rows) => (.ok deleted, rows)
    | .search f sort cursor limit => fun rows =>
      ((m.search codec rows f sort cursor limit).mapError .raised, rows)
    | .count f => fun rows => ((m.count rows f).mapError .raised, rows)
    | .batchRead ids => fun rows => (.ok (m.batchRead rows ids), rows)
    | .authorize _ _ => fun rows => (.error .notImplemented, rows)
    | .applyEdits edits => fun rows =>
      let (results, rows) := m.applyEdits rows edits
      (results.mapError .raised, rows)

end MongoResource

end Resourcey
