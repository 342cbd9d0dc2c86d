import Resourcey.Core.Interface
import Resourcey.Core.Listing
import Resourcey.Logic.StableSort

/-!
# The list service

The actions of `ListService`, which only reads. It filters, orders and pages the models of a
resource in memory. Every comparison is Python's, so each of them may raise: a filter that compares
a null, two sort values of different types, a cursor whose key is of another type than the field.
The listing is ordered by two stable sorts, by identifier and then by the sort field, and sought by
a third comparison of its own, `afterCursorItem`.
-/

namespace Resourcey

open StableSort

/-! ## The reference order -/

/-- `CompareResult`. -/
inductive CompareResult where
  | less
  | greater
  | same
  deriving DecidableEq, Repr

/-- `_reverse`. -/
def CompareResult.reverse : CompareResult → CompareResult
  | .less => .greater
  | .greater => .less
  | .same => .same

/-- `_sorts_first`: null precedes every other value. -/
def sortsFirst (left right : Value) : Except TypeError Bool :=
  if left = .none then .ok (right ≠ .none)
  else if right = .none then .ok false
  else OrderOp.lt.compare left right

/-- `AttrSortOrder.compare`. -/
def SortOrder.compare (s : SortOrder) (a b : String → Value) : Except TypeError CompareResult :=
  if (a s.attrName).pyEq (b s.attrName) then .ok .same
  else do
    let result := if ← sortsFirst (a s.attrName) (b s.attrName) then .less else .greater
    return if s.descending then CompareResult.reverse result else result

/-! ## Comparisons of the service -/

/-- `_ascending_key`. -/
def ascendingKey (v : Value) : Bool × Value := (v ≠ .none, v)

/-- Python's `(a, v) < (b, w)`: the first components that differ decide. -/
def tupleLt (p q : Bool × Value) : Except TypeError Bool :=
  if p.1 ≠ q.1 then .ok (!p.1 && q.1)
  else if p.2.pyEq q.2 then .ok false
  else OrderOp.lt.compare p.2 q.2

/-- `_after_cursor_item`. -/
def afterCursorItem (key id cursorKey cursorId : Value) (ascending : Bool) :
    Except TypeError Bool :=
  if ascending then
    if cursorKey = .none then
      if key ≠ .none then .ok true else OrderOp.gt.compare id cursorId
    else if key = .none then .ok false
    else do
      if ← OrderOp.gt.compare key cursorKey then return true
      else if key.pyEq cursorKey then OrderOp.gt.compare id cursorId
      else return false
  else
    if cursorKey = .none then
      if key = .none then OrderOp.gt.compare id cursorId else .ok false
    else if key = .none then .ok true
    else do
      if ← OrderOp.lt.compare key cursorKey then return true
      else if key.pyEq cursorKey then OrderOp.gt.compare id cursorId
      else return false

/-- `[x for x in xs if test(x)]`, which raises when the test does. -/
def comprehension {α : Type} (test : α → Except TypeError Bool) :
    List α → Except TypeError (List α)
  | [] => .ok []
  | x :: xs => do
    let b ← test x
    let xs ← comprehension test xs
    return if b then x :: xs else xs

/-! ## The service -/

/-- What a resource says about its list: the identifier field, and the model of an item by
attribute (`_to_dto`). -/
structure ListResource (ρ : Type) where
  idField : String
  model : ρ → String → Value

namespace ListResource

variable {ρ κ : Type} (l : ListResource ρ)

/-- The identifier of an item. -/
def idOf (r : ρ) : Value := l.model r l.idField

/-- `_order`. The reversed sort keeps equal elements in their order, as the plain one does. -/
def order (models : List ρ) (sort : Option SortOrder) : Except TypeError (List ρ) := do
  let ordered ← sortM (fun a b => OrderOp.lt.compare (l.idOf a) (l.idOf b)) models
  match sort with
  | none => return ordered
  | some s =>
    if s.descending then
      let reversed ← sortM (fun a b => tupleLt (ascendingKey (l.model a s.attrName))
        (ascendingKey (l.model b s.attrName))) ordered.reverse
      return reversed.reverse
    else sortM (fun a b => tupleLt (ascendingKey (l.model a s.attrName))
      (ascendingKey (l.model b s.attrName))) ordered

/-- What the cursor past an item says. -/
def cursorState (sort : Option SortOrder) (r : ρ) : CursorState where
  sortField := sort.map (·.attrName)
  ascending := !isDescending sort
  sortKey := match sort with
    | none => l.idOf r
    | some s => l.model r s.attrName
  idValue := l.idOf r

/-- `_next_cursor`. -/
def nextCursor (codec : CursorCodec κ) (sort : Option SortOrder) (r : ρ) : κ :=
  codec.encode (l.cursorState sort r)

/-- `_decode`: a cursor built for another sort is refused. -/
def decode (codec : CursorCodec κ) (cursor : κ) (sort : Option SortOrder) :
    Except ResourceyError CursorState :=
  match codec.decode cursor with
  | .error message => .error (.invalidInput ("Invalid or tampered cursor: " ++ message))
  | .ok c =>
    if c.sortField ≠ sort.map (·.attrName) ∨ c.ascending ≠ !isDescending sort then
      .error (.invalidInput ("Cursor was built for a different sort than the current request; " ++
        "start a new search without a cursor when changing sort."))
    else .ok c

/-- The test `_after_cursor` keeps a model by. -/
def isAfterCursor (c : CursorState) (sort : Option SortOrder) (r : ρ) : Except TypeError Bool :=
  match sort with
  | none =>
    if c.ascending then OrderOp.gt.compare (l.idOf r) c.idValue
    else OrderOp.lt.compare (l.idOf r) c.idValue
  | some s =>
    if s.attrName = l.idField then
      if c.ascending then OrderOp.gt.compare (l.idOf r) c.idValue
      else OrderOp.lt.compare (l.idOf r) c.idValue
    else afterCursorItem (l.model r s.attrName) (l.idOf r) c.sortKey c.idValue c.ascending

/-- `_after_cursor`, with no cursor the models themselves. -/
def afterCursor (codec : CursorCodec κ) (models : List ρ) (cursor : Option κ)
    (sort : Option SortOrder) : Except ResourceyError (List ρ) :=
  match cursor with
  | none => .ok models
  | some cursor => do
    let c ← decode codec cursor sort
    (comprehension (l.isAfterCursor c sort) models).mapError .typeError

variable [TextRules]

/-- The models that match the filter. -/
def matchingModels (rows : List ρ) (searchFilter : Option SearchFilter) :
    Except TypeError (List ρ) :=
  match searchFilter with
  | none => .ok rows
  | some f => comprehension (fun r => f.matches (.object (l.model r))) rows

/-- `ListService.search`. -/
def search (codec : CursorCodec κ) (rows : List ρ) (searchFilter : Option SearchFilter)
    (sort : Option SortOrder) (cursor : Option κ) (limit : ℕ) :
    Except ResourceyError (Page ρ κ) := do
  let models ← (l.matchingModels rows searchFilter).mapError .typeError
  let models ← (l.order models sort).mapError .typeError
  let models ← l.afterCursor codec models cursor sort
  return Page.ofFound limit (l.nextCursor codec sort) models

/-- `ListService.count`. -/
def count (rows : List ρ) (searchFilter : Option SearchFilter) : Except ResourceyError ℕ := do
  let models ← (l.matchingModels rows searchFilter).mapError .typeError
  return models.length

omit [TextRules] in
/-- `ListService.read`. -/
def read (rows : List ρ) (id : Value) : Except ResourceyError ρ :=
  match rows.find? fun r => (l.idOf r).pyEq id with
  | some r => .ok r
  | none => .error (.notFound id)

omit [TextRules] in
/-- `ListService.batch_read`: of two items with one identifier the later stays. -/
def batchRead (rows : List ρ) (ids : List Value) : List (Option ρ) :=
  ids.map fun id => rows.reverse.find? fun r => (l.idOf r).pyEq id

/-- `ListService`, which has no writes. -/
def service {π φ : Type} (codec : CursorCodec κ) : Service (List ρ) ρ κ π φ where
  call
    | .read id => fun rows => ((l.read rows id).mapError .raised, rows)
    | .search f sort cursor limit => fun rows =>
      ((l.search codec rows f sort cursor limit).mapError .raised, rows)
    | .count f => fun rows => ((l.count rows f).mapError .raised, rows)
    | .batchRead ids => fun rows => (.ok (l.batchRead rows ids), rows)
    | .create _ _ | .update _ _ _ | .delete _ _ | .authorize _ _ | .applyEdits _ =>
      fun rows => (.error .notImplemented, rows)

end ListResource

end Resourcey
