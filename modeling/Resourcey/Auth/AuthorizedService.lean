import Resourcey.Auth.Policy
import Resourcey.Core.Interface
import Resourcey.Logic.Alike

/-!
# The authorized service

`AuthorizedService` puts the policies of a principal before a service. An update, a delete, a search
and a count are passed on with the policies' filter folded into their condition; a read and a
batch-read are passed on and then looked at. The inner service is any that honours filters: what it
answers is made of the rows that the filter matches, and it writes only such a row
(`FilteringService`).

The principal's own rows are all that a call depends on; `Auth.OutOfScope` makes that precise.
-/

namespace Resourcey

/-! ## The inner service -/

/-- The rows of a store, each under its own identifier. -/
structure KeyedRows (α : Type) (idOf : α → Value) where
  rows : List α
  nodup : (rows.map idOf).Nodup

namespace KeyedRows

variable {α : Type} {idOf : α → Value}

/-- The row of an identifier. -/
def find (s : KeyedRows α idOf) (id : Value) : Option α := s.rows.find? fun r => idOf r = id

theorem find_eq_some_iff {s : KeyedRows α idOf} {id : Value} {r : α} :
    s.find id = some r ↔ r ∈ s.rows ∧ idOf r = id := by
  constructor
  · intro h
    have hid := List.find?_some h
    exact ⟨List.mem_of_find?_eq_some h, of_decide_eq_true hid⟩
  · rintro ⟨hr, rfl⟩
    have hsome : (s.find (idOf r)).isSome := List.find?_isSome.mpr ⟨r, hr, decide_eq_true rfl⟩
    obtain ⟨r', hr'⟩ := Option.isSome_iff_exists.mp hsome
    have hid := List.find?_some hr'
    rw [hr', List.inj_on_of_nodup_map s.nodup (List.mem_of_find?_eq_some hr') hr
      (of_decide_eq_true hid)]

/-- A row in the place of the one with its identifier. -/
def modify (s : KeyedRows α idOf) (r : α) : KeyedRows α idOf where
  rows := s.rows.map fun r' => if idOf r' = idOf r then r else r'
  nodup := by
    have hids : (s.rows.map fun r' => if idOf r' = idOf r then r else r').map idOf
        = s.rows.map idOf := by
      rw [List.map_map]
      refine List.map_congr_left fun r' _ => ?_
      rw [Function.comp_apply]
      split
      · next h => exact h.symm
      · rfl
    rw [hids]
    exact s.nodup

/-- The rows without that of an identifier. -/
def erase (s : KeyedRows α idOf) (id : Value) : KeyedRows α idOf where
  rows := s.rows.filter fun r => idOf r ≠ id
  nodup := s.nodup.sublist (List.filter_sublist.map idOf)

end KeyedRows

/-- A service that honours filters: what it makes of the rows that a filter matches, or of the
matching row that a write names. It raises what it likes, but it knows of no other row. -/
structure FilteringService (α κ π φ : Type) where
  idOf : α → Value
  toDto : α → Subject
  payloadId : π → Value
  create : φ → π → KeyedRows α idOf → Except ResourceyError (α × KeyedRows α idOf)
  update : φ → π → SearchFilter → Except TypeError (Option α) → Except ResourceyError (Option α)
  delete : Value → SearchFilter → Except TypeError (Option α) → Except ResourceyError Bool
  search : SearchFilter → Option SortOrder → Option κ → ℕ → Except TypeError (List α) →
    Except ResourceyError (Page α κ)
  count : SearchFilter → Except TypeError (List α) → Except ResourceyError ℕ
  admitsEdit : Edit π → Except ResourceyError Unit
  update_some : ∀ {env payload f named r}, update env payload f named = .ok (some r) →
    ∃ r', named = .ok (some r') ∧ idOf r = idOf r'
  delete_true : ∀ {id f named}, delete id f named = .ok true → ∃ r, named = .ok (some r)

namespace FilteringService

variable {α κ π φ : Type} [TextRules] (i : FilteringService α κ π φ)

/-- The rows that a filter matches. -/
def matching (f : SearchFilter) : List α → Except TypeError (List α)
  | [] => .ok []
  | r :: rows => do
    if ← f.matches (i.toDto r) then return r :: (← matching f rows) else matching f rows

/-- The row of an identifier, if a filter matches it. -/
def named (f : SearchFilter) (id : Value) (s : KeyedRows α i.idOf) : Except TypeError (Option α) :=
  match s.find id with
  | none => .ok none
  | some r => return if ← f.matches (i.toDto r) then some r else none

/-- The store after an update, and its result. -/
def updateRows (env : φ) (s : KeyedRows α i.idOf) (payload : π) (f : SearchFilter) :
    Except ResourceyError (Option α) × KeyedRows α i.idOf :=
  match i.update env payload f (i.named f (i.payloadId payload) s) with
  | .ok (some r) => (.ok (some r), s.modify r)
  | result => (result, s)

/-- The store after a delete, and its result. -/
def deleteRows (s : KeyedRows α i.idOf) (id : Value) (f : SearchFilter) :
    Except ResourceyError Bool × KeyedRows α i.idOf :=
  match i.delete id f (i.named f id s) with
  | .ok true => (.ok true, s.erase id)
  | result => (result, s)

/-- One edit of a batch. Without a condition every row will do. -/
def applyEdit (env : φ) (s : KeyedRows α i.idOf) (edit : Edit π) :
    Except ResourceyError (Option α) × KeyedRows α i.idOf :=
  match i.admitsEdit edit, edit with
  | .error e, _ => (.error e, s)
  | .ok (), .create payload =>
    match i.create env payload s with
    | .error e => (.error e, s)
    | .ok (r, s) => (.ok (some r), s)
  | .ok (), .update payload condition => i.updateRows env s payload (condition.getD .all)
  | .ok (), .delete id condition =>
    let (deleted, s) := i.deleteRows s id (condition.getD .all)
    (deleted.map fun _ => none, s)

/-- `apply_edits`: one edit after the other, until one raises. -/
def applyEdits (s : KeyedRows α i.idOf) : List (φ × Edit π) →
    Except ResourceyError (List (Option α)) × KeyedRows α i.idOf
  | [] => (.ok [], s)
  | (env, edit) :: edits =>
    match i.applyEdit env s edit with
    | (.error e, s) => (.error e, s)
    | (.ok result, s) =>
      let (results, s) := applyEdits s edits
      (results.map (result :: ·), s)

end FilteringService

/-! ## The wrapper -/

/-- `AuthorizedService`. -/
structure AuthorizedService (α κ π φ : Type) where
  inner : FilteringService α κ π φ
  policies : List Policy
  userId : Option ℕ
  resourceName : String
  customActions : List String := []

/-- What a call returns. -/
inductive ServiceReply (α κ : Type) where
  | item (item : α)
  | deleted
  | page (page : Page α κ)
  | count (count : ℕ)
  | items (items : List (Option α))
  deriving DecidableEq

/-- `_combine`. -/
def combine (policyFilter : SearchFilter) : Option SearchFilter → SearchFilter
  | none => policyFilter
  | some condition => SearchFilter.and_ [policyFilter, condition]

/-- `isinstance(filt, NoMatchFilter)`. -/
def SearchFilter.isNoMatch : SearchFilter → Bool
  | .noMatch => true
  | _ => false

/-- The results of the edits that were passed on, in their places; the others miss. -/
def spread {α : Type} : List Bool → List (Option α) → List (Option α)
  | true :: flags, result :: results => result :: spread flags results
  | false :: flags, results => none :: spread flags results
  | _, _ => []

/-- Results of edits that were all passed on are the results of the batch. -/
theorem spread_true {α ι : Type} {edits : List ι} {results : List (Option α)}
    (h : results.length = edits.length) : spread (edits.map fun _ => true) results = results := by
  induction edits generalizing results with
  | nil => exact (List.length_eq_zero_iff.mp h).symm
  | cons e edits ih =>
      cases results with
      | nil => cases h
      | cons result results => exact congrArg (result :: ·) (ih (Nat.succ.inj h))

/-- If none was passed on, every edit misses. -/
theorem spread_nil {α ι : Type} {flag : ι → Bool} {edits : List ι}
    (h : ∀ e ∈ edits, flag e = false) :
    spread (edits.map flag) ([] : List (Option α)) = edits.map fun _ => none := by
  induction edits with
  | nil => rfl
  | cons e edits ih =>
      obtain ⟨he, hedits⟩ := List.forall_mem_cons.mp h
      rw [List.map_cons, he, List.map_cons]
      exact congrArg (none :: ·) (ih hedits)

namespace AuthorizedService

variable {α κ π φ : Type} (a : AuthorizedService α κ π φ)

/-- The rows of the inner service. -/
abbrev Rows : Type := KeyedRows α a.inner.idOf

/-- `_permission_filter`. -/
def permission (action : ActionName) : SearchFilter := permissionFilter a.policies a.userId action

/-- The message of an action that is not declared. -/
def undeclared (action : String) : String :=
  a.resourceName ++ " does not declare the custom action '" ++ action ++ "'; declared: [" ++
    ", ".intercalate ((a.customActions.dedup.insertionSort (· ≤ ·)).map fun x => "'" ++ x ++ "'") ++
    "]. Add it to get_custom_actions()."

/-- The edit that is passed on for one of a batch, if it is permitted. -/
def permitted (env : φ) : Edit π → Option (φ × Edit π)
  | .create payload =>
    if (a.permission (.standard .create)).isNoMatch then none else some (env, .create payload)
  | .update payload condition =>
    if a.inner.payloadId payload = .none then none
    else some (env, .update payload (some (combine (a.permission (.standard .update)) condition)))
  | .delete id condition =>
    if id = .none then none
    else some (env, .delete id (some (combine (a.permission (.standard .delete)) condition)))

variable [TextRules]

/-- Whether the principal may act on a row. -/
def admits (action : ActionName) (r : α) : Except ResourceyError Bool :=
  ((a.permission action).matches (a.inner.toDto r)).mapError .typeError

/-- `read`, and what `authorize` does of an action that is declared. -/
def readAs (action : ActionName) (s : a.Rows) (id : Value) : Except ResourceyError α :=
  match s.find id with
  | none => .error (.notFound id)
  | some r => do if ← a.admits action r then return r else throw (.notFound id)

/-- One position of `batch_read`. -/
def batchReadOne (s : a.Rows) (id : Value) : Except ResourceyError (Option α) :=
  match s.find id with
  | none => return none
  | some r => return if ← a.admits (.standard .batchRead) r then some r else none

/-- `apply_edits`. -/
def applyEdits (s : a.Rows) (edits : List (φ × Edit π)) :
    Except ResourceyError (List (Option α)) × a.Rows :=
  let passed := edits.map fun e => a.permitted e.1 e.2
  if passed.filterMap id = [] then (.ok (edits.map fun _ => none), s)
  else
    let (edited, s) := a.inner.applyEdits s (passed.filterMap id)
    (edited.map (spread (passed.map Option.isSome)), s)

/-- A call: what it returns or raises, and the store after it. -/
def call (s : a.Rows) : ServiceCall κ π φ → Except ResourceyError (ServiceReply α κ) × a.Rows
  | .create env payload =>
    if (a.permission (.standard .create)).isNoMatch then
      (.error (.forbidden a.resourceName Action.create.value), s)
    else
      match a.inner.create env payload s with
      | .error e => (.error e, s)
      | .ok (r, s) => (.ok (.item r), s)
  | .read id => ((a.readAs (.standard .read) s id).map .item, s)
  | .update env payload condition =>
    let (updated, s) := a.inner.updateRows env s payload
      (combine (a.permission (.standard .update)) condition)
    (do match ← updated with
      | none => throw (.notFound (a.inner.payloadId payload))
      | some r => return .item r, s)
  | .delete id condition =>
    let (deleted, s) := a.inner.deleteRows s id
      (combine (a.permission (.standard .delete)) condition)
    (do if ← deleted then return .deleted else throw (.notFound id), s)
  | .search searchFilter sort cursor limit =>
    let f := combine (a.permission (.standard .search)) searchFilter
    ((a.inner.search f sort cursor limit (a.inner.matching f s.rows)).map .page, s)
  | .count searchFilter =>
    let f := combine (a.permission (.standard .count)) searchFilter
    ((a.inner.count f (a.inner.matching f s.rows)).map .count, s)
  | .batchRead ids => ((ids.mapM (a.batchReadOne s)).map .items, s)
  | .authorize action id =>
    if action ∉ a.customActions then (.error (.config (a.undeclared action)), s)
    else ((a.readAs (.custom action) s id).map .item, s)
  | .applyEdits edits =>
    let (results, s) := a.applyEdits s edits
    (results.map .items, s)

/-- A sequence of calls: what each returns or raises, and the store after all. -/
def run (s : a.Rows) :
    List (ServiceCall κ π φ) → List (Except ResourceyError (ServiceReply α κ)) × a.Rows
  | [] => ([], s)
  | c :: calls =>
    let (reply, s) := a.call s c
    let (replies, s) := run s calls
    (reply :: replies, s)

end AuthorizedService

end Resourcey
