import Resourcey.Auth.AuthorizedService

/-!
# The authorized service over any service

`AuthorizedService` as a wrapper: what `Auth.AuthorizedService` says over a service that honours
filters (`FilteringService`), said over any service of the interface. Over the former the two agree
(`service_eq_call`).
-/

namespace Resourcey

/-- What an `AuthorizedService` is built with. `toDto` is what a policy's filter looks at, and
`payloadId` the identifier that an update names. -/
structure Authorization (α π : Type) where
  policies : List Policy
  userId : Option ℕ
  resourceName : String
  customActions : List String := []
  responsePrivate : Bool := false
  toDto : α → Subject
  payloadId : π → Value

namespace Authorization

variable {σ α κ π φ : Type} (a : Authorization α π)

/-- `_permission_filter`. -/
def permission (action : ActionName) : SearchFilter := permissionFilter a.policies a.userId action

/-- The message of an action that is not declared. -/
def undeclared (action : String) : String :=
  a.resourceName ++ " does not declare the custom action '" ++ action ++ "'; declared: [" ++
    ", ".intercalate ((a.customActions.dedup.insertionSort (· ≤ ·)).map fun x => "'" ++ x ++ "'") ++
    "]. Add it to get_custom_actions()."

/-- The edit that is passed on for one of a batch, if it is permitted. -/
def permitted (env : φ) : Edit π → Option (φ × Edit π)
  | .create payload =>
    if (a.permission (.standard .create)).isNoMatch then none else some (env, .create payload)
  | .update payload condition =>
    if a.payloadId payload = .none then none
    else some (env, .update payload (some (combine (a.permission (.standard .update)) condition)))
  | .delete id condition =>
    if id = .none then none
    else some (env, .delete id (some (combine (a.permission (.standard .delete)) condition)))

variable [TextRules]

/-- Whether the principal may act on a row. -/
def admits (action : ActionName) (r : α) : Except ServiceFailure Bool :=
  ((a.permission action).matches (a.toDto r)).mapError (.raised ∘ .typeError)

/-- The row that a read returned, if the principal may act on it. -/
def screen (action : ActionName) (id : Value) (r : α) : Except ServiceFailure α := do
  if ← a.admits action r then return r else throw (.raised (.notFound id))

/-- One position of what a batch-read returned. -/
def screenItem : Option α → Except ServiceFailure (Option α)
  | none => return none
  | some r => return if ← a.admits (.standard .batchRead) r then some r else none

variable (inner : Service σ α κ π φ)

/-- `apply_edits`. -/
def applyEdits (edits : List (φ × Edit π)) (s : σ) :
    Except ServiceFailure (List (Option α)) × σ :=
  let passed := edits.map fun e => a.permitted e.1 e.2
  if passed.filterMap id = [] then (.ok (edits.map fun _ => none), s)
  else
    let (edited, s) := inner.call (.applyEdits (passed.filterMap id)) s
    (edited.map (spread (passed.map Option.isSome)), s)

/-- `AuthorizedService` around a service. -/
def service : Service σ α κ π φ where
  serializationContext := inner.serializationContext
  responseIsPrivate s := a.responsePrivate || inner.responseIsPrivate s
  call
    | .create env payload => fun s =>
      if (a.permission (.standard .create)).isNoMatch then
        (.error (.raised (.forbidden a.resourceName Action.create.value)), s)
      else inner.call (.create env payload) s
    | .read id => fun s =>
      let (found, s) := inner.call (.read id) s
      (found >>= a.screen (.standard .read) id, s)
    | .update env payload condition => fun s =>
      let (updated, s) := inner.call
        (.update env payload (some (combine (a.permission (.standard .update)) condition))) s
      (do
        match ← updated with
        | none => throw (.raised (.notFound (a.payloadId payload)))
        | some r => return some r, s)
    | .delete id condition => fun s =>
      let (deleted, s) := inner.call
        (.delete id (some (combine (a.permission (.standard .delete)) condition))) s
      (do if ← deleted then return true else throw (.raised (.notFound id)), s)
    | .search f sort cursor limit => fun s =>
      inner.call (.search (some (combine (a.permission (.standard .search)) f)) sort cursor limit) s
    | .count f => fun s =>
      inner.call (.count (some (combine (a.permission (.standard .count)) f))) s
    | .batchRead ids => fun s =>
      let (found, s) := inner.call (.batchRead ids) s
      (do (← found).mapM a.screenItem, s)
    | .authorize action id => fun s =>
      if action ∉ a.customActions then (.error (.raised (.config (a.undeclared action))), s)
      else
        let (found, s) := inner.call (.read id) s
        (found >>= a.screen (.custom action) id, s)
    | .applyEdits edits => a.applyEdits inner edits

variable {a inner} {s s' : σ}

theorem service_read (id : Value) :
    (a.service inner).call (.read id) s =
      ((inner.call (.read id) s).1 >>= a.screen (.standard .read) id,
        (inner.call (.read id) s).2) := rfl

theorem service_search (f : Option SearchFilter) (sort : Option SortOrder) (cursor : Option κ)
    (limit : ℕ) : (a.service inner).call (.search f sort cursor limit) s =
      inner.call (.search (some (combine (a.permission (.standard .search)) f)) sort cursor limit)
        s := rfl

theorem service_count (f : Option SearchFilter) :
    (a.service inner).call (.count f) s =
      inner.call (.count (some (combine (a.permission (.standard .count)) f))) s := rfl

theorem service_batchRead (ids : List Value) :
    (a.service inner).call (.batchRead ids) s =
      ((inner.call (.batchRead ids) s).1 >>= fun found => found.mapM a.screenItem,
        (inner.call (.batchRead ids) s).2) := rfl

theorem service_update (env : φ) (payload : π) (condition : Option SearchFilter) :
    (a.service inner).call (.update env payload condition) s =
      ((inner.call (.update env payload
        (some (combine (a.permission (.standard .update)) condition))) s).1 >>= fun updated =>
          match updated with
          | none => throw (.raised (.notFound (a.payloadId payload)))
          | some r => return some r,
        (inner.call (.update env payload
          (some (combine (a.permission (.standard .update)) condition))) s).2) := rfl

theorem service_delete (id : Value) (condition : Option SearchFilter) :
    (a.service inner).call (.delete id condition) s =
      ((inner.call (.delete id
        (some (combine (a.permission (.standard .delete)) condition))) s).1 >>= fun deleted =>
          if deleted then return true else throw (.raised (.notFound id)),
        (inner.call (.delete id
          (some (combine (a.permission (.standard .delete)) condition))) s).2) := rfl

/-- An update that is not a miss is one of the inner service under the policies. -/
theorem service_update_ok {env : φ} {payload : π} {condition : Option SearchFilter}
    {result : Option α} :
    (a.service inner).call (.update env payload condition) s = (.ok result, s') ↔
      ∃ r, result = some r ∧ inner.call (.update env payload
        (some (combine (a.permission (.standard .update)) condition))) s = (.ok (some r), s') := by
  rw [service_update]
  rcases inner.call (.update env payload
    (some (combine (a.permission (.standard .update)) condition))) s with ⟨_ | _ | r, s''⟩
  · simp [bind, Except.bind]
  · simp [bind, Except.bind, throw, throwThe, MonadExceptOf.throw]
  · simp [bind, Except.bind, pure, Except.pure, eq_comm]

/-- A deletion that is not a miss is one of the inner service under the policies. -/
theorem service_delete_ok {id : Value} {condition : Option SearchFilter} {deleted : Bool} :
    (a.service inner).call (.delete id condition) s = (.ok deleted, s') ↔
      deleted = true ∧ inner.call (.delete id
        (some (combine (a.permission (.standard .delete)) condition))) s = (.ok true, s') := by
  rw [service_delete]
  rcases inner.call (.delete id
    (some (combine (a.permission (.standard .delete)) condition))) s with ⟨_ | _ | _, s''⟩
  · simp [bind, Except.bind]
  · simp [bind, Except.bind, throw, throwThe, MonadExceptOf.throw]
  · simp [bind, Except.bind, pure, Except.pure, eq_comm]

end Authorization

/-! ## Over a service that honours filters -/

variable {α κ π φ : Type}

/-- The reply to a call, as the wrapper over a service that honours filters gives it. -/
def ServiceCall.reply : (c : ServiceCall κ π φ) → c.Reply α → Option (ServiceReply α κ)
  | .create _ _, r | .read _, r | .authorize _ _, r => some (.item r)
  | .update _ _ _, r => r.map .item
  | .delete _ _, deleted => if deleted then some .deleted else none
  | .search _ _ _ _, page => some (.page page)
  | .count _, n => some (.count n)
  | .batchRead _, items | .applyEdits _, items => some (.items items)

variable [TextRules]

/-- A service that honours filters, as one of the interface. Without a condition every row will
do. -/
def FilteringService.service (i : FilteringService α κ π φ) :
    Service (KeyedRows α i.idOf) α κ π φ where
  call
    | .create env payload => fun s =>
      match i.create env payload s with
      | .error e => (.error (.raised e), s)
      | .ok (r, s) => (.ok r, s)
    | .read id => fun s =>
      match s.find id with
      | none => (.error (.raised (.notFound id)), s)
      | some r => (.ok r, s)
    | .update env payload condition => fun s =>
      let (updated, s) := i.updateRows env s payload (condition.getD .all)
      (updated.mapError .raised, s)
    | .delete id condition => fun s =>
      let (deleted, s) := i.deleteRows s id (condition.getD .all)
      (deleted.mapError .raised, s)
    | .search f sort cursor limit => fun s =>
      ((i.search (f.getD .all) sort cursor limit (i.matching (f.getD .all) s.rows)).mapError .raised,
        s)
    | .count f => fun s =>
      ((i.count (f.getD .all) (i.matching (f.getD .all) s.rows)).mapError .raised, s)
    | .batchRead ids => fun s => (.ok (ids.map s.find), s)
    | .authorize _ _ => fun s => (.error .notImplemented, s)
    | .applyEdits edits => fun s =>
      let (results, s) := i.applyEdits s edits
      (results.mapError .raised, s)

namespace AuthorizedService

variable (a : AuthorizedService α κ π φ)

/-- What the wrapper is built with, but for its inner service. -/
def authorization : Authorization α π where
  policies := a.policies
  userId := a.userId
  resourceName := a.resourceName
  customActions := a.customActions
  toDto := a.inner.toDto
  payloadId := a.inner.payloadId

omit [TextRules] in
theorem permission_authorization (action : ActionName) :
    a.authorization.permission action = a.permission action := rfl

omit [TextRules] in
theorem permitted_authorization (env : φ) (edit : Edit π) :
    a.authorization.permitted env edit = a.permitted env edit := by
  cases edit with
  | create | update | delete => rfl

theorem admits_authorization (action : ActionName) (r : α) :
    a.authorization.admits action r = (a.admits action r).mapError .raised := by
  have hsame : a.authorization.admits action r =
    ((a.permission action).matches (a.inner.toDto r)).mapError (.raised ∘ .typeError) := rfl
  rw [hsame, admits]
  cases (a.permission action).matches (a.inner.toDto r) with
  | error e => rfl
  | ok b => rfl

/-- What a read screens is the row that the principal may act on. -/
theorem screen_find (action : ActionName) (s : a.Rows) (id : Value) :
    (a.inner.service.call (.read id) s).2 = s ∧
      ((a.inner.service.call (.read id) s).1 >>= a.authorization.screen action id) =
        (a.readAs action s id).mapError .raised := by
  unfold FilteringService.service readAs
  simp only
  cases s.find id with
  | none => exact ⟨rfl, rfl⟩
  | some r =>
      refine ⟨rfl, ?_⟩
      dsimp only
      have hscreen : (Except.ok r >>= a.authorization.screen action id) =
        (a.authorization.admits action r >>= fun b =>
          if b then return r else throw (.raised (.notFound id))) := rfl
      rw [hscreen, admits_authorization]
      rcases a.admits action r with e | ⟨_ | _⟩
      · rfl
      · rfl
      · rfl

/-- What a batch-read screens is the rows that the principal may read. -/
theorem screenItem_find (s : a.Rows) (ids : List Value) :
    (ids.map s.find).mapM a.authorization.screenItem =
      (ids.mapM (a.batchReadOne s)).mapError .raised := by
  have hone (id : Value) : a.authorization.screenItem (s.find id) =
      (a.batchReadOne s id).mapError .raised := by
    unfold batchReadOne
    cases s.find id with
    | none => rfl
    | some r =>
        dsimp only
        have hscreen : a.authorization.screenItem (some r) =
          (a.authorization.admits (.standard .batchRead) r >>= fun b =>
            return if b then some r else none) := rfl
        rw [hscreen, admits_authorization]
        rcases a.admits (.standard .batchRead) r with e | ⟨_ | _⟩
        · rfl
        · rfl
        · rfl
  induction ids with
  | nil => rfl
  | cons id ids ih =>
      rw [List.map_cons, List.mapM_cons, List.mapM_cons, ih, hone]
      rcases a.batchReadOne s id with e | item
      · rfl
      · rcases ids.mapM (a.batchReadOne s) with e | items
        · rfl
        · rfl

/-- **Over a service that honours filters, the wrapper is the authorized service.** -/
theorem service_eq_call (c : ServiceCall κ π φ) (s : a.Rows) :
    let out := (a.authorization.service a.inner.service).call c s
    out.2 = (a.call s c).2 ∧
      out.1.map c.reply = ((a.call s c).1.mapError .raised).map some := by
  cases c with
  | create env payload =>
      simp only [Authorization.service, call, FilteringService.service, permission_authorization]
      by_cases hdenied : (a.permission (.standard .create)).isNoMatch = true
      · simp only [hdenied, if_true]
        exact ⟨trivial, rfl⟩
      · simp only [hdenied, Bool.false_eq_true, if_false]
        rcases a.inner.create env payload s with e | ⟨r, s'⟩
        · exact ⟨rfl, rfl⟩
        · exact ⟨rfl, rfl⟩
  | read id =>
      obtain ⟨hstore, hfound⟩ := a.screen_find (.standard .read) s id
      refine ⟨hstore, (congrArg (Except.map _) hfound).trans ?_⟩
      simp only [call]
      rcases a.readAs (.standard .read) s id with e | r
      · rfl
      · rfl
  | update env payload condition =>
      simp only [Authorization.service, call, FilteringService.service, permission_authorization,
        Option.getD_some]
      rcases a.inner.updateRows env s payload _ with ⟨e | _ | r, s'⟩
      · exact ⟨trivial, rfl⟩
      · exact ⟨trivial, rfl⟩
      · exact ⟨trivial, rfl⟩
  | delete id condition =>
      simp only [Authorization.service, call, FilteringService.service, permission_authorization,
        Option.getD_some]
      rcases a.inner.deleteRows s id _ with ⟨e | _ | _, s'⟩
      · exact ⟨trivial, rfl⟩
      · exact ⟨trivial, rfl⟩
      · exact ⟨trivial, rfl⟩
  | search f sort cursor limit =>
      simp only [Authorization.service, call, FilteringService.service, permission_authorization,
        Option.getD_some]
      rcases a.inner.search _ sort cursor limit _ with e | page
      · exact ⟨trivial, rfl⟩
      · exact ⟨trivial, rfl⟩
  | count f =>
      simp only [Authorization.service, call, FilteringService.service, permission_authorization,
        Option.getD_some]
      rcases a.inner.count _ _ with e | n
      · exact ⟨trivial, rfl⟩
      · exact ⟨trivial, rfl⟩
  | batchRead ids =>
      refine ⟨rfl, (congrArg (Except.map _) (a.screenItem_find s ids)).trans ?_⟩
      simp only [call]
      rcases ids.mapM (a.batchReadOne s) with e | items
      · rfl
      · rfl
  | authorize action id =>
      obtain ⟨hstore, hfound⟩ := a.screen_find (.custom action) s id
      simp only [Authorization.service, call]
      by_cases hdeclared : action ∈ a.customActions
      · have hdeclared' : action ∈ a.authorization.customActions := hdeclared
        rw [if_neg (not_not.mpr hdeclared), if_neg (not_not.mpr hdeclared')]
        refine ⟨hstore, (congrArg (Except.map _) hfound).trans ?_⟩
        rcases a.readAs (.custom action) s id with e | r
        · rfl
        · rfl
      · have hdeclared' : action ∉ a.authorization.customActions := hdeclared
        rw [if_pos hdeclared, if_pos hdeclared']
        exact ⟨rfl, rfl⟩
  | applyEdits edits =>
      simp only [Authorization.service, call, FilteringService.service, Authorization.applyEdits,
        applyEdits, permitted_authorization]
      split
      · exact ⟨rfl, rfl⟩
      · rcases a.inner.applyEdits s _ with ⟨e | results, s'⟩
        · exact ⟨rfl, rfl⟩
        · exact ⟨rfl, rfl⟩

end AuthorizedService

end Resourcey
