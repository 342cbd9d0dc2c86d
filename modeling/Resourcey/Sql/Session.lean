import Resourcey.Core.Interface
import Resourcey.Sql.SqlService
import Mathlib.Logic.Function.Basic

/-!
# SQL sessions

A SQL service that is entered adopts the session that the call's context holds under its storage
key; where there is none it opens one and owns it. Only the owner ends the session, when it exits:
with a rollback if an exception is under way, else with a commit. A rollback restores what was
committed, and a commit keeps what the session sees. Services are numbered in the order in which
they are built, and sessions in the order in which they are opened.

Services over one engine share a session whatever their order (`Shared`), and a stack of them leaves
the database to the one at its bottom (`Shared.ended`).
-/

namespace Resourcey

/-! ## Storage keys -/

/-- A token of a storage key: a name, by value, or another object, by identity. -/
inductive StorageToken where
  | name (name : String)
  | object (id : ℕ)
  deriving DecidableEq

/-- `StorageKey`. -/
structure StorageKey where
  backend : String
  tokens : List StorageToken
  deriving DecidableEq

/-- `async_sessionmaker`: its identity, and that of the engine it is bound to. -/
structure SessionMaker where
  id : ℕ
  bind : Option ℕ := none

/-- `sql_storage_identity`. -/
def sqlStorageIdentity (maker : SessionMaker) : ℕ := maker.bind.getD maker.id

/-- The storage key of a SQL service. -/
def sqlStorageKey (maker : SessionMaker) : StorageKey where
  backend := "sql"
  tokens := [.object (sqlStorageIdentity maker)]

/-! ## Services -/

/-- What services do to sessions. -/
inductive SessionEvent where
  | opened (service : ℕ)
  | entered (service : ℕ)
  | committed (service : ℕ)
  | rolledBack (service : ℕ)
  | exited (service : ℕ)
  deriving DecidableEq

/-- The database of an engine as it is committed, the call's context, what each session sees, how
many were opened, and what was done. -/
structure Storage (δ : Type) where
  committed : δ
  ctx : StorageKey → Option ℕ := fun _ => none
  view : ℕ → δ := fun _ => committed
  opened : ℕ := 0
  log : List SessionEvent := []

/-- A SQL service that is entered. -/
structure EnteredService where
  service : ℕ
  storageKey : StorageKey
  session : ℕ
  ownsStorage : Bool

variable {δ : Type}

/-- What a session sees after statements in it. -/
def Storage.setView (s : Storage δ) (session : ℕ) (view : δ) : Storage δ :=
  { s with view := Function.update s.view session view }

/-- `SqlService.__aenter__`. -/
def SqlService.enter (service : ℕ) (key : StorageKey) (s : Storage δ) :
    EnteredService × Storage δ :=
  match s.ctx key with
  | some session => (⟨service, key, session, false⟩, { s with log := s.log ++ [.entered service] })
  | none => (⟨service, key, s.opened, true⟩,
    { s with
      ctx := Function.update s.ctx key (some s.opened)
      view := Function.update s.view s.opened s.committed
      opened := s.opened + 1
      log := s.log ++ [.opened service, .entered service] })

/-- `SqlService.__aexit__`, with an exception under way or without. -/
def EnteredService.exit (raised : Bool) (v : EnteredService) (s : Storage δ) : Storage δ :=
  if v.ownsStorage then
    if raised then
      { s with
        ctx := Function.update s.ctx v.storageKey none
        view := Function.update s.view v.session s.committed
        log := s.log ++ [.rolledBack v.service, .exited v.service] }
    else
      { s with
        ctx := Function.update s.ctx v.storageKey none
        committed := s.view v.session
        log := s.log ++ [.committed v.service, .exited v.service] }
  else { s with log := s.log ++ [.exited v.service] }

/-- The exit of an `AsyncExitStack`: the service entered last exits first. No exit suppresses the
exception. -/
def exitAll (raised : Bool) (stack : List EnteredService) (s : Storage δ) : Storage δ :=
  stack.foldl (fun s v => v.exit raised s) s

theorem exitAll_append (raised : Bool) (stack stack' : List EnteredService) (s : Storage δ) :
    exitAll raised (stack ++ stack') s = exitAll raised stack' (exitAll raised stack s) :=
  List.foldl_append

/-! ## A shared session -/

/-- Service `n` of those that share a session: the first owns it. -/
def sharer (key : StorageKey) (n : ℕ) : EnteredService := ⟨n, key, 0, n = 0⟩

/-- The entries of services that share a session. -/
def entries : ℕ → List SessionEvent
  | 0 => []
  | k + 1 => .opened 0 :: (List.range (k + 1)).map .entered

/-- The exits of services that share a session. -/
def exits (raised : Bool) : ℕ → List SessionEvent
  | 0 => []
  | k + 1 => (List.range' 1 k).reverse.map .exited ++
    [if raised then .rolledBack 0 else .committed 0, .exited 0]

/-- `k` services under one key were entered, and none has exited: `db` is committed, and their
session sees `seen`. -/
structure Shared (key : StorageKey) (k : ℕ) (db seen : δ) (stack : List EnteredService)
    (s : Storage δ) : Prop where
  committed : s.committed = db
  ctx : s.ctx key = if k = 0 then none else some 0
  opened : s.opened = if k = 0 then 0 else 1
  view : if k = 0 then seen = db else s.view 0 = seen
  stack : stack = (List.range k).reverse.map (sharer key)
  log : s.log = entries k

namespace Shared

variable {key : StorageKey} {k : ℕ} {db seen : δ} {stack : List EnteredService} {s : Storage δ}

theorem start (key : StorageKey) (db : δ) : Shared key 0 db db [] { committed := db } where
  committed := rfl
  ctx := rfl
  opened := rfl
  view := rfl
  stack := rfl
  log := rfl

theorem entries_succ (k : ℕ) :
    entries (k + 1) = entries k ++ if k = 0 then [.opened 0, .entered 0] else [.entered k] := by
  cases k with
  | zero => rfl
  | succ k => simp [entries, List.range_succ]

/-- The next service to be entered shares the session. -/
theorem enter (h : Shared key k db seen stack s) : ∃ s',
    SqlService.enter k key s = (sharer key k, s') ∧
      Shared key (k + 1) db seen (sharer key k :: stack) s' ∧ s'.view 0 = seen := by
  have hstack : sharer key k :: stack = (List.range (k + 1)).reverse.map (sharer key) := by
    rw [h.stack, List.range_succ, List.reverse_append, List.map_append]
    rfl
  cases k with
  | zero =>
      have hctx : s.ctx key = none := h.ctx
      have hopened : s.opened = 0 := h.opened
      have hseen : seen = db := h.view
      rw [SqlService.enter, hctx, hopened]
      refine ⟨_, rfl, ⟨h.committed, ?_, rfl, ?_, hstack, ?_⟩, ?_⟩
      · simp
      · simp [h.committed, hseen]
      · simp [h.log, entries_succ]
      · simp [h.committed, hseen]
  | succ k =>
      have hctx : s.ctx key = some 0 := h.ctx
      have hview : s.view 0 = seen := h.view
      rw [SqlService.enter, hctx]
      refine ⟨_, rfl, ⟨h.committed, hctx, h.opened, hview, hstack, ?_⟩, hview⟩
      simp [h.log, entries_succ (k + 1)]

/-- Statements in the session are seen by all its services, and are not committed. -/
theorem setView (h : Shared key (k + 1) db seen stack s) (seen' : δ) :
    Shared key (k + 1) db seen' stack (s.setView 0 seen') where
  committed := h.committed
  ctx := h.ctx
  opened := h.opened
  view := by simp [Storage.setView]
  stack := h.stack
  log := h.log

/-- Services that do not own the session leave it as it is. -/
theorem exitAll_sharers (raised : Bool) {ns : List ℕ} (hns : 0 ∉ ns) (s : Storage δ) :
    exitAll raised (ns.map (sharer key)) s
      = { s with log := s.log ++ ns.map .exited } := by
  induction ns generalizing s with
  | nil => simp [exitAll]
  | cons n ns ih =>
      have hn : n ≠ 0 := fun h => hns (h ▸ .head _)
      have hexit : (sharer key n).exit raised s = { s with log := s.log ++ [.exited n] } := by
        simp [EnteredService.exit, sharer, hn]
      have htail := ih (fun hmem => hns (.tail _ hmem)) { s with log := s.log ++ [.exited n] }
      simp only [exitAll, List.map_cons, List.foldl_cons, hexit] at htail ⊢
      rw [htail]
      simp

/-- **The session is ended once, by the service that opened it, after all others have exited.** -/
theorem ended (h : Shared key k db seen stack s) (raised : Bool) :
    (exitAll raised stack s).committed = (if raised then db else seen) ∧
      (exitAll raised stack s).log = entries k ++ exits raised k := by
  cases k with
  | zero =>
      have hseen : seen = db := h.view
      rw [h.stack, hseen, ite_self]
      exact ⟨h.committed, by rw [h.log.symm, exits, List.append_nil]; rfl⟩
  | succ k =>
      have hview : s.view 0 = seen := h.view
      have hstack : stack = (List.range' 1 k).reverse.map (sharer key) ++ [sharer key 0] := by
        rw [h.stack, List.range_eq_range', List.range'_succ, List.reverse_cons, List.map_append]
        rfl
      have hothers : 0 ∉ (List.range' 1 k).reverse := by simp
      rw [hstack, exitAll_append, exitAll_sharers raised hothers, exitAll, List.foldl_cons,
        List.foldl_nil]
      cases raised with
      | true => simp [EnteredService.exit, sharer, h.committed, h.log, exits]
      | false => simp [EnteredService.exit, sharer, hview, h.log, exits]

end Shared

/-! ## Edits in a session -/

namespace SqlResource

variable {ρ π φ : Type} (r : SqlResource ρ π φ)

/-- `SqlService.apply_edits` as its session sees it: what the edits before one that raises wrote
stays. -/
def applyEditsIn (w : WriteActions ρ π φ) (rows : List ρ) : List (φ × Edit π) →
    Except ResourceyError (List (Option ρ)) × List ρ
  | [] => (.ok [], rows)
  | (env, edit) :: edits =>
    match r.applyEdit w env rows edit with
    | .error e => (.error e, rows)
    | .ok (result, rows) =>
      let (results, rows) := applyEditsIn w rows edits
      (results.map (result :: ·), rows)

/-- Edits that do not raise leave in the session what they leave in the table. -/
theorem applyEditsIn_ok_iff {w : WriteActions ρ π φ} {edits : List (φ × Edit π)} {rows rows' : List ρ}
    {results : List (Option ρ)} : r.applyEditsIn w rows edits = (.ok results, rows') ↔
      r.applyEdits w rows edits = .ok (results, rows') := by
  induction edits generalizing rows results with
  | nil => simp [applyEditsIn, applyEdits]
  | cons e edits ih =>
      obtain ⟨env, edit⟩ := e
      cases hedit : r.applyEdit w env rows edit with
      | error e => simp [applyEditsIn, applyEdits, hedit, bind, Except.bind]
      | ok out =>
          obtain ⟨result, mid⟩ := out
          have hin : r.applyEditsIn w rows ((env, edit) :: edits) = (.ok results, rows') ↔
              ∃ tail, r.applyEditsIn w mid edits = (.ok tail, rows') ∧ result :: tail = results := by
            simp only [applyEditsIn, hedit]
            generalize r.applyEditsIn w mid edits = out
            rcases out with ⟨_ | tail, rows''⟩
            · simp [Except.map]
            · simp [Except.map, and_comm]
          have hedits : r.applyEdits w rows ((env, edit) :: edits) = .ok (results, rows') ↔
              ∃ tail, r.applyEdits w mid edits = .ok (tail, rows') ∧ result :: tail = results := by
            simp only [applyEdits, hedit, bind, Except.bind]
            generalize r.applyEdits w mid edits = out
            rcases out with _ | ⟨tail, rows''⟩
            · simp
            · simp [pure, Except.pure, and_comm]
          simp only [hin, hedits, ih]

/-- `SqlService` in its session: an action that raises writes nothing, except that a batch keeps what
it wrote before. -/
def service [TextRules] {κ : Type} (codec : CursorCodec κ) : Service (List ρ) ρ κ π φ where
  call
    | .create env payload => fun rows =>
      match r.create env rows payload with
      | .error e => (.error (.raised e), rows)
      | .ok (row, rows) => (.ok row, rows)
    | .read id => fun rows => ((r.read rows id).mapError .raised, rows)
    | .update env payload condition => fun rows =>
      match r.update env rows payload condition with
      | .error e => (.error (.raised e), rows)
      | .ok (result, rows) => (.ok result, rows)
    | .delete id condition => fun rows =>
      match r.delete rows id condition with
      | .error e => (.error (.raised e), rows)
      | .ok (deleted, rows) => (.ok deleted, rows)
    | .search f sort cursor limit => fun rows =>
      ((r.search codec rows f sort cursor limit).mapError .raised, rows)
    | .count f => fun rows => ((r.count rows f).mapError .raised, rows)
    | .batchRead ids => fun rows => (.ok (r.batchRead rows ids), rows)
    | .authorize _ _ => fun rows => (.error .notImplemented, rows)
    | .applyEdits edits => fun rows =>
      let (results, rows) := r.applyEditsIn r.writeActions rows edits
      (results.mapError .raised, rows)

end SqlResource

end Resourcey
