import Resourcey.Auth.ServiceWrapper
import Resourcey.Http.BatchRoutes
import Resourcey.Triggers.RedisTrigger

/-!
# What realtime events say of a table

A Redis trigger of a resource in a SQL table is told the edits of an operation and their results. A
result is the row that a creation or an update left, and the event has its projection. A deletion
has no result, whether the row went, was absent, failed the condition or may not be deleted by the
caller, and its event is published all the same. So the events of an operation are true of the
table exactly if none of its deletions names a row that its condition, under the caller's policies,
does not keep (`truthful_iff`).
-/

namespace Resourcey

/-- A resource in a SQL table whose trigger is bound to it, behind an `AuthorizedService` or not.
The identifier is never written, and a row is one of the resource as the trigger is told of it. -/
structure AnnouncedTable (ρ π φ : Type) where
  resource : SqlResource ρ π φ
  authorization : Option (Authorization ρ π)
  target : TriggerTarget
  path : String
  toJsonable : Value → Value
  dto : ρ → Dto
  isRow : ∀ r, target.IsRow (dto r)
  idOf_write : ∀ p r, resource.idOf (resource.write p r) = resource.idOf r
  payloadId_eq : ∀ a ∈ authorization, a.payloadId = resource.payloadId

/-- The kind of the event of an edit. -/
def Edit.eventKind {π : Type} : Edit π → EventKind
  | .create _ => .created
  | .update _ _ => .updated
  | .delete _ _ => .deleted

namespace AnnouncedTable

variable {ρ κ π φ : Type} (t : AnnouncedTable ρ π φ)

/-- What is published of each edit of an operation. -/
def published (edits : List (Edit π)) (results : List (Option ρ)) :
    List (Edit π × Option Dto × Option ResourceEvent) :=
  buildEvents t.toJsonable t.path (some t.target) (edits.zip (results.map (·.map t.dto)))

/-- The condition of a deletion, under the caller's policies. -/
def deleteCondition (condition : Option SearchFilter) : Option SearchFilter :=
  match t.authorization with
  | none => condition
  | some a => some (combine (a.permission (.standard .delete)) condition)

/-- The edit that reaches the table, if one does. -/
def passed (edit : Edit π) : Option (Edit π) :=
  match t.authorization with
  | none => some edit
  | some a => (a.permitted () edit).map Prod.snd

/-- An event is that of an edit which took a table to another: it has the identifier of every row
that the edit changed, and the projection of the row that a creation or an update left. -/
structure Describes (before after : List ρ) (edit : Edit π) (event : ResourceEvent) : Prop where
  kind : event.kind = edit.eventKind
  deleted : ∀ id condition, edit = .delete id condition → event.id = t.toJsonable id ∧
    ∀ r ∈ before, r ∉ after → t.resource.idOf r = id
  written : (∀ id condition, edit ≠ .delete id condition) → ∃ r ∈ after,
    t.target.shownId t.toJsonable (t.dto r) = some event.id ∧
      event.item = t.target.readResponse (t.dto r) ∧
        ∀ r' ∈ after, r' ∉ before → t.resource.idOf r' = t.resource.idOf r

/-- What is published of an edit is true: an edit that changes the table has an event, which is its
own, and a deletion has one only if no row of its identifier is left. -/
structure TruthfulEdit (before after : List ρ) (edit : Edit π) (event : Option ResourceEvent) :
    Prop where
  changed : before ≠ after → ∃ e, event = some e ∧ t.Describes before after edit e
  gone : ∀ e id condition, event = some e → edit = .delete id condition →
    ∀ r ∈ after, t.resource.idOf r ≠ id

variable [TextRules]

/-- The service that the trigger is around. -/
def service (codec : CursorCodec κ) : Service (List ρ) ρ κ π φ :=
  match t.authorization with
  | none => t.resource.service codec
  | some a => a.service (t.resource.service codec)

/-- The table after the first edits of an operation. -/
def stateAfter (codec : CursorCodec κ) (c : ServiceCall κ π φ) (rows : List ρ) (i : ℕ) : List ρ :=
  match c with
  | .applyEdits edits => ((t.service codec).call (.applyEdits (edits.take i)) rows).2
  | c => if i = 0 then rows else ((t.service codec).call c rows).2

/-- What is published of an operation that was completed is true of each of its edits. -/
def Truthful (codec : CursorCodec κ) (c : ServiceCall κ π φ) (rows : List ρ) (reply : c.Reply ρ) :
    Prop :=
  ∀ i edit, (c.edits.getD [])[i]? = some edit →
    t.TruthfulEdit (t.stateAfter codec c rows i) (t.stateAfter codec c rows (i + 1)) edit
      ((t.published (c.edits.getD []) (c.results reply))[i]?.bind (·.2.2))

/-- The events of every operation that is completed are true. -/
def EventsTruthful (codec : CursorCodec κ) : Prop :=
  ∀ (c : ServiceCall κ π φ) rows reply rows',
    (t.service codec).call c rows = (.ok reply, rows') → t.Truthful codec c rows reply

/-! ## One edit -/

/-- An edit on its own, as it reaches the table. -/
inductive Writes (rows : List ρ) : Edit π → Option ρ → List ρ → Prop where
  | create {env item r rows'} : t.resource.create env rows item = .ok (r, rows') →
      Writes rows (.create item) (some r) rows'
  | update {env item condition result rows'} :
      t.resource.update env rows item condition = .ok (result, rows') →
        Writes rows (.update item condition) result rows'
  | delete {id condition deleted rows'} :
      t.resource.delete rows id condition = .ok (deleted, rows') →
        Writes rows (.delete id condition) none rows'

/-- An edit of an operation: it reaches the table, or it misses. -/
def Step (rows : List ρ) (edit : Edit π) (result : Option ρ) (rows' : List ρ) : Prop :=
  match t.passed edit with
  | none => result = none ∧ rows' = rows
  | some edit => t.Writes rows edit result rows'

variable {t} {codec : CursorCodec κ} {rows rows' : List ρ} {edit : Edit π} {result : Option ρ}

omit [TextRules] in
/-- The event of a row is that of the row's own identifier and projection. -/
theorem buildEvent_row (edit : Edit π) (r : ρ) (hedit : ∀ id condition, edit ≠ .delete id condition) :
    ∃ event, buildEvent t.toJsonable t.path (some t.target) edit (some (t.dto r)) =
        .ok (some event) ∧ event.kind = edit.eventKind ∧
      t.target.shownId t.toJsonable (t.dto r) = some event.id ∧
        event.item = t.target.readResponse (t.dto r) := by
  obtain ⟨item, hitem⟩ := (t.isRow r).exists_readResponse
  have hid : t.target.shownId t.toJsonable (t.dto r) = some (eventId t.toJsonable
    t.target.idField item (t.dto r)) := (t.isRow r).shownId_eq hitem
  cases edit with
  | delete id condition => exact absurd rfl (hedit id condition)
  | create payload =>
      simp only [buildEvent, projectItem, hitem]
      exact ⟨_, rfl, rfl, hid, rfl⟩
  | update payload condition =>
      simp only [buildEvent, projectItem, hitem]
      exact ⟨_, rfl, rfl, hid, rfl⟩

omit [TextRules] in
/-- An event can be made of every edit and the row that it left. -/
theorem exists_buildEvent (edit : Edit π) (result : Option ρ) : ∃ event,
    buildEvent t.toJsonable t.path (some t.target) edit (result.map t.dto) = .ok event := by
  cases edit with
  | delete id condition => exact ⟨_, rfl⟩
  | create payload =>
      cases result with
      | none => exact ⟨none, rfl⟩
      | some r =>
          obtain ⟨event, hevent, -⟩ := buildEvent_row (t := t) (.create payload) r nofun
          exact ⟨some event, hevent⟩
  | update payload condition =>
      cases result with
      | none => exact ⟨none, rfl⟩
      | some r =>
          obtain ⟨event, hevent, -⟩ := buildEvent_row (t := t) (.update payload condition) r nofun
          exact ⟨some event, hevent⟩

omit [TextRules] in
theorem passed_create {item : π} {edit : Edit π} (h : t.passed (.create item) = some edit) :
    edit = .create item := by
  unfold passed at h
  split at h
  · exact (Option.some.inj h).symm
  · simp only [Authorization.permitted] at h
    split at h
    · cases h
    · exact (Option.some.inj h).symm

omit [TextRules] in
theorem passed_update {item : π} {condition : Option SearchFilter} {edit : Edit π}
    (h : t.passed (.update item condition) = some edit) :
    ∃ condition', edit = .update item condition' := by
  unfold passed at h
  split at h
  · exact ⟨condition, (Option.some.inj h).symm⟩
  · simp only [Authorization.permitted] at h
    split at h
    · cases h
    · exact ⟨_, (Option.some.inj h).symm⟩

omit [TextRules] in
theorem passed_delete (id : Value) (condition : Option SearchFilter) :
    (t.passed (.delete id condition) = none ∧ id = .none) ∨
      t.passed (.delete id condition) = some (.delete id (t.deleteCondition condition)) := by
  unfold passed deleteCondition
  split
  · exact .inr rfl
  · by_cases hid : id = .none
    · exact .inl ⟨congrArg (Option.map _) (if_pos hid), hid⟩
    · exact .inr (congrArg (Option.map _) (if_neg hid))

/-- The row that an update answers with is in the table, under the identifier that it names. -/
theorem update_some {r : SqlResource ρ π φ} {env : φ} {item : π} {condition : Option SearchFilter}
    {row : ρ} (h : r.update env rows item condition = .ok (some row, rows')) :
    row ∈ rows' ∧ r.idOf row = r.payloadId item := by
  rw [SqlResource.update] at h
  split at h
  · cases h
  · obtain ⟨conditions, hconditions, h⟩ := bind_eq_ok.mp h
    split at h
    · simp only at h
      split at h
      · cases h
      · obtain ⟨row', hread, h⟩ := bind_eq_ok.mp h
        cases h
        exact r.read_ok hread
    · obtain ⟨hfind, rfl⟩ := Prod.mk.inj (Except.ok.inj h)
      refine ⟨List.mem_of_find?_eq_some hfind, ?_⟩
      exact ((SqlResource.matched_iff hconditions row).mp (List.find?_some hfind)).2.1

/-- A row that an update changed has the identifier that it names. -/
theorem idOf_of_update {r : SqlResource ρ π φ} {env : φ} {item : π}
    {condition : Option SearchFilter} {result : Option ρ} {row : ρ}
    (hwrite : ∀ p row, r.idOf (r.write p row) = r.idOf row)
    (h : r.update env rows item condition = .ok (result, rows')) (hnew : row ∈ rows')
    (hold : row ∉ rows) : r.idOf row = r.payloadId item := by
  obtain ⟨gate, hgate, -, hrows⟩ := SqlResource.update_ok h
  split at hrows
  · rw [hrows] at hnew
    obtain ⟨before, hbefore, rfl⟩ := List.mem_map.mp hnew
    split at hold
    · next hkept =>
        rw [if_pos hkept, hwrite]
        exact ((hgate before).mp hkept).1
    · exact absurd hbefore hold
  · exact absurd (hrows ▸ hnew) hold

/-- A creation is described by its event, and so is an update that changes the table. -/
theorem describes_of_step {event : ResourceEvent} {r : ρ}
    (hedit : ∀ id condition, edit ≠ .delete id condition) (h : t.Step rows edit (some r) rows')
    (hkind : event.kind = edit.eventKind)
    (hid : t.target.shownId t.toJsonable (t.dto r) = some event.id)
    (hitem : event.item = t.target.readResponse (t.dto r)) :
    t.Describes rows rows' edit event := by
  refine ⟨hkind, fun id condition heq => absurd heq (hedit id condition), fun _ => ?_⟩
  unfold Step at h
  split at h
  · cases h.1
  · next e' hpassed =>
      cases edit with
      | delete id condition => exact absurd rfl (hedit id condition)
      | create item =>
          cases passed_create hpassed
          cases h with
          | create hcreate =>
              obtain ⟨-, -, rfl⟩ := SqlResource.create_ok hcreate
              refine ⟨r, List.mem_append_right _ (.head _), hid, hitem, fun r' hr' hold => ?_⟩
              rcases List.mem_append.mp hr' with hr' | hr'
              · exact absurd hr' hold
              · rw [List.mem_singleton.mp hr']
      | update item condition =>
          obtain ⟨condition', rfl⟩ := passed_update hpassed
          cases h with
          | update hupdate =>
              obtain ⟨hmem, hkey⟩ := update_some hupdate
              refine ⟨r, hmem, hid, hitem, fun r' hr' hold => ?_⟩
              rw [hkey]
              exact idOf_of_update t.idOf_write hupdate hr' hold

/-- A creation or an update without a result leaves the table as it was. -/
theorem eq_of_step_none (hedit : ∀ id condition, edit ≠ .delete id condition)
    (h : t.Step rows edit none rows') : rows' = rows := by
  unfold Step at h
  split at h
  · exact h.2
  · next e' hpassed =>
      cases edit with
      | delete id condition => exact absurd rfl (hedit id condition)
      | create item =>
          cases passed_create hpassed
          cases h
      | update item condition =>
          obtain ⟨condition', rfl⟩ := passed_update hpassed
          cases h with
          | update hupdate =>
              obtain ⟨gate, -, hsome, hrows⟩ := SqlResource.update_ok hupdate
              have hnone : ∀ r ∈ rows, ¬ gate r = true := by
                intro r hr hgate
                cases hsome.mpr ⟨r, hr, hgate⟩
              rw [hrows, SqlResource.map_write_eq_self hnone, ite_self]

variable (t) in
/-- A deletion names no row that its condition, under the caller's policies, does not keep. -/
def DeletesNamed (rows : List ρ) (edit : Edit π) : Prop :=
  ∀ id condition, edit = .delete id condition → ∀ r ∈ rows, t.resource.idOf r = id →
    id ≠ .none ∧ t.resource.Touches id (t.deleteCondition condition) r

/-- **What is published of an edit is true exactly if it is no deletion of a row that stays.** -/
theorem truthfulEdit_iff {event : Option ResourceEvent} (h : t.Step rows edit result rows')
    (hevent : buildEvent t.toJsonable t.path (some t.target) edit (result.map t.dto) = .ok event) :
    t.TruthfulEdit rows rows' edit event ↔ t.DeletesNamed rows edit := by
  by_cases hdelete : ∃ id condition, edit = .delete id condition
  · obtain ⟨id, condition, rfl⟩ := hdelete
    cases hevent
    rcases passed_delete (t := t) id condition with ⟨hpassed, rfl⟩ | hpassed
    · simp only [Step, hpassed] at h
      obtain ⟨-, rfl⟩ := h
      constructor
      · rintro ⟨-, hgone⟩ _ _ ⟨⟩ r hr hid
        exact absurd hid (hgone _ _ _ rfl rfl r hr)
      · intro hnamed
        refine ⟨fun hne => absurd rfl hne, ?_⟩
        rintro _ _ _ - ⟨⟩ r hr hid
        exact (hnamed _ _ rfl r hr hid).1 rfl
    · simp only [Step, hpassed] at h
      cases h with
      | delete hdelete =>
          obtain ⟨gate, hgate, rfl⟩ := SqlResource.delete_ok hdelete
          constructor
          · rintro ⟨-, hgone⟩ _ _ ⟨⟩ r hr hid
            by_contra hkept
            refine hgone _ _ _ rfl rfl r (List.mem_filter.mpr ⟨hr, ?_⟩) hid
            simpa using fun hg => hkept ((hgate r).mp hg)
          · intro hnamed
            refine ⟨fun _ => ⟨_, rfl, rfl, ?_, fun hwritten => absurd rfl (hwritten id condition)⟩, ?_⟩
            · rintro _ _ ⟨⟩
              refine ⟨rfl, fun r hr hgone => ?_⟩
              by_contra hid
              refine hgone (List.mem_filter.mpr ⟨hr, ?_⟩)
              simpa using fun hg => hid ((hgate r).mp hg).2.1
            · rintro _ _ _ - ⟨⟩ r hr hid
              obtain ⟨hmem, hkept⟩ := List.mem_filter.mp hr
              have hg := (hgate r).mpr (hnamed _ _ rfl r hmem hid)
              simp [hg] at hkept
  · have hedit : ∀ id condition, edit ≠ .delete id condition :=
      fun id condition heq => hdelete ⟨id, condition, heq⟩
    refine iff_of_true ⟨fun hne => ?_, fun _ id condition _ heq => absurd heq (hedit id condition)⟩
      fun id condition heq => absurd heq (hedit id condition)
    cases result with
    | none => exact absurd (eq_of_step_none hedit h).symm hne
    | some r =>
        obtain ⟨event', hevent', hkind, hid, hitem⟩ := buildEvent_row (t := t) edit r hedit
        cases hevent'.symm.trans hevent
        exact ⟨event', rfl, describes_of_step hedit h hkind hid hitem⟩

/-! ## An operation -/

omit [TextRules] in
/-- What is published of an edit is what can be made of it. -/
theorem published_getElem {edits : List (Edit π)} {results : List (Option ρ)} {i : ℕ}
    (hedit : edits[i]? = some edit) (hresult : results[i]? = some result) :
    ∃ event, buildEvent t.toJsonable t.path (some t.target) edit (result.map t.dto) = .ok event ∧
      (t.published edits results)[i]? = some (edit, result.map t.dto, event) := by
  induction edits generalizing results i with
  | nil => cases hedit
  | cons first edits ih =>
      cases results with
      | nil => cases hresult
      | cons head results =>
          obtain ⟨event, hevent⟩ := exists_buildEvent (t := t) first head
          have hcons : t.published (first :: edits) (head :: results) =
              (first, head.map t.dto, event) :: t.published edits results := by
            simp only [published, List.map_cons, List.zip_cons_cons, buildEvents, hevent]
          rw [hcons]
          cases i with
          | zero =>
              cases hedit
              cases hresult
              exact ⟨event, hevent, rfl⟩
          | succ i => exact ih hedit hresult

/-- The edits of a batch that reach the table, each with its environment. -/
def passedEdits (t : AnnouncedTable ρ π φ) (edits : List (φ × Edit π)) : List (φ × Edit π) :=
  edits.filterMap fun e => (t.passed e.2).map (e.1, ·)

omit [TextRules] in
theorem permitted_eq_passed {a : Authorization ρ π} (ha : t.authorization = some a)
    (e : φ × Edit π) : a.permitted e.1 e.2 = (t.passed e.2).map (e.1, ·) := by
  rw [passed, ha]
  obtain ⟨env, edit⟩ := e
  cases edit with
  | create item =>
      simp only [Authorization.permitted]
      split
      · rfl
      · rfl
  | update item condition =>
      simp only [Authorization.permitted]
      split
      · rfl
      · rfl
  | delete id condition =>
      simp only [Authorization.permitted]
      split
      · rfl
      · rfl

/-- An edit of a batch is applied as it would be on its own. -/
theorem writes_of_applyEdit {env : φ}
    (h : t.resource.applyEdit t.resource.writeActions env rows edit = .ok (result, rows')) :
    t.Writes rows edit result rows' := by
  cases edit with
  | create item =>
      simp only [SqlResource.applyEdit] at h
      split at h
      · cases h
      · obtain ⟨⟨r, rows''⟩, hcreate, h⟩ := bind_eq_ok.mp h
        cases h
        exact .create hcreate
  | update item condition =>
      simp only [SqlResource.applyEdit] at h
      split at h
      · cases h
      · exact .update h
  | delete id condition =>
      simp only [SqlResource.applyEdit] at h
      split at h
      · cases h
      · obtain ⟨⟨deleted, rows''⟩, hdelete, h⟩ := bind_eq_ok.mp h
        cases h
        exact .delete hdelete

/-- The edits of a batch take their steps one after the other, those that are not passed on
missing. -/
theorem steps_of_applyEditsIn {edits : List (φ × Edit π)} {inner : List (Option ρ)}
    (h : (t.resource.applyEditsIn t.resource.writeActions rows (t.passedEdits edits)).1 = .ok inner)
    {i : ℕ} {e : φ × Edit π} (he : edits[i]? = some e) :
    ∃ result, (spread (edits.map fun e => (t.passed e.2).isSome) inner)[i]? = some result ∧
      t.Step
        (t.resource.applyEditsIn t.resource.writeActions rows (t.passedEdits (edits.take i))).2
        e.2 result
        (t.resource.applyEditsIn t.resource.writeActions rows (t.passedEdits (edits.take (i + 1)))).2
      := by
  induction edits generalizing rows inner i with
  | nil => cases he
  | cons first edits ih =>
      cases hpassed : t.passed first.2 with
      | none =>
          have hdrop (rest : List (φ × Edit π)) :
              t.passedEdits (first :: rest) = t.passedEdits rest := by
            rw [passedEdits, List.filterMap_cons_none (by rw [hpassed]; rfl), passedEdits]
          rw [hdrop] at h
          simp only [List.map_cons, hpassed, Option.isSome_none, spread]
          cases i with
          | zero =>
              cases he
              refine ⟨none, rfl, ?_⟩
              simp only [List.take_zero, List.take_succ_cons, hdrop, Step, hpassed, and_self]
          | succ i =>
              simp only [List.take_succ_cons, hdrop]
              exact ih h he
      | some edit' =>
          have hkeep (rest : List (φ × Edit π)) :
              t.passedEdits (first :: rest) = (first.1, edit') :: t.passedEdits rest := by
            rw [passedEdits, List.filterMap_cons_some (by rw [hpassed]; rfl), passedEdits]
          rw [hkeep] at h
          cases happly : t.resource.applyEdit t.resource.writeActions first.1 rows edit' with
          | error err =>
              simp only [SqlResource.applyEditsIn, happly] at h
              cases h
          | ok out =>
              obtain ⟨result, mid⟩ := out
              have hrest (rest : List (φ × Edit π)) : (t.resource.applyEditsIn
                  t.resource.writeActions rows ((first.1, edit') :: rest)).2 =
                    (t.resource.applyEditsIn t.resource.writeActions mid rest).2 := by
                simp only [SqlResource.applyEditsIn, happly]
              simp only [SqlResource.applyEditsIn, happly] at h
              cases hinner : (t.resource.applyEditsIn t.resource.writeActions mid
                  (t.passedEdits edits)).1 with
              | error err =>
                  rw [hinner] at h
                  cases h
              | ok tail =>
                  rw [hinner] at h
                  cases h
                  simp only [List.map_cons, hpassed, Option.isSome_some, spread]
                  cases i with
                  | zero =>
                      cases he
                      refine ⟨result, rfl, ?_⟩
                      simp only [List.take_zero, List.take_succ_cons, hkeep, hrest, Step, hpassed]
                      exact writes_of_applyEdit happly
                  | succ i =>
                      simp only [List.take_succ_cons, hkeep, hrest]
                      exact ih hinner he

omit [TextRules] in
/-- A batch that is applied has a result for every edit. -/
theorem length_applyEditsIn {r : SqlResource ρ π φ} {w : WriteActions ρ π φ}
    {edits : List (φ × Edit π)} {results : List (Option ρ)}
    (h : (r.applyEditsIn w rows edits).1 = .ok results) : results.length = edits.length := by
  induction edits generalizing rows results with
  | nil =>
      cases h
      rfl
  | cons e edits ih =>
      obtain ⟨env, edit⟩ := e
      cases happly : r.applyEdit w env rows edit with
      | error err =>
          simp only [SqlResource.applyEditsIn, happly] at h
          cases h
      | ok out =>
          simp only [SqlResource.applyEditsIn, happly] at h
          cases hinner : (r.applyEditsIn w out.2 edits).1 with
          | error err =>
              rw [hinner] at h
              cases h
          | ok tail =>
              rw [hinner] at h
              cases h
              exact congrArg (· + 1) (ih hinner)

/-- A batch is applied to the table as far as it is passed on. -/
theorem service_applyEdits (edits : List (φ × Edit π)) :
    (t.service codec).call (.applyEdits edits) rows =
      (((t.resource.applyEditsIn t.resource.writeActions rows (t.passedEdits edits)).1.map
          (spread (edits.map fun e => (t.passed e.2).isSome))).mapError .raised,
        (t.resource.applyEditsIn t.resource.writeActions rows (t.passedEdits edits)).2) := by
  cases ha : t.authorization with
  | none =>
      have hpassed (edit : Edit π) : t.passed edit = some edit := by rw [passed, ha]
      have hedits : t.passedEdits edits = edits := by
        simp only [passedEdits, hpassed, Option.map_some, Prod.mk.eta, List.filterMap_some]
      simp only [service, ha, SqlResource.service, hedits, hpassed, Option.isSome_some]
      cases hresults : (t.resource.applyEditsIn t.resource.writeActions rows edits).1 with
      | error e => rfl
      | ok results => rw [Except.map, spread_true (length_applyEditsIn hresults)]
  | some a =>
      have hpermitted : (edits.map fun e => a.permitted e.1 e.2) =
          edits.map fun e => (t.passed e.2).map (e.1, ·) :=
        List.map_congr_left fun e _ => permitted_eq_passed ha e
      have hpassed : (edits.map fun e => (t.passed e.2).map (e.1, ·)).filterMap id =
          t.passedEdits edits := by
        rw [List.filterMap_map, passedEdits]
        rfl
      have hflags : (edits.map fun e => (t.passed e.2).map (e.1, ·)).map Option.isSome =
          edits.map fun e => (t.passed e.2).isSome := by
        rw [List.map_map]
        exact List.map_congr_left fun e _ => Option.isSome_map
      simp only [service, ha, Authorization.service, Authorization.applyEdits, hpermitted, hpassed,
        hflags]
      split
      · next hnone =>
          have hmissed : ∀ e ∈ edits, (t.passed e.2).isSome = false := by
            intro e he
            have hfilter := List.filterMap_eq_nil_iff.mp hnone e he
            rw [Option.map_eq_none_iff] at hfilter
            rw [hfilter, Option.isSome_none]
          rw [hnone, SqlResource.applyEditsIn, Except.map, spread_nil hmissed]
          rfl
      · simp only [SqlResource.service, hpermitted, hpassed]
        cases (t.resource.applyEditsIn t.resource.writeActions rows (t.passedEdits edits)).1 with
        | error e => rfl
        | ok results => rfl

/-- A creation that is completed reaches the table. -/
theorem create_of_call {env : φ} {item : π} {r : ρ}
    (h : (t.service codec).call (.create env item) rows = (.ok r, rows')) :
    t.Step rows (.create item) (some r) rows' := by
  have hinner : (t.resource.service codec).call (.create env item) rows = (.ok r, rows') ∧
      t.passed (.create item) = some (.create item) := by
    cases ha : t.authorization with
    | none =>
        rw [service, ha] at h
        exact ⟨h, by rw [passed, ha]⟩
    | some a =>
        rw [service, ha] at h
        simp only [Authorization.service] at h
        split at h
        · cases h
        · next hallowed =>
            refine ⟨h, ?_⟩
            rw [passed, ha]
            exact congrArg (Option.map _) (if_neg hallowed)
  obtain ⟨h, hpassed⟩ := hinner
  rw [Step, hpassed]
  simp only [SqlResource.service] at h
  split at h
  · cases h
  · next hcreate =>
      cases h
      exact .create hcreate

/-- An update that is completed reaches the table under the caller's policies. -/
theorem update_of_call {env : φ} {item : π} {condition : Option SearchFilter} {result : Option ρ}
    (h : (t.service codec).call (.update env item condition) rows = (.ok result, rows')) :
    t.Step rows (.update item condition) result rows' := by
  have hinner (condition : Option SearchFilter) (result : Option ρ) (rows' : List ρ)
      (h : (t.resource.service codec).call (.update env item condition) rows =
        (.ok result, rows')) : t.resource.update env rows item condition = .ok (result, rows') := by
    simp only [SqlResource.service] at h
    split at h
    · cases h
    · next hupdate =>
        cases h
        exact hupdate
  cases ha : t.authorization with
  | none =>
      rw [service, ha] at h
      rw [Step, passed, ha]
      exact .update (hinner _ _ _ h)
  | some a =>
      rw [service, ha] at h
      obtain ⟨r, rfl, hcall⟩ := Authorization.service_update_ok.mp h
      have hupdate := hinner _ _ _ hcall
      have hid : a.payloadId item ≠ .none := by
        intro hnone
        rw [t.payloadId_eq a ha] at hnone
        rw [SqlResource.update, if_pos hnone] at hupdate
        cases hupdate
      have hpassed : t.passed (.update item condition) = some (.update item
          (some (combine (a.permission (.standard .update)) condition))) := by
        rw [passed, ha]
        exact congrArg (Option.map _) (if_neg hid)
      rw [Step, hpassed]
      exact .update hupdate

/-- A row that was deleted was named. -/
theorem ne_none_of_delete {r : SqlResource ρ π φ} {id : Value} {condition : Option SearchFilter}
    (h : r.delete rows id condition = .ok (true, rows')) : id ≠ .none := by
  obtain ⟨conditions, hconditions, h⟩ := bind_eq_ok.mp h
  have hcount := (Prod.mk.inj (Except.ok.inj h)).1
  obtain ⟨row, -, hmatched⟩ := List.countP_pos_iff.mp (of_decide_eq_true hcount)
  exact ((SqlResource.matched_iff hconditions row).mp hmatched).1

/-- A deletion that is completed reaches the table under the caller's policies. -/
theorem delete_of_call {id : Value} {condition : Option SearchFilter} {deleted : Bool}
    (h : (t.service codec).call (.delete id condition) rows = (.ok deleted, rows')) :
    t.Step rows (.delete id condition) none rows' := by
  have hinner (condition : Option SearchFilter) (deleted : Bool) (rows' : List ρ)
      (h : (t.resource.service codec).call (.delete id condition) rows =
        (.ok deleted, rows')) : t.resource.delete rows id condition = .ok (deleted, rows') := by
    simp only [SqlResource.service] at h
    split at h
    · cases h
    · next hdelete =>
        cases h
        exact hdelete
  cases ha : t.authorization with
  | none =>
      rw [service, ha] at h
      rw [Step, passed, ha]
      exact .delete (hinner _ _ _ h)
  | some a =>
      rw [service, ha] at h
      obtain ⟨-, hcall⟩ := Authorization.service_delete_ok.mp h
      have hdelete := hinner _ _ _ hcall
      rcases passed_delete (t := t) id condition with ⟨-, hnone⟩ | hpassed
      · exact absurd hnone (ne_none_of_delete hdelete)
      · rw [Step, hpassed, deleteCondition, ha]
        exact .delete hdelete

/-- The edits of an operation that is completed take their steps one after the other. -/
theorem step_of_call {c : ServiceCall κ π φ} {reply : c.Reply ρ} {edits : List (Edit π)}
    (hcall : (t.service codec).call c rows = (.ok reply, rows')) (hedits : c.edits = some edits)
    {i : ℕ} (hedit : edits[i]? = some edit) : ∃ result, (c.results reply)[i]? = some result ∧
      t.Step (t.stateAfter codec c rows i) edit result (t.stateAfter codec c rows (i + 1)) := by
  cases c with
  | read | search | count | batchRead | authorize => cases hedits
  | applyEdits batch =>
      cases hedits
      rw [List.getElem?_map] at hedit
      obtain ⟨e, he, rfl⟩ := Option.map_eq_some_iff.mp hedit
      rw [service_applyEdits] at hcall
      cases hinner : (t.resource.applyEditsIn t.resource.writeActions rows
          (t.passedEdits batch)).1 with
      | error err =>
          rw [hinner] at hcall
          cases hcall
      | ok inner =>
          rw [hinner] at hcall
          cases hcall
          simp only [stateAfter, service_applyEdits]
          exact steps_of_applyEditsIn hinner he
  | create env item =>
      cases hedits
      cases i with
      | zero =>
          cases hedit
          refine ⟨_, rfl, ?_⟩
          simp only [stateAfter, if_true, Nat.zero_add, Nat.one_ne_zero, if_false, hcall]
          exact create_of_call hcall
      | succ i => cases hedit
  | update env item condition =>
      cases hedits
      cases i with
      | zero =>
          cases hedit
          refine ⟨_, rfl, ?_⟩
          simp only [stateAfter, if_true, Nat.zero_add, Nat.one_ne_zero, if_false, hcall]
          exact update_of_call hcall
      | succ i => cases hedit
  | delete id condition =>
      cases hedits
      cases i with
      | zero =>
          cases hedit
          refine ⟨_, rfl, ?_⟩
          simp only [stateAfter, if_true, Nat.zero_add, Nat.one_ne_zero, if_false, hcall]
          exact delete_of_call hcall
      | succ i => cases hedit

/-- **The events of an operation are true exactly if none of its deletions names a row that its
condition, under the caller's policies, does not keep.** -/
theorem truthful_iff {c : ServiceCall κ π φ} {reply : c.Reply ρ}
    (hcall : (t.service codec).call c rows = (.ok reply, rows')) :
    t.Truthful codec c rows reply ↔ ∀ i edit, (c.edits.getD [])[i]? = some edit →
      t.DeletesNamed (t.stateAfter codec c rows i) edit := by
  refine forall_congr' fun i => forall_congr' fun edit => forall_congr' fun hedit => ?_
  cases hedits : c.edits with
  | none =>
      rw [hedits] at hedit
      cases hedit
  | some edits =>
      rw [hedits, Option.getD_some] at hedit
      obtain ⟨result, hresult, hstep⟩ := step_of_call hcall hedits hedit
      obtain ⟨event, hevent, hpublished⟩ := published_getElem (t := t) hedit hresult
      rw [Option.getD_some, hpublished]
      exact truthfulEdit_iff hstep hevent

section Demo

/-- A table of numbers behind some policies. -/
def numbers (policies : List Policy) : AnnouncedTable (ℤ × ℤ) (ℤ × ℤ) Unit where
  resource := BatchRoute.numbersResource "numbers"
  authorization := some
    { policies, userId := none, resourceName := "numbers"
      toDto := (BatchRoute.numbersResource "numbers").toDto
      payloadId := (BatchRoute.numbersResource "numbers").payloadId }
  target :=
    { path := "numbers"
      idField := "id"
      fields := ["id", "value"]
      holds _ _ := true
      readFields := ["id", "value"]
      read _ := some
      idField_mem := .head _
      readFields_subset := List.Subset.refl _
      read_isSome _ _ _ _ := rfl }
  path := "numbers"
  toJsonable := id
  dto r := [("id", .scalar (.int r.1)), ("value", .scalar (.int r.2))]
  isRow _ := ⟨rfl, fun _ _ _ => rfl⟩
  idOf_write _ _ := rfl
  payloadId_eq := by
    rintro a ⟨⟩
    rfl

omit [TextRules] in
/-- A caller who may delete deletes a number. -/
theorem numbers_truthful :
    letI := TextRules.ascii
    (numbers [.allowAll]).Truthful CursorCodec.plain
      (.applyEdits [((), .delete (.scalar (.int 1)) none)]) [(1, 5)] [none] := by
  let _ := TextRules.ascii
  have hcall : ((numbers [.allowAll]).service CursorCodec.plain).call
      (.applyEdits [((), .delete (.scalar (.int 1)) none)]) [(1, 5)] = (.ok [none], []) := rfl
  refine (truthful_iff hcall).mpr fun i edit hedit => ?_
  cases i with
  | succ i => cases hedit
  | zero =>
      cases hedit
      rintro _ _ ⟨⟩ r - hid
      refine ⟨nofun, hid, ?_⟩
      rintro _ ⟨⟩
      exact keeps_all

omit [TextRules] in
/-- The deletion of a number by a caller who may only read is announced. -/
theorem not_eventsTruthful_readOnly :
    letI := TextRules.ascii
    ¬ (numbers [.readOnly]).EventsTruthful CursorCodec.plain := by
  let _ := TextRules.ascii
  intro htruthful
  have hgone := (htruthful (.applyEdits [((), .delete (.scalar (.int 1)) none)]) [(1, 5)] [none]
    [(1, 5)] rfl 0 _ rfl).gone _ _ _ rfl rfl
  exact hgone (1, 5) (.head _) rfl

end Demo

end AnnouncedTable

end Resourcey
