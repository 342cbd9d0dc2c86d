import Resourcey.Auth.ConstantPolicies
import Resourcey.List.ListService
import Resourcey.Mongo.MongoWrites
import Resourcey.Mongo.Pushdown
import Resourcey.Sql.Session

/-!
# Constant filters over rows

`SqlService` and `MongoService` are one service over different actions (`RowActions`): each applies a
batch as a loop over its edits, and each edit is one of its own writes. So what the two constants do
to a batch follows from what they do to an update and to a deletion (`RowActions.honoursConstants`).
What they do there rests on the conversions: a filter under `AllFilter` keeps the rows that it keeps
alone (`whereClause_and_all`, `mongoCondition_and_all`), also where it is not supported and the rows
are matched in memory.
-/

namespace Resourcey

variable {ρ κ π φ : Type}

/-! ## Services over rows -/

/-- The actions of a service over rows, and those that a batch may take. -/
structure RowActions (ρ κ π φ : Type) extends WriteActions ρ π φ where
  read : List ρ → Value → Except ResourceyError ρ
  search : List ρ → Option SearchFilter → Option SortOrder → Option κ → ℕ →
    Except ResourceyError (Page ρ κ)
  count : List ρ → Option SearchFilter → Except ResourceyError ℕ
  batchRead : List ρ → List Value → List (Option ρ)
  supported : List Action

/-- The action returns, or fails for what the store holds. -/
def Settles {β : Type} (x : Except ResourceyError β) : Prop := ∀ e, x = .error e → e.OfStore

theorem Settles.of_ok {β : Type} {x : Except ResourceyError β} {b : β} (h : x = .ok b) :
    Settles x := fun _ he => nomatch h.symm.trans he

/-- A failure that is not of the store does not settle. -/
theorem not_settles_of_error {β : Type} {x : Except ResourceyError β} {e : ResourceyError}
    (h : x = .error e) (he : ¬ e.OfStore) : ¬ Settles x := fun hx => he (hx e h)

/-- Naming a failure anew makes no success of it. -/
theorem ok_of_mapError_ok {ε ε' β : Type} {x : Except ε β} {f : ε → ε'} {b : β}
    (h : x.mapError f = .ok b) : x = .ok b := by
  cases x with
  | error e => cases h
  | ok b' =>
      cases h
      rfl

/-- An action whose first step fails only for other reasons settles after that step. -/
theorem Settles.of_bind {β γ : Type} {x : Except ResourceyError β}
    {f : β → Except ResourceyError γ} (hx : ∀ e, x = .error e → ¬ e.OfStore)
    (h : Settles (x >>= f)) : ∃ b, x = .ok b ∧ Settles (f b) := by
  cases x with
  | error e => exact absurd (h e rfl) (hx e rfl)
  | ok b => exact ⟨b, rfl, h⟩

namespace RowActions

variable (a : RowActions ρ κ π φ)

/-- One edit of a batch. -/
def applyEdit (env : φ) (rows : List ρ) : Edit π → Except ResourceyError (Option ρ × List ρ)
  | .create item =>
    if .create ∉ a.supported then
      .error (.invalidInput "a batch cannot create: create is not supported")
    else do
      let (r, rows) ← a.create env rows item
      return (some r, rows)
  | .update item condition =>
    if .update ∉ a.supported then
      .error (.invalidInput "a batch cannot update: update is not supported")
    else a.update env rows item condition
  | .delete id condition =>
    if .delete ∉ a.supported then
      .error (.invalidInput "a batch cannot delete: delete is not supported")
    else do
      let (_, rows) ← a.delete rows id condition
      return (none, rows)

/-- A batch, one edit after the other until one raises. -/
def applyEdits (rows : List ρ) : List (φ × Edit π) →
    Except ResourceyError (List (Option ρ)) × List ρ
  | [] => (.ok [], rows)
  | (env, edit) :: edits =>
    match a.applyEdit env rows edit with
    | .error e => (.error e, rows)
    | .ok (result, rows) =>
      let (results, rows) := applyEdits rows edits
      (results.map (result :: ·), rows)

/-- A write in the table: one that raises leaves it. -/
def written {β : Type} (rows : List ρ) : Except ResourceyError (β × List ρ) →
    Except ServiceFailure β × List ρ
  | .error e => (.error (.raised e), rows)
  | .ok (b, rows) => (.ok b, rows)

/-- The service of the actions. -/
def service : Service (List ρ) ρ κ π φ where
  call
    | .create env payload => fun rows => written rows (a.create env rows payload)
    | .read id => fun rows => ((a.read rows id).mapError .raised, rows)
    | .update env payload condition => fun rows =>
      written rows (a.update env rows payload condition)
    | .delete id condition => fun rows => written rows (a.delete rows id condition)
    | .search f sort cursor limit => fun rows =>
      ((a.search rows f sort cursor limit).mapError .raised, rows)
    | .count f => fun rows => ((a.count rows f).mapError .raised, rows)
    | .batchRead ids => fun rows => (.ok (a.batchRead rows ids), rows)
    | .authorize _ _ => fun rows => (.error .notImplemented, rows)
    | .applyEdits edits => fun rows =>
      ((a.applyEdits rows edits).1.mapError .raised, (a.applyEdits rows edits).2)

/-- The two constants among the filters of the actions. Under `AllFilter` an action that settles
does what it does alone; under `NoMatchFilter` one that settles in some table finds nothing in any,
and leaves it. -/
structure Laws (payloadId : π → Value) : Prop where
  read : ∀ rows id, (∃ r, a.read rows id = .ok r) ∨ a.read rows id = .error (.notFound id)
  batchRead : ∀ rows ids, (a.batchRead rows ids).length = ids.length
  search_all : ∀ {rows f sort cursor limit}, Settles (a.search rows f sort cursor limit) →
    a.search rows (some (combine .all f)) sort cursor limit = a.search rows f sort cursor limit
  search_noMatch : ∀ {rows' f sort cursor limit}, Settles (a.search rows' f sort cursor limit) →
    ∀ rows, a.search rows (some .noMatch) sort cursor limit = .ok ⟨[], limit, none⟩
  count_all : ∀ {rows f}, Settles (a.count rows f) →
    a.count rows (some (combine .all f)) = a.count rows f
  count_noMatch : ∀ rows, a.count rows (some .noMatch) = .ok 0
  update_all : ∀ {env rows payload condition}, Settles (a.update env rows payload condition) →
    a.update env rows payload (some (combine .all condition)) = a.update env rows payload condition
  update_named : ∀ {env rows payload condition}, Settles (a.update env rows payload condition) →
    payloadId payload ≠ .none
  update_noMatch : ∀ {env payload}, payloadId payload ≠ .none →
    ∀ rows, a.update env rows payload (some .noMatch) = .ok (none, rows)
  delete_all : ∀ {rows id condition}, Settles (a.delete rows id condition) →
    a.delete rows id (some (combine .all condition)) = a.delete rows id condition
  delete_noMatch : ∀ rows id, a.delete rows id (some .noMatch) = .ok (false, rows)

/-! ## Batches -/

variable {a} {rows : List ρ} {edits : List (φ × Edit π)}

/-- An edit that does not settle is where its batch ends. -/
theorem applyEdits_of_error {e : φ × Edit π} {error : ResourceyError}
    (h : a.applyEdit e.1 rows e.2 = .error error) :
    a.applyEdits rows (e :: edits) = (.error error, rows) := by
  rw [applyEdits, h]

/-- After an edit comes the rest of its batch. -/
theorem applyEdits_of_ok {e : φ × Edit π} {result : Option ρ} {mid : List ρ}
    (h : a.applyEdit e.1 rows e.2 = .ok (result, mid)) :
    a.applyEdits rows (e :: edits) =
      ((a.applyEdits mid edits).1.map (result :: ·), (a.applyEdits mid edits).2) := by
  rw [applyEdits, h]

omit a in
theorem settled_written {β : Type} {x : Except ResourceyError (β × List ρ)} :
    Settled (written rows x).1 ↔ Settles x := by
  cases x with
  | error e => simp [written, Settled, Settles, ServiceFailure.OfStore]
  | ok out => simp [written, Settled, Settles]

/-- A batch returns if its first edit and then the others do. -/
theorem applyEdits_cons_ok {e : φ × Edit π} {results : List (Option ρ)} :
    (a.applyEdits rows (e :: edits)).1 = .ok results ↔ ∃ result mid rest,
      a.applyEdit e.1 rows e.2 = .ok (result, mid) ∧ (a.applyEdits mid edits).1 = .ok rest ∧
        results = result :: rest := by
  cases h : a.applyEdit e.1 rows e.2 with
  | error error => simp [applyEdits_of_error h]
  | ok out =>
      obtain ⟨result, mid⟩ := out
      rw [applyEdits_of_ok h]
      cases hrest : (a.applyEdits mid edits).1 with
      | error error => simp [Except.map, hrest]
      | ok rest => simp [Except.map, hrest, eq_comm]

/-- A batch that returns has a result for every edit. -/
theorem length_of_applyEdits_ok {results : List (Option ρ)}
    (h : (a.applyEdits rows edits).1 = .ok results) : results.length = edits.length := by
  induction edits generalizing rows results with
  | nil =>
      cases h
      rfl
  | cons e edits ih =>
      obtain ⟨result, mid, rest, -, hrest, rfl⟩ := applyEdits_cons_ok.mp h
      rw [List.length_cons, List.length_cons, ih hrest]

namespace Laws

variable {payloadId : π → Value} (h : a.Laws payloadId)
include h

/-- An edit that settles does under `AllFilter` what it does alone. -/
theorem applyEdit_all {env : φ} {edit : Edit π} (hs : Settles (a.applyEdit env rows edit)) :
    a.applyEdit env rows (edit.under .all) = a.applyEdit env rows edit := by
  cases edit with
  | create item => rfl
  | update item condition =>
      simp only [applyEdit, Edit.under] at hs ⊢
      by_cases hsupported : Action.update ∉ a.supported
      · rw [if_pos hsupported, if_pos hsupported]
      · rw [if_neg hsupported] at hs ⊢
        rw [if_neg hsupported, h.update_all hs]
  | delete id condition =>
      simp only [applyEdit, Edit.under] at hs ⊢
      by_cases hsupported : Action.delete ∉ a.supported
      · rw [if_pos hsupported, if_pos hsupported]
      · rw [if_neg hsupported] at hs ⊢
        have hdelete : Settles (a.delete rows id condition) := by
          intro e he
          exact hs e (by rw [he]; rfl)
        rw [if_neg hsupported, h.delete_all hdelete]

/-- A batch that settles does under `AllFilter` what it does alone. -/
theorem applyEdits_all (hs : Settles (a.applyEdits rows edits).1) :
    a.applyEdits rows (editsUnder .all edits) = a.applyEdits rows edits := by
  induction edits generalizing rows with
  | nil => rfl
  | cons e edits ih =>
      have hedit : a.applyEdit e.1 rows (e.2.under .all) = a.applyEdit e.1 rows e.2 := by
        refine h.applyEdit_all fun error herror => hs error ?_
        rw [applyEdits_of_error herror]
      have hunder : editsUnder .all (e :: edits) = (e.1, e.2.under .all) :: editsUnder .all edits :=
        rfl
      rw [hunder]
      cases hout : a.applyEdit e.1 rows e.2 with
      | error error =>
          rw [applyEdits_of_error hout, applyEdits_of_error (hedit.trans hout)]
      | ok out =>
          obtain ⟨result, mid⟩ := out
          have hrest : Settles (a.applyEdits mid edits).1 := by
            intro error herror
            refine hs error ?_
            rw [applyEdits_of_ok hout, herror]
            rfl
          rw [applyEdits_of_ok hout, applyEdits_of_ok (hedit.trans hout), ih hrest]

/-- An edit that is taken names an identifier. -/
theorem named_of_applyEdit_ok {env : φ} {edit : Edit π} {out : Option ρ × List ρ}
    (hok : a.applyEdit env rows edit = .ok out) : ∀ item ∈ edit.updated, payloadId item ≠ .none := by
  cases edit with
  | create | delete => nofun
  | update item condition =>
      rintro _ ⟨⟩
      simp only [applyEdit] at hok
      split at hok
      · cases hok
      · exact h.update_named (Settles.of_ok hok)

/-- The edits of a batch that returns name identifiers. -/
theorem namesUpdates {results : List (Option ρ)} (hok : (a.applyEdits rows edits).1 = .ok results) :
    NamesUpdates payloadId edits := by
  induction edits generalizing rows results with
  | nil => exact nofun
  | cons e edits ih =>
      obtain ⟨result, mid, rest, hedit, hrest, -⟩ := applyEdits_cons_ok.mp hok
      exact List.forall_mem_cons.mpr ⟨h.named_of_applyEdit_ok hedit, ih hrest⟩

/-- An edit that is taken in some table misses under `NoMatchFilter` in every one. -/
theorem applyEdit_noMatch {env : φ} {edit : Edit π} {rows' : List ρ} {out : Option ρ × List ρ}
    (hok : a.applyEdit env rows' edit = .ok out) (hedit : edit.created = none) :
    a.applyEdit env rows (edit.under .noMatch) = .ok (none, rows) := by
  have hnamed := h.named_of_applyEdit_ok hok
  cases edit with
  | create item => cases hedit
  | update item condition =>
      simp only [applyEdit, Edit.under, combine_noMatch] at hok ⊢
      split at hok
      · cases hok
      · next hsupported => rw [if_neg hsupported, h.update_noMatch (hnamed item rfl)]
  | delete id condition =>
      simp only [applyEdit, Edit.under, combine_noMatch] at hok ⊢
      split at hok
      · cases hok
      · next hsupported =>
          rw [if_neg hsupported, h.delete_noMatch]
          rfl

/-- The writes of a batch that returns in some table miss under `NoMatchFilter` in every one. -/
theorem applyEdits_noMatch {rows' : List ρ} {results : List (Option ρ)}
    (hok : (a.applyEdits rows' edits).1 = .ok results) :
    a.applyEdits rows (editsUnder .noMatch (edits.filter fun e => e.2.created.isNone)) =
      (.ok ((edits.filter fun e => e.2.created.isNone).map fun _ => none), rows) := by
  induction edits generalizing rows' results with
  | nil => rfl
  | cons e edits ih =>
      obtain ⟨result, mid, rest, hedit, hrest, -⟩ := applyEdits_cons_ok.mp hok
      have ih := ih hrest
      cases hcreated : e.2.created with
      | some item => rwa [List.filter_cons_of_neg (by simp [hcreated])]
      | none =>
          have hmiss : a.applyEdit e.1 rows (e.2.under .noMatch) = .ok (none, rows) :=
            h.applyEdit_noMatch hedit hcreated
          rw [List.filter_cons_of_pos (by simp [hcreated]), List.map_cons]
          have hunder (l : List (φ × Edit π)) : editsUnder .noMatch (e :: l) =
            (e.1, e.2.under .noMatch) :: editsUnder .noMatch l := rfl
          rw [hunder, applyEdits_of_ok hmiss, ih]
          rfl

/-- **A service over rows honours the constants if its actions do.** -/
theorem honoursConstants : HonoursConstants a.service payloadId := by
  constructor
  · intro f sort cursor limit rows hs
    simp only [service, h.search_all (settled_mapError.mp hs)]
  · intro f sort cursor limit rows' hs rows
    simp only [service, h.search_noMatch (settled_mapError.mp hs), Except.mapError]
  · intro f rows hs
    simp only [service, h.count_all (settled_mapError.mp hs)]
  · intro f rows' hs rows
    simp only [service, h.count_noMatch, Except.mapError]
  · intro env payload condition rows hs
    simp only [service, h.update_all (settled_written.mp hs)]
  · intro env payload condition rows' hs rows
    simp only [service, h.update_noMatch (h.update_named (settled_written.mp hs)), written]
  · intro id condition rows hs
    simp only [service, h.delete_all (settled_written.mp hs)]
  · intro id condition rows' hs rows
    simp only [service, h.delete_noMatch, written]
  · intro edits rows results hok
    exact h.namesUpdates (ok_of_mapError_ok hok)
  · intro edits rows results hok
    exact length_of_applyEdits_ok (ok_of_mapError_ok hok)
  · intro edits rows hnamed hs
    simp only [service, h.applyEdits_all (settled_mapError.mp hs)]
  · intro edits rows' results hok rows
    simp only [service, h.applyEdits_noMatch (ok_of_mapError_ok hok), Except.mapError]

/-- Reads are plain. -/
theorem readsPlainly : ReadsPlainly a.service where
  read {id _} _ rows := by
    rcases h.read rows id with ⟨r, hr⟩ | hnone
    · exact .inl ⟨r, by simp only [service, hr, Except.mapError]⟩
    · exact .inr (by simp only [service, hnone, Except.mapError])
  batchRead {ids _} _ rows := ⟨a.batchRead rows ids, rfl, h.batchRead rows ids⟩
  noEdits _ _ := rfl
  authorize _ _ _ := fun hs => hs

end Laws

end RowActions

/-! ## SQL -/

variable [TextRules]

/-- A filter under `AllFilter` answers what it answers alone. -/
theorem matches_combine_all {f : SearchFilter} {x : Subject} {b : Bool}
    (h : f.matches x = .ok b) : (combine .all (some f)).matches x = .ok b := by
  refine SearchFilter.matches_and_ ?_
  have hall : SearchFilter.matchesAll [.all, f] x = SearchFilter.matchesAll [f] x := rfl
  rw [hall, SearchFilter.matchesAll_singleton, h]

omit [TextRules] in
/-- What passes one test passes another that answers alike. -/
theorem comprehension_of_imp {α : Type} {test test' : α → Except TypeError Bool} {xs l : List α}
    (htest : ∀ x b, test x = .ok b → test' x = .ok b) (h : comprehension test xs = .ok l) :
    comprehension test' xs = .ok l := by
  induction xs generalizing l with
  | nil => exact h
  | cons x xs ih =>
      obtain ⟨b, hb, h⟩ := bind_eq_ok.mp h
      obtain ⟨l', hl', h⟩ := bind_eq_ok.mp h
      rw [comprehension, htest x b hb, ih hl']
      exact h

/-- The items that match in memory match under `AllFilter`. -/
theorem comprehension_combine_all {α : Type} {f : SearchFilter} {toDto : α → Subject}
    {xs l : List α} (h : comprehension (fun x => f.matches (toDto x)) xs = .ok l) :
    comprehension (fun x => (combine .all (some f)).matches (toDto x)) xs = .ok l :=
  comprehension_of_imp (fun _ _ => matches_combine_all) h

/-- No item matches `NoMatchFilter`. -/
theorem comprehension_noMatch {α : Type} (toDto : α → Subject) (xs : List α) :
    comprehension (fun x => SearchFilter.noMatch.matches (toDto x)) xs = .ok [] := by
  induction xs with
  | nil => rfl
  | cons x xs ih =>
      rw [comprehension, ih]
      rfl

omit [TextRules] in
/-- A comparison that raises is no failure of the store. -/
theorem not_ofStore_of_mapError {β : Type} {x : Except TypeError β} {e : ResourceyError}
    (h : x.mapError .typeError = .error e) : ¬ e.OfStore := by
  cases x with
  | error error =>
      cases h
      exact fun h => h
  | ok b => cases h

namespace SqlTable

variable {t : SqlTable ρ} {rows : List ρ} {filter : Option SearchFilter} {conditions : List SqlExpr}

/-- The rows that match in memory, as a comprehension. -/
theorem survivingRows_comprehension (f : SearchFilter) (rows : List ρ) : t.survivingRows f rows =
    (comprehension (fun r => f.matches (t.toDto r)) rows).mapError .typeError := by
  induction rows with
  | nil => rfl
  | cons r rows ih =>
      rw [survivingRows, comprehension, matchesRow, ih]
      cases f.matches (t.toDto r) with
      | error e => rfl
      | ok b =>
          cases comprehension (fun r => f.matches (t.toDto r)) rows with
          | error | ok => rfl

/-- A filter that a read cannot take is not one of the store. -/
theorem applyFilters_error {e : ResourceyError} (h : t.applyFilters rows filter = .error e) :
    ¬ e.OfStore := by
  cases filter with
  | none => cases h
  | some f =>
      rw [applyFilters] at h
      split at h
      · split at h
        · rcases bind_eq_error.mp h with h | ⟨l, -, h⟩
          · rw [survivingRows_comprehension] at h
            exact not_ofStore_of_mapError h
          · cases h
        · cases h
          exact fun h => h
      · rcases bind_eq_error.mp h with h | ⟨c, -, h⟩
        · obtain ⟨message, rfl⟩ := condition_error h
          exact fun h => h
        · split at h <;> cases h

/-- Under `AllFilter` a read keeps the rows that its filter keeps. -/
theorem applyFilters_all (h : t.applyFilters rows filter = .ok conditions) :
    ∃ conditions', t.applyFilters rows (some (combine .all filter)) = .ok conditions' ∧
      t.selects conditions' = t.selects conditions := by
  cases filter with
  | none =>
      cases h
      exact ⟨[], rfl, rfl⟩
  | some f =>
      cases hwhere : whereClause t.filterContext f with
      | ok es =>
          obtain ⟨es', hes', hsame⟩ := whereClause_and_all hwhere
          rw [applyFilters, hwhere] at h
          cases h
          exact ⟨es', by rw [combine, applyFilters, hes'], funext fun r => hsame (t.row r)⟩
      | error e =>
          rw [applyFilters, hwhere] at h
          split at h
          · next message hmessage =>
              split at h
              · next hiteration =>
                  obtain ⟨l, hl, h⟩ := bind_eq_ok.mp h
                  cases h
                  rw [survivingRows_comprehension] at hl
                  have hl := comprehension_combine_all (ok_of_mapError_ok hl)
                  rcases whereClause_and_all_error hwhere with hnone | ⟨message', hand⟩
                  · -- What is matched in memory is nothing.
                    rw [combine, hnone, comprehension_noMatch] at hl
                    cases hl
                    refine ⟨[.const false], by rw [combine, hnone]; rfl, funext fun r => ?_⟩
                    simp [selects, SqlExpr.keeps]
                  · refine ⟨[.isIn t.idColumn (l.map t.idOf)], ?_, rfl⟩
                    rw [combine, applyFilters, hand]
                    simp only [hiteration, if_true, filtersByIteration]
                    rw [survivingRows_comprehension, ← combine, hl]
                    rfl
              · cases h
          · cases h

/-- Under `AllFilter` a write keeps the rows that its condition keeps. -/
theorem applyCondition_all (h : t.applyCondition filter = .ok conditions) :
    ∃ conditions', t.applyCondition (some (combine .all filter)) = .ok conditions' ∧
      t.selects conditions' = t.selects conditions := by
  cases filter with
  | none =>
      cases h
      exact ⟨[], rfl, rfl⟩
  | some f =>
      cases hwhere : whereClause t.filterContext f with
      | ok es =>
          obtain ⟨es', hes', hsame⟩ := whereClause_and_all hwhere
          rw [applyCondition, hwhere] at h
          cases h
          exact ⟨es', by rw [combine, applyCondition, hes'], funext fun r => hsame (t.row r)⟩
      | error e =>
          rw [applyCondition, hwhere] at h
          split at h
          · cases h
          · cases h

/-- A condition that a write cannot take is not one of the store. -/
theorem applyCondition_error {e : ResourceyError} (h : t.applyCondition filter = .error e) :
    ¬ e.OfStore := by
  rcases t.applyCondition_cases filter with ⟨-, conditions, hok⟩ | ⟨-, message, herror⟩
  · cases h.symm.trans hok
  · cases h.symm.trans herror
    exact fun h => h

omit [TextRules] in
theorem sortColumnFor_error {name : String} {e : ResourceyError}
    (h : t.sortColumnFor name = .error e) : ¬ e.OfStore := by
  unfold sortColumnFor at h
  split at h
  · cases h
  · cases h
    exact fun h => h

omit [TextRules] in
theorem applySort_error {sort : Option SortOrder} {e : ResourceyError}
    (h : t.applySort sort = .error e) : ¬ e.OfStore := by
  cases sort with
  | none => cases h
  | some s =>
      rcases bind_eq_error.mp h with h | ⟨column, -, h⟩
      · exact sortColumnFor_error h
      · cases h

omit [TextRules] in
theorem seek_error {codec : CursorCodec κ} {cursor : Option κ} {sort : Option SortOrder}
    {e : ResourceyError} (h : t.seek codec cursor sort = .error e) : ¬ e.OfStore := by
  cases cursor with
  | none => cases h
  | some c =>
      rcases bind_eq_error.mp h with h | ⟨predicate, -, h⟩
      · unfold cursorPredicate at h
        split at h
        · cases h
          exact fun h => h
        · split at h
          · cases h
            exact fun h => h
          · split at h
            · cases h
            · rcases bind_eq_error.mp h with h | ⟨column, -, h⟩
              · exact sortColumnFor_error h
              · cases h
      · cases h

/-- A search that settles has an order, conditions and a place to start. -/
theorem search_settles {codec : CursorCodec κ} {sort : Option SortOrder} {cursor : Option κ}
    {limit : ℕ} (h : Settles (t.search codec rows filter sort cursor limit)) :
    ∃ order conditions seek, t.applySort sort = .ok order ∧
      t.applyFilters rows filter = .ok conditions ∧ t.seek codec cursor sort = .ok seek := by
  obtain ⟨order, horder, h⟩ := h.of_bind fun e => applySort_error
  obtain ⟨conditions, hconditions, h⟩ := h.of_bind fun e => applyFilters_error
  obtain ⟨seek, hseek, -⟩ := h.of_bind fun e => seek_error
  exact ⟨order, conditions, seek, horder, hconditions, hseek⟩

/-- What a search returns. -/
theorem search_of_ok {codec : CursorCodec κ} {sort : Option SortOrder} {cursor : Option κ}
    (limit : ℕ) {order : List OrderTerm} {seek : List SqlExpr} (horder : t.applySort sort = .ok order)
    (hconditions : t.applyFilters rows filter = .ok conditions)
    (hseek : t.seek codec cursor sort = .ok seek) :
    t.search codec rows filter sort cursor limit = .ok (Page.ofFound limit (t.nextCursor codec sort)
      (t.select rows (conditions ++ seek) order (limit + 1))) := by
  rw [search, horder, hconditions, hseek]
  rfl

theorem selects_append (conditions seek : List SqlExpr) (r : ρ) :
    t.selects (conditions ++ seek) r = (t.selects conditions r && t.selects seek r) :=
  List.all_append

end SqlTable

namespace SqlResource

variable {s : SqlResource ρ π φ} {rows : List ρ} {conditions conditions' : List SqlExpr}

/-- A write under conditions that keep the same rows matches the same rows. -/
theorem matched_congr (h : s.selects conditions' = s.selects conditions) (id : Value) :
    s.matched id conditions' = s.matched id conditions := by
  funext r
  have hr := congrFun h r
  rw [SqlTable.selects, SqlTable.selects] at hr
  rw [matched, matched, SqlTable.selects, SqlTable.selects, List.all_cons, List.all_cons, hr]

/-- What `NoMatchFilter` is converted to matches nothing. -/
theorem matched_noMatch (id : Value) (r : ρ) : s.matched id [.const false] r = false := by
  simp [matched, SqlTable.selects, SqlExpr.keeps]

/-- The actions of `SqlService`. -/
def rowActions (s : SqlResource ρ π φ) (codec : CursorCodec κ) : RowActions ρ κ π φ where
  toWriteActions := s.writeActions
  read := s.read
  search := s.search codec
  count := s.count
  batchRead := s.batchRead
  supported := s.supported

/-- `SqlService` is the service of its actions. -/
theorem service_eq_rowActions (codec : CursorCodec κ) :
    s.service codec = (s.rowActions codec).service := by
  have hedit (env : φ) (rows : List ρ) (edit : Edit π) :
      s.applyEdit s.writeActions env rows edit = (s.rowActions codec).applyEdit env rows edit := by
    cases edit with
    | create | update | delete => rfl
  have hedits (edits : List (φ × Edit π)) (rows : List ρ) :
      s.applyEditsIn s.writeActions rows edits = (s.rowActions codec).applyEdits rows edits := by
    induction edits generalizing rows with
    | nil => rfl
    | cons e edits ih =>
        rw [applyEditsIn, RowActions.applyEdits, hedit]
        cases (s.rowActions codec).applyEdit e.1 rows e.2 with
        | error => rfl
        | ok o => exact congrArg (fun p => (p.1.map (o.1 :: ·), p.2)) (ih o.2)
  have hcall : (s.service codec).call = (s.rowActions codec).service.call := by
    funext c rows
    cases c with
    | create env payload =>
        change _ = RowActions.written rows (s.create env rows payload)
        simp only [service]
        cases s.create env rows payload with
        | error | ok => rfl
    | update env payload condition =>
        change _ = RowActions.written rows (s.update env rows payload condition)
        simp only [service]
        cases s.update env rows payload condition with
        | error | ok => rfl
    | delete id condition =>
        change _ = RowActions.written rows (s.delete rows id condition)
        simp only [service]
        cases s.delete rows id condition with
        | error | ok => rfl
    | read | search | count | batchRead | authorize => rfl
    | applyEdits edits => simp only [service, RowActions.service, hedits]
  exact congrArg (fun call => (Service.mk call (fun _ => none) fun _ => false)) hcall

/-- An update under an applied condition. -/
theorem update_of_ok {env : φ} {payload : π} {condition : Option SearchFilter}
    (hid : s.payloadId payload ≠ .none) (h : s.applyCondition condition = .ok conditions) :
    s.update env rows payload condition =
      if s.hasData (s.withDefaults env .update payload) then
        if rows.countP (s.matched (s.payloadId payload) conditions) = 0 then .ok (none, rows)
        else do
          let rows' := rows.map fun r =>
            if s.matched (s.payloadId payload) conditions r then
              s.write (s.withDefaults env .update payload) r
            else r
          let r ← s.read rows' (s.payloadId payload)
          return (some r, rows')
      else .ok (rows.find? (s.matched (s.payloadId payload) conditions), rows) := by
  simp only [update, if_neg hid, h]
  rfl

/-- An update that settles names a row, under a condition that applies. -/
theorem update_settles {env : φ} {payload : π} {condition : Option SearchFilter}
    (h : Settles (s.update env rows payload condition)) :
    s.payloadId payload ≠ .none ∧ ∃ conditions, s.applyCondition condition = .ok conditions := by
  unfold update at h
  by_cases hid : s.payloadId payload = .none
  · exact absurd h (not_settles_of_error (if_pos hid) fun h => h)
  · rw [if_neg hid] at h
    obtain ⟨conditions, hconditions, -⟩ := h.of_bind fun e => SqlTable.applyCondition_error
    exact ⟨hid, conditions, hconditions⟩

/-- A deletion under an applied condition. -/
theorem delete_of_ok {id : Value} {condition : Option SearchFilter}
    (h : s.applyCondition condition = .ok conditions) :
    s.delete rows id condition = .ok (decide (rows.countP (s.matched id conditions) > 0),
      rows.filter fun r => !s.matched id conditions r) := by
  rw [delete, h]
  rfl

/-- **`SqlService` honours the two constants.** -/
theorem rowActions_laws (s : SqlResource ρ π φ) (codec : CursorCodec κ) :
    (s.rowActions codec).Laws s.payloadId where
  read rows id := by
    simp only [rowActions, SqlTable.read]
    split
    · exact .inl ⟨_, rfl⟩
    · exact .inr rfl
  batchRead rows ids := List.length_map ..
  search_all {rows f sort cursor limit} hs := by
    obtain ⟨order, conditions, seek, horder, hconditions, hseek⟩ := SqlTable.search_settles hs
    obtain ⟨conditions', hall, hsame⟩ := SqlTable.applyFilters_all hconditions
    have hselects : s.selects (conditions' ++ seek) = s.selects (conditions ++ seek) := by
      funext r
      rw [SqlTable.selects_append, SqlTable.selects_append, hsame]
    refine (SqlTable.search_of_ok limit horder hall hseek).trans ?_
    refine Eq.trans ?_ (SqlTable.search_of_ok limit horder hconditions hseek).symm
    rw [SqlTable.select, SqlTable.select, hselects]
  search_noMatch {rows' f sort cursor limit} hs rows := by
    obtain ⟨order, conditions, seek, horder, -, hseek⟩ := SqlTable.search_settles hs
    have hnone : s.applyFilters rows (some .noMatch) = .ok [.const false] := rfl
    refine (SqlTable.search_of_ok limit horder hnone hseek).trans ?_
    have hempty : rows.filter (s.selects ([.const false] ++ seek)) = [] := by
      refine List.filter_eq_nil_iff.mpr fun r _ => ?_
      rw [SqlTable.selects_append]
      simp [SqlTable.selects, SqlExpr.keeps]
    rw [SqlTable.select, hempty]
    simp [Page.ofFound]
  count_all {rows f} hs := by
    obtain ⟨conditions, hconditions, -⟩ := Settles.of_bind (fun e => SqlTable.applyFilters_error) hs
    obtain ⟨conditions', hall, hsame⟩ := SqlTable.applyFilters_all hconditions
    simp only [rowActions, SqlTable.count, hconditions, hall]
    exact congrArg (fun keeps => Except.ok (rows.countP keeps)) hsame
  count_noMatch rows := by
    have hzero : rows.countP (s.selects [.const false]) = 0 := by
      refine List.countP_eq_zero.mpr fun r _ => ?_
      simp [SqlTable.selects, SqlExpr.keeps]
    exact congrArg Except.ok hzero
  update_all {env rows payload condition} hs := by
    obtain ⟨hid, conditions, hconditions⟩ := update_settles hs
    obtain ⟨conditions', hall, hsame⟩ := SqlTable.applyCondition_all hconditions
    refine (update_of_ok hid hall).trans (Eq.trans ?_ (update_of_ok hid hconditions).symm)
    rw [matched_congr hsame]
  update_named hs := (update_settles hs).1
  update_noMatch {env payload} hid rows := by
    have hnone : s.applyCondition (some .noMatch) = .ok [.const false] := rfl
    refine (update_of_ok hid hnone).trans ?_
    have hzero : rows.countP (s.matched (s.payloadId payload) [.const false]) = 0 :=
      List.countP_eq_zero.mpr fun r _ => by simp [matched_noMatch]
    have hfind : rows.find? (s.matched (s.payloadId payload) [.const false]) = none :=
      List.find?_eq_none.mpr fun r _ => by simp [matched_noMatch]
    rw [if_pos hzero, hfind, ite_self]
  delete_all {rows id condition} hs := by
    obtain ⟨conditions, hconditions, -⟩ :=
      Settles.of_bind (fun e => SqlTable.applyCondition_error) hs
    obtain ⟨conditions', hall, hsame⟩ := SqlTable.applyCondition_all hconditions
    refine (delete_of_ok hall).trans (Eq.trans ?_ (delete_of_ok hconditions).symm)
    rw [matched_congr hsame]
  delete_noMatch rows id := by
    have hnone : s.applyCondition (some .noMatch) = .ok [.const false] := rfl
    refine (delete_of_ok hnone).trans ?_
    simp [matched_noMatch]

theorem honoursConstants (s : SqlResource ρ π φ) (codec : CursorCodec κ) :
    HonoursConstants (s.service codec) s.payloadId := by
  rw [service_eq_rowActions]
  exact (s.rowActions_laws codec).honoursConstants

theorem readsPlainly (s : SqlResource ρ π φ) (codec : CursorCodec κ) : ReadsPlainly (s.service codec) := by
  rw [service_eq_rowActions]
  exact (s.rowActions_laws codec).readsPlainly

end SqlResource

/-! ## Mongo -/

namespace MongoCollection

variable {t : MongoCollection ρ} {rows : List ρ} {filter : Option SearchFilter}
  {query : Option MongoQuery}

/-- The documents that match in memory, as a comprehension. -/
theorem iteratedDocuments_comprehension (f : SearchFilter) (rows : List ρ) : t.iteratedDocuments f rows =
    (comprehension (fun r => f.matches (.object (t.dto r))) rows).mapError .typeError := by
  induction rows with
  | nil => rfl
  | cons r rows ih =>
      rw [iteratedDocuments, comprehension, ih]
      cases f.matches (.object (t.dto r)) with
      | error e => rfl
      | ok b =>
          cases comprehension (fun r => f.matches (.object (t.dto r))) rows with
          | error | ok => rfl

/-- The documents that match in memory match under `AllFilter`. -/
theorem iteratedDocuments_all {f : SearchFilter} {l : List ρ}
    (h : t.iteratedDocuments f rows = .ok l) :
    t.iteratedDocuments (combine .all (some f)) rows = .ok l := by
  rw [iteratedDocuments_comprehension] at h ⊢
  rw [comprehension_combine_all (ok_of_mapError_ok h)]
  rfl

theorem iteratedDocuments_noMatch (rows : List ρ) : t.iteratedDocuments .noMatch rows = .ok [] := by
  rw [iteratedDocuments_comprehension, comprehension_noMatch]
  rfl

/-- A filter that a search cannot take is not one of the store. -/
theorem filterQuery_error {e : ResourceyError} (h : t.filterQuery rows filter = .error e) :
    ¬ e.OfStore := by
  cases filter with
  | none => cases h
  | some f =>
      rw [filterQuery] at h
      split at h
      · split at h
        · rcases bind_eq_error.mp h with h | ⟨l, -, h⟩
          · rw [iteratedDocuments_comprehension] at h
            exact not_ofStore_of_mapError h
          · cases h
        · cases h
          exact fun h => h
      · obtain ⟨message, rfl⟩ := mongoCondition_error h
        exact fun h => h

/-- Under `AllFilter` a search finds the documents that its filter finds. -/
theorem filterQuery_all (h : t.filterQuery rows filter = .ok query) :
    ∃ query', t.filterQuery rows (some (combine .all filter)) = .ok query' ∧
      finds query' = finds query := by
  cases filter with
  | none =>
      cases h
      exact ⟨none, rfl, rfl⟩
  | some f =>
      cases hcond : mongoCondition t.filterContext f none false with
      | ok q =>
          obtain ⟨q', hq', hsame⟩ := mongoCondition_and_all hcond
          rw [filterQuery, hcond] at h
          cases h
          exact ⟨q', by rw [combine, filterQuery, hq'], funext hsame⟩
      | error e =>
          obtain ⟨message, rfl⟩ := mongoCondition_error hcond
          simp only [filterQuery, hcond] at h
          split at h
          · next hiteration =>
              obtain ⟨l, hl, h⟩ := bind_eq_ok.mp h
              cases h
              have hl := iteratedDocuments_all hl
              rcases mongoCondition_and_all_error hcond with hnone | ⟨message', hand⟩
              · -- What is matched in memory is nothing.
                rw [combine, hnone, iteratedDocuments_noMatch] at hl
                cases hl
                refine ⟨some matchNone, by rw [combine, hnone]; rfl, funext fun d => ?_⟩
                rw [finds_some, finds_some, matches_matchNone, dict_single]
                cases d.get mongoIdField with
                | none | scalar | list => simp [FieldTest.matches, anyItem]
              · refine ⟨some (.dict [(mongoIdField, .isIn (l.map t.idOf))]), ?_, rfl⟩
                rw [combine] at hl ⊢
                simp only [filterQuery, hand, hiteration, if_true, hl]
                rfl
          · cases h

omit [TextRules] in
theorem sortFieldFor_error {name : String} {e : ResourceyError}
    (h : t.sortFieldFor name = .error e) : ¬ e.OfStore := by
  unfold sortFieldFor at h
  split at h
  · cases h
  · cases h
    exact fun h => h

omit [TextRules] in
theorem sortSpec_error {sort : Option SortOrder} {e : ResourceyError}
    (h : t.sortSpec sort = .error e) : ¬ e.OfStore := by
  cases sort with
  | none => cases h
  | some s =>
      rcases bind_eq_error.mp h with h | ⟨field, -, h⟩
      · exact sortFieldFor_error h
      · rcases bind_eq_error.mp h with h | ⟨idField, -, h⟩
        · exact sortFieldFor_error h
        · cases h

theorem cursorPredicate_error {codec : CursorCodec κ} {cursor : Option κ}
    {sort : Option SortOrder} {e : ResourceyError}
    (h : t.cursorPredicate codec cursor sort = .error e) : ¬ e.OfStore := by
  cases cursor with
  | none => cases h
  | some c =>
      simp only [cursorPredicate] at h
      split at h
      · cases h
        exact fun h => h
      · split at h
        · cases h
          exact fun h => h
        · split at h <;> cases h

/-- A search that settles has a query, a place to start and an order. -/
theorem search_settles {codec : CursorCodec κ} {sort : Option SortOrder} {cursor : Option κ}
    {limit : ℕ} (h : Settles (t.search codec rows filter sort cursor limit)) :
    ∃ query predicate spec, t.filterQuery rows filter = .ok query ∧
      t.cursorPredicate codec cursor sort = .ok predicate ∧ t.sortSpec sort = .ok spec := by
  obtain ⟨query, hquery, h⟩ := h.of_bind fun e => filterQuery_error
  obtain ⟨predicate, hpredicate, h⟩ := h.of_bind fun e => cursorPredicate_error
  obtain ⟨spec, hspec, -⟩ := h.of_bind fun e => sortSpec_error
  exact ⟨query, predicate, spec, hquery, hpredicate, hspec⟩

/-- What a search returns. -/
theorem search_of_ok {codec : CursorCodec κ} {sort : Option SortOrder} {cursor : Option κ}
    (limit : ℕ) {predicate : Option MongoQuery} {spec : SortSpec}
    (hquery : t.filterQuery rows filter = .ok query)
    (hpredicate : t.cursorPredicate codec cursor sort = .ok predicate)
    (hspec : t.sortSpec sort = .ok spec) :
    t.search codec rows filter sort cursor limit = .ok (Page.ofFound limit (t.nextCursor codec sort)
      (t.find rows (mergeQuery query predicate) spec (limit + 1))) := by
  rw [search, hquery, hpredicate, hspec]
  rfl

end MongoCollection

namespace MongoResource

variable {m : MongoResource ρ π φ} {rows : List ρ} {condition : Option SearchFilter}
  {query : Option MongoQuery}

/-- A condition that a write cannot take is not one of the store. -/
theorem writeQuery_error {id : Value} {e : ResourceyError}
    (h : m.writeQuery id condition = .error e) : ¬ e.OfStore := by
  cases condition with
  | none => cases h
  | some f =>
      cases hcond : mongoCondition m.filterContext f none false with
      | ok q =>
          rw [writeQuery, hcond] at h
          cases h
      | error e =>
          obtain ⟨message, rfl⟩ := mongoCondition_error hcond
          rw [writeQuery, hcond] at h
          cases h
          exact fun h => h

/-- Under `AllFilter` a write finds the documents that its condition finds. -/
theorem writeQuery_all {id : Value} (h : m.writeQuery id condition = .ok query) :
    ∃ query', m.writeQuery id (some (combine .all condition)) = .ok query' ∧
      finds query' = finds query := by
  cases condition with
  | none =>
      cases h
      exact ⟨some (idQuery id), rfl, rfl⟩
  | some f =>
      cases hcond : mongoCondition m.filterContext f none false with
      | error e =>
          obtain ⟨message, rfl⟩ := mongoCondition_error hcond
          rw [writeQuery, hcond] at h
          cases h
      | ok q =>
          obtain ⟨q', hq', hsame⟩ := mongoCondition_and_all hcond
          rw [writeQuery, hcond] at h
          cases h
          refine ⟨mergeQuery (some (idQuery id)) q', by rw [combine, writeQuery, hq']; rfl, ?_⟩
          funext d
          rw [finds_mergeQuery, finds_mergeQuery, hsame]

/-- Under `NoMatchFilter` a write finds nothing. -/
theorem writeQuery_noMatch (m : MongoResource ρ π φ) (id : Value) :
    ∃ query, m.writeQuery id (some .noMatch) = .ok query ∧ ∀ d, finds query d = false := by
  refine ⟨mergeQuery (some (idQuery id)) (some matchNone), rfl, fun d => ?_⟩
  rw [finds_mergeQuery, finds_some matchNone, matches_matchNone, Bool.and_false]

/-- An update that settles names a document, under a condition that converts. -/
theorem update_settles {env : φ} {payload : π} (h : Settles (m.update env rows payload condition)) :
    m.payloadId payload ≠ .none ∧
      ∃ query, m.writeQuery (m.payloadId payload) condition = .ok query := by
  unfold update at h
  by_cases hid : m.payloadId payload = .none
  · exact absurd h (not_settles_of_error (if_pos hid) fun h => h)
  · rw [if_neg hid] at h
    obtain ⟨query, hquery, -⟩ := h.of_bind fun e => writeQuery_error
    exact ⟨hid, query, hquery⟩

/-- An update under a condition that converts. -/
theorem update_of_ok {env : φ} {payload : π} (hid : m.payloadId payload ≠ .none)
    (h : m.writeQuery (m.payloadId payload) condition = .ok query) :
    m.update env rows payload condition = .ok
      (if m.hasData (m.withDefaults env .update payload) then
        updateFirst (fun r => finds query (m.document r))
          (m.write (m.withDefaults env .update payload)) rows
      else (rows.find? fun r => finds query (m.document r), rows)) := by
  rw [update, if_neg hid, h]
  simp only [bind, Except.bind, pure, Except.pure]
  split <;> rfl

/-- A deletion under a condition that converts. -/
theorem delete_of_ok {id : Value} (h : m.writeQuery id condition = .ok query) :
    m.delete rows id condition = .ok (rows.any fun r => finds query (m.document r),
      rows.eraseP fun r => finds query (m.document r)) := by
  rw [delete, h]
  rfl

/-- Without a restriction every document counts. -/
theorem count_none (rows : List ρ) : m.count rows none = m.count rows (some .all) := by
  simp only [count, mongoCondition, Bool.false_eq_true, if_false]
  exact congrArg Except.ok (congrFun List.countP_true rows).symm

theorem count_noMatch (m : MongoResource ρ π φ) (rows : List ρ) :
    m.count rows (some .noMatch) = .ok 0 :=
  congrArg Except.ok (List.countP_eq_zero.mpr fun r _ => by simp)

/-- Under `AllFilter` as many documents are counted. -/
theorem count_all (h : Settles (m.count rows condition)) :
    m.count rows (some (combine .all condition)) = m.count rows condition := by
  cases condition with
  | none => exact (count_none rows).symm
  | some f =>
      cases hcond : mongoCondition m.filterContext f none false with
      | ok q =>
          obtain ⟨q', hq', hsame⟩ := mongoCondition_and_all hcond
          simp only [combine, count, hcond, hq', hsame]
      | error e =>
          obtain ⟨message, rfl⟩ := mongoCondition_error hcond
          simp only [count, hcond] at h ⊢
          by_cases hiteration : m.allowFilterIteration = true
          · rw [if_pos hiteration] at h ⊢
            cases hl : m.iteratedDocuments f rows with
            | error e =>
                rw [MongoCollection.iteratedDocuments_comprehension] at hl
                rw [MongoCollection.iteratedDocuments_comprehension, hl] at h
                exact absurd h (not_settles_of_error rfl (not_ofStore_of_mapError hl))
            | ok l =>
                have hall := MongoCollection.iteratedDocuments_all hl
                rcases mongoCondition_and_all_error hcond with hnone | ⟨message', hand⟩
                · -- What is matched in memory is nothing.
                  rw [combine, hnone, MongoCollection.iteratedDocuments_noMatch] at hall
                  cases hall
                  rw [combine, hnone]
                  exact count_noMatch m rows
                · rw [combine] at hall ⊢
                  simp only [hand, hiteration, if_true, hall]
          · rw [if_neg hiteration] at h
            exact absurd h (not_settles_of_error rfl fun h => h)

/-- The actions of `MongoService`. -/
def rowActions (m : MongoResource ρ π φ) (codec : CursorCodec κ) : RowActions ρ κ π φ where
  create := m.create
  update := m.update
  delete := m.delete
  read := m.read
  search := m.search codec
  count := m.count
  batchRead := m.batchRead
  supported := m.supported

/-- `MongoService` is the service of its actions. -/
theorem service_eq_rowActions (codec : CursorCodec κ) :
    m.service codec = (m.rowActions codec).service := by
  have hedit (env : φ) (rows : List ρ) (edit : Edit π) :
      m.applyEdit env rows edit = (m.rowActions codec).applyEdit env rows edit := by
    cases edit with
    | create | update | delete => rfl
  have hedits (edits : List (φ × Edit π)) (rows : List ρ) :
      m.applyEdits rows edits = (m.rowActions codec).applyEdits rows edits := by
    induction edits generalizing rows with
    | nil => rfl
    | cons e edits ih =>
        rw [applyEdits, RowActions.applyEdits, hedit]
        cases (m.rowActions codec).applyEdit e.1 rows e.2 with
        | error => rfl
        | ok o => exact congrArg (fun p => (p.1.map (o.1 :: ·), p.2)) (ih o.2)
  have hcall : (m.service codec).call = (m.rowActions codec).service.call := by
    funext c rows
    cases c with
    | create env payload =>
        change _ = RowActions.written rows (m.create env rows payload)
        simp only [service]
        cases m.create env rows payload with
        | error | ok => rfl
    | update env payload condition =>
        change _ = RowActions.written rows (m.update env rows payload condition)
        simp only [service]
        cases m.update env rows payload condition with
        | error | ok => rfl
    | delete id condition =>
        change _ = RowActions.written rows (m.delete rows id condition)
        simp only [service]
        cases m.delete rows id condition with
        | error | ok => rfl
    | read | search | count | batchRead | authorize => rfl
    | applyEdits edits => simp only [service, RowActions.service, hedits]
  exact congrArg (fun call => (Service.mk call (fun _ => none) fun _ => false)) hcall

/-- **`MongoService` honours the two constants.** -/
theorem rowActions_laws (m : MongoResource ρ π φ) (codec : CursorCodec κ) :
    (m.rowActions codec).Laws m.payloadId where
  read rows id := by
    simp only [rowActions, read]
    split
    · exact .inl ⟨_, rfl⟩
    · exact .inr rfl
  batchRead rows ids := List.length_map ..
  search_all {rows f sort cursor limit} hs := by
    obtain ⟨query, predicate, spec, hquery, hpredicate, hspec⟩ :=
      MongoCollection.search_settles hs
    obtain ⟨query', hall, hsame⟩ := MongoCollection.filterQuery_all hquery
    refine (MongoCollection.search_of_ok limit hall hpredicate hspec).trans ?_
    refine Eq.trans ?_ (MongoCollection.search_of_ok limit hquery hpredicate hspec).symm
    simp only [MongoCollection.find, finds_mergeQuery, hsame]
  search_noMatch {rows' f sort cursor limit} hs rows := by
    obtain ⟨query, predicate, spec, -, hpredicate, hspec⟩ := MongoCollection.search_settles hs
    have hnone : m.filterQuery rows (some .noMatch) = .ok (some matchNone) := rfl
    refine (MongoCollection.search_of_ok limit hnone hpredicate hspec).trans ?_
    simp [MongoCollection.find, finds_mergeQuery, Page.ofFound]
  count_all hs := count_all hs
  count_noMatch rows := count_noMatch m rows
  update_all {env rows payload condition} hs := by
    obtain ⟨hid, query, hquery⟩ := update_settles hs
    obtain ⟨query', hall, hsame⟩ := writeQuery_all hquery
    refine (update_of_ok hid hall).trans (Eq.trans ?_ (update_of_ok hid hquery).symm)
    rw [hsame]
  update_named hs := (update_settles hs).1
  update_noMatch {env payload} hid rows := by
    obtain ⟨query, hquery, hnone⟩ := writeQuery_noMatch m (m.payloadId payload)
    refine (update_of_ok hid hquery).trans ?_
    rw [updateFirst_of_not_found (fun r => hnone (m.document r))]
    have hfind : (rows.find? fun r => finds query (m.document r)) = none :=
      List.find?_eq_none.mpr fun r _ => by simp [hnone]
    rw [hfind, ite_self]
  delete_all {rows id condition} hs := by
    obtain ⟨query, hquery, -⟩ := Settles.of_bind (fun e => writeQuery_error) hs
    obtain ⟨query', hall, hsame⟩ := writeQuery_all hquery
    refine (delete_of_ok hall).trans (Eq.trans ?_ (delete_of_ok hquery).symm)
    rw [hsame]
  delete_noMatch rows id := by
    obtain ⟨query, hquery, hnone⟩ := writeQuery_noMatch m id
    refine (delete_of_ok hquery).trans ?_
    simp [hnone, List.eraseP_of_forall_not]

theorem honoursConstants (m : MongoResource ρ π φ) (codec : CursorCodec κ) :
    HonoursConstants (m.service codec) m.payloadId := by
  rw [service_eq_rowActions]
  exact (m.rowActions_laws codec).honoursConstants

theorem readsPlainly (m : MongoResource ρ π φ) (codec : CursorCodec κ) : ReadsPlainly (m.service codec) := by
  rw [service_eq_rowActions]
  exact (m.rowActions_laws codec).readsPlainly

end MongoResource

end Resourcey
