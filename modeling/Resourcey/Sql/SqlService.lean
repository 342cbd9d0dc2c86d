import Resourcey.Sql.Cursor
import Resourcey.Sql.FilterConverter

/-!
# The SQL service

The actions of `SqlService` over a table, a table being the list of its rows. A `SqlTable` is what
a resource says about reading its table, and a `SqlResource` adds what it says about writing:
`ρ` is the type of a stored entity, `π` of a payload and `φ` of what the environment supplies to
the defaults (the clock, generated identifiers). Each action answers or raises; an action that
raises leaves the table as it was, since its transaction is rolled back.

Two facts about the write statements carry everything built on them: an update writes the row it
names if its condition keeps it, and no other (`update_ok`), and a delete removes such a row and no
other (`delete_ok`).
-/

namespace Resourcey

/-- What a resource says about its table: the column behind each attribute, the query and sort
surfaces, the identifier and whether unconvertible filters fall back to a scan. -/
structure SqlTable (ρ : Type) where
  name : String
  columnForAttr : String → Option String
  queryable : String → Bool
  sortable : String → Bool
  idColumn : String
  allowFilterIteration : Bool := false
  row : ρ → SqlRow

namespace SqlTable

variable {ρ κ : Type} (t : SqlTable ρ)

/-- The identifier of a row. -/
def idOf (r : ρ) : Value := t.row r t.idColumn

/-- `SqlResource.get_column_name`. -/
def getColumnName (name : String) : String := (t.columnForAttr name).getD name

/-- `_to_dto`: the entity of a row, by attribute. -/
def toDto (r : ρ) : Subject := .object fun name => t.row r (t.getColumnName name)

/-- `SqlResource.build_filter_context`: only the queryable fields resolve to columns. -/
def filterContext : SqlFilterContext where
  columns name := if t.queryable name then t.columnForAttr name else none

/-- `SqlSortContext.column_for` over `SqlResource.build_sort_context`: only the sortable fields
resolve to columns. -/
def sortColumnFor (name : String) : Except ResourceyError String :=
  match if t.sortable name then t.columnForAttr name else none with
  | some column => .ok column
  | none => .error (.invalidInput ("Unknown or non-sortable sort field '" ++ name ++ "'"))

/-- `_apply_sort`: the `ORDER BY` of a search, by default the identifier. -/
def applySort : Option SortOrder → Except ResourceyError (List OrderTerm)
  | none => .ok [idOrder t.idColumn]
  | some s => do
    let column ← t.sortColumnFor s.attrName
    return [attrOrder column s.descending, idOrder t.idColumn]

variable [TextRules]

/-- `SearchFilter.matches` on the entity of a row. -/
def matchesRow (f : SearchFilter) (r : ρ) : Except ResourceyError Bool :=
  (f.matches (t.toDto r)).mapError .typeError

/-- The rows that match in memory, one after the other. -/
def survivingRows (f : SearchFilter) : List ρ → Except ResourceyError (List ρ)
  | [] => .ok []
  | r :: rows => do
    let b ← t.matchesRow f r
    let surviving ← survivingRows f rows
    return if b then r :: surviving else surviving

/-- `_apply_filters_by_iteration`: the identifiers of the rows that match in memory. -/
def filtersByIteration (rows : List ρ) (f : SearchFilter) :
    Except ResourceyError (List SqlExpr) := do
  let surviving ← t.survivingRows f rows
  return [.isIn t.idColumn (surviving.map t.idOf)]

/-- `_apply_filters`: the conditions a filter adds to a read. A filter that does not convert
raises, unless the resource opted into the scan. -/
def applyFilters (rows : List ρ) : Option SearchFilter → Except ResourceyError (List SqlExpr)
  | none => .ok []
  | some f =>
    match whereClause t.filterContext f with
    | .error (.unsupportedFilter message) =>
      if t.allowFilterIteration then t.filtersByIteration rows f
      else .error (.unsupportedFilter message)
    | r => r

/-- `_apply_condition`: the conditions a write's condition adds. The scan is refused. -/
def applyCondition : Option SearchFilter → Except ResourceyError (List SqlExpr)
  | none => .ok []
  | some f =>
    match whereClause t.filterContext f with
    | .error (.unsupportedFilter message) => .error (.unsupportedFilter
        ("A write's condition must be convertible to SQL: the in-memory iteration fallback is " ++
          "read-only and is never used for a write. Add a rule for the node to " ++ t.name ++
          ".get_filter_rules() to push it down. (" ++ message ++ ")"))
    | r => r

/-- A typed condition converts. -/
theorem exists_applyCondition {types : ColumnTypes} {f : SearchFilter}
    (hf : WellTyped t.filterContext types f) :
    ∃ conditions, t.applyCondition (some f) = .ok conditions := by
  obtain ⟨es, hes⟩ := hf.whereClause
  exact ⟨es, by simp [applyCondition, hes]⟩

/-- A condition that converts is applied, and another one is refused. -/
theorem applyCondition_cases (condition : Option SearchFilter) :
    ((∀ f ∈ condition, ∃ e, Resourcey.condition t.filterContext f none false = .ok e) ∧
      ∃ conditions, t.applyCondition condition = .ok conditions) ∨
    ((∃ f ∈ condition, ∀ e, Resourcey.condition t.filterContext f none false ≠ .ok e) ∧
      ∃ message, t.applyCondition condition = .error (.unsupportedFilter message)) := by
  cases condition with
  | none => exact .inl ⟨nofun, [], rfl⟩
  | some f =>
      cases hcond : Resourcey.condition t.filterContext f none false with
      | ok e =>
          obtain ⟨es, hes⟩ := exists_whereClause.mpr ⟨e, hcond⟩
          refine .inl ⟨?_, es, by rw [applyCondition, hes]⟩
          rintro f ⟨⟩
          exact ⟨e, hcond⟩
      | error e =>
          obtain ⟨message, rfl⟩ := condition_error hcond
          refine .inr ⟨⟨f, rfl, fun e he => nomatch hcond.symm.trans he⟩, ?_⟩
          rw [applyCondition, whereClause, hcond]
          exact ⟨_, rfl⟩

/-- Whether the conditions of a statement all keep the row. -/
def selects (conditions : List SqlExpr) (r : ρ) : Bool :=
  conditions.all fun e => e.keeps (t.row r)

/-- `SELECT … WHERE … ORDER BY … LIMIT …`. -/
def select (rows : List ρ) (conditions : List SqlExpr) (order : List OrderTerm) (limit : ℕ) :
    List ρ :=
  ((rows.filter (t.selects conditions)).insertionSort
    fun a b => orderCompare order (t.row a) (t.row b) ≠ .gt).take limit

/-! ## Reads -/

/-- `SqlService.read`. -/
def read (rows : List ρ) (id : Value) : Except ResourceyError ρ :=
  match rows.find? fun r => (SqlExpr.eq t.idColumn id).keeps (t.row r) with
  | some r => .ok r
  | none => .error (.notFound id)

/-- What a read returns is the row of the identifier. -/
theorem read_ok {rows : List ρ} {id : Value} {r : ρ} (h : t.read rows id = .ok r) :
    r ∈ rows ∧ t.idOf r = id := by
  unfold read at h
  split at h
  · next r' hfind =>
      cases h
      have hkey := List.find?_some hfind
      simp only [SqlExpr.keeps, SqlExpr.eval_eq, decide_eq_true_eq] at hkey
      exact ⟨List.mem_of_find?_eq_some hfind, hkey.2⟩
  · cases h

/-- What the cursor past a row says, under the sort its page was built with. -/
def cursorState (sort : Option SortOrder) (r : ρ) : CursorState where
  sortField := sort.map (·.attrName)
  ascending := !isDescending sort
  sortKey := match sort with
    | none => t.idOf r
    | some s => t.row r (t.getColumnName s.attrName)
  idValue := t.idOf r

/-- `_next_cursor`. -/
def nextCursor (codec : CursorCodec κ) (sort : Option SortOrder) (r : ρ) : κ :=
  codec.encode (t.cursorState sort r)

/-- `_cursor_predicate`: the seek clause of a cursor, refused under another sort. -/
def cursorPredicate (codec : CursorCodec κ) (cursor : κ) (sort : Option SortOrder) :
    Except ResourceyError SqlExpr :=
  match codec.decode cursor with
  | .error message => .error (.invalidInput ("Invalid or tampered cursor: " ++ message))
  | .ok c =>
    if c.sortField ≠ sort.map (·.attrName) ∨ c.ascending ≠ !isDescending sort then
      .error (.invalidInput ("Cursor was built for a different sort than the current request; " ++
        "start a new search without a cursor when changing sort."))
    else
      match sort with
      | none => .ok (keysetPredicate t.idColumn t.idColumn c.sortKey c.idValue true)
      | some s => do
        let column ← t.sortColumnFor s.attrName
        return keysetPredicate column t.idColumn c.sortKey c.idValue c.ascending

/-- The condition a request's cursor adds to its search. -/
def seek (codec : CursorCodec κ) (cursor : Option κ) (sort : Option SortOrder) :
    Except ResourceyError (List SqlExpr) :=
  match cursor with
  | none => .ok []
  | some c => do
    let predicate ← t.cursorPredicate codec c sort
    return [predicate]

/-- `SqlService.search`: one row more than the page is fetched, to know whether it is the last. -/
def search (codec : CursorCodec κ) (rows : List ρ) (searchFilter : Option SearchFilter)
    (sort : Option SortOrder) (cursor : Option κ) (limit : ℕ) :
    Except ResourceyError (Page ρ κ) := do
  let order ← t.applySort sort
  let conditions ← t.applyFilters rows searchFilter
  let seek ← t.seek codec cursor sort
  return Page.ofFound limit (t.nextCursor codec sort)
    (t.select rows (conditions ++ seek) order (limit + 1))

/-- The items of a page are rows. -/
theorem search_mem {codec : CursorCodec κ} {rows : List ρ} {f : Option SearchFilter}
    {sort : Option SortOrder} {cursor : Option κ} {limit : ℕ} {page : Page ρ κ}
    (h : t.search codec rows f sort cursor limit = .ok page) : page.items ⊆ rows := by
  unfold search at h
  cases horder : t.applySort sort with
  | error e => simp [horder, bind, Except.bind] at h
  | ok order =>
      cases hconds : t.applyFilters rows f with
      | error e => simp [horder, hconds, bind, Except.bind] at h
      | ok conditions =>
          cases hseek : t.seek codec cursor sort with
          | error e => simp [horder, hconds, hseek, bind, Except.bind] at h
          | ok seek =>
              simp only [horder, hconds, hseek, bind, Except.bind, pure, Except.pure,
                Except.ok.injEq] at h
              subst h
              intro r hr
              have hr := List.mem_of_mem_take (List.mem_of_mem_take hr)
              rw [List.mem_insertionSort] at hr
              exact List.mem_of_mem_filter hr

/-- The first page under a typed filter, in the order of the identifier, is always answered. -/
theorem exists_search {codec : CursorCodec κ} {rows : List ρ} {types : ColumnTypes}
    {f : SearchFilter} (hf : WellTyped t.filterContext types f) (limit : ℕ) :
    ∃ page, t.search codec rows (some f) none none limit = .ok page := by
  obtain ⟨es, hes⟩ := hf.whereClause
  have hconds : t.applyFilters rows (some f) = .ok es := by
    rw [applyFilters, hes]
  simp [search, applySort, hconds, seek, bind, Except.bind, pure, Except.pure]

/-- `SqlService.count`. -/
def count (rows : List ρ) (searchFilter : Option SearchFilter) : Except ResourceyError ℕ := do
  let conditions ← t.applyFilters rows searchFilter
  return rows.countP (t.selects conditions)

/-- `SqlService.batch_read`: the rows, aligned with the identifiers. -/
def batchRead (rows : List ρ) (ids : List Value) : List (Option ρ) :=
  let found := rows.filter (t.selects [.isIn t.idColumn ids])
  ids.map fun id => found.reverse.find? fun r => t.idOf r = id

/-- The answer to a read action. -/
def answer (codec : CursorCodec κ) (rows : List ρ) :
    ReadRequest κ → Except ResourceyError (ReadReply ρ κ)
  | .read id => return .item (← t.read rows id)
  | .search searchFilter sort cursor limit =>
    return .page (← t.search codec rows searchFilter sort cursor limit)
  | .count searchFilter => return .count (← t.count rows searchFilter)
  | .batchRead ids => return .items (t.batchRead rows ids)

end SqlTable

/-- What a resource says about writing its table. `withDefaults` fills the fields a payload omits
for an operation, `hasData` is whether it then has a column to write besides the identifier,
`write` sets those columns of a row and `insert` builds a new one, or names a column that may not
be null and has no value. -/
structure SqlResource (ρ π φ : Type) extends SqlTable ρ where
  payloadId : π → Value
  withDefaults : φ → Action → π → π
  hasData : π → Bool
  write : π → ρ → ρ
  insert : φ → π → Except String ρ
  supported : List Action

/-- The write actions a batch goes through. A service that overrides one of them overrides it here
too. -/
structure WriteActions (ρ π φ : Type) where
  create : φ → List ρ → π → Except ResourceyError (ρ × List ρ)
  update : φ → List ρ → π → Option SearchFilter → Except ResourceyError (Option ρ × List ρ)
  delete : List ρ → Value → Option SearchFilter → Except ResourceyError (Bool × List ρ)

namespace SqlResource

variable {ρ π φ : Type} (s : SqlResource ρ π φ)

/-- `SqlService.create`, raising on a duplicate key. -/
def create (env : φ) (rows : List ρ) (payload : π) : Except ResourceyError (ρ × List ρ) :=
  match s.insert env (s.withDefaults env .create payload) with
  | .error column => .error (.notNull column)
  | .ok r =>
    if rows.any fun r' => s.idOf r' = s.idOf r then .error (.conflict (s.idOf r))
    else .ok (r, rows ++ [r])

/-- One item of `SqlService.apply_edits`, refused when the resource does not declare its action. -/
def applyEdit (w : WriteActions ρ π φ) (env : φ) (rows : List ρ) :
    Edit π → Except ResourceyError (Option ρ × List ρ)
  | .create item =>
    if .create ∉ s.supported then
      .error (.invalidInput "a batch cannot create: create is not supported")
    else do
      let (r, rows') ← w.create env rows item
      return (some r, rows')
  | .update item condition =>
    if .update ∉ s.supported then
      .error (.invalidInput "a batch cannot update: update is not supported")
    else w.update env rows item condition
  | .delete id condition =>
    if .delete ∉ s.supported then
      .error (.invalidInput "a batch cannot delete: delete is not supported")
    else do
      let (_, rows') ← w.delete rows id condition
      return (none, rows')

/-- `SqlService.apply_edits`: one edit after the other, each with its own environment. -/
def applyEdits (w : WriteActions ρ π φ) (rows : List ρ) : List (φ × Edit π) →
    Except ResourceyError (List (Option ρ) × List ρ)
  | [] => .ok ([], rows)
  | (env, edit) :: edits => do
    let (r, rows) ← s.applyEdit w env rows edit
    let (rs, rows) ← applyEdits w rows edits
    return (r :: rs, rows)

variable [TextRules]

/-- The rows an `UPDATE` or a `DELETE` of an identifier matches. -/
def matched (id : Value) (conditions : List SqlExpr) (r : ρ) : Bool :=
  s.selects (.eq s.idColumn id :: conditions) r

/-- `UPDATE … SET data WHERE id = … AND conditions`: the table after it, and how many rows it
matched. -/
def updateRows (rows : List ρ) (id : Value) (conditions : List SqlExpr) (data : π) :
    List ρ × ℕ :=
  (rows.map fun r => if s.matched id conditions r then s.write data r else r,
    rows.countP (s.matched id conditions))

/-- `DELETE … WHERE id = … AND conditions`: the table after it, and how many rows it matched. -/
def deleteRows (rows : List ρ) (id : Value) (conditions : List SqlExpr) : List ρ × ℕ :=
  (rows.filter fun r => !s.matched id conditions r, rows.countP (s.matched id conditions))

/-- `SqlService.update`: an empty payload is a `SELECT` under the condition, and a written row is
read back. -/
def update (env : φ) (rows : List ρ) (payload : π) (condition : Option SearchFilter) :
    Except ResourceyError (Option ρ × List ρ) := do
  let id := s.payloadId payload
  if id = .none then
    .error (.service "update requires the identifier on the payload")
  else
    let data := s.withDefaults env .update payload
    let conditions ← s.applyCondition condition
    if s.hasData data then
      let (rows', count) := s.updateRows rows id conditions data
      if count = 0 then return (none, rows)
      let r ← s.read rows' id
      return (some r, rows')
    else
      return (rows.find? (s.matched id conditions), rows)

/-- `SqlService.delete`. -/
def delete (rows : List ρ) (id : Value) (condition : Option SearchFilter) :
    Except ResourceyError (Bool × List ρ) := do
  let conditions ← s.applyCondition condition
  let (rows', count) := s.deleteRows rows id conditions
  return (count > 0, rows')

/-- The write actions of `SqlService` itself. -/
def writeActions : WriteActions ρ π φ where
  create := s.create
  update := s.update
  delete := s.delete

/-! ## What a write touches -/

section Writes

variable {s} {env : φ} {rows rows' : List ρ} {payload : π} {condition : Option SearchFilter}

/-- The rows a write may touch: the one it names, if the condition keeps it. -/
def Touches (s : SqlResource ρ π φ) (id : Value) (condition : Option SearchFilter) (r : ρ) :
    Prop :=
  s.idOf r = id ∧ ∀ f ∈ condition, Keeps s.filterContext f (s.row r)

omit [TextRules] in
/-- A statement that matches no row leaves the table as it is. -/
theorem map_write_eq_self {gate : ρ → Bool} {write : ρ → ρ} (h : ∀ r ∈ rows, ¬ gate r = true) :
    (rows.map fun r => if gate r then write r else r) = rows :=
  (List.map_congr_left fun r hr => if_neg (h r hr)).trans (List.map_id rows)

/-- The conditions of a write match the rows it touches. No row is named by null. -/
theorem matched_iff {id : Value} {conditions : List SqlExpr}
    (h : s.applyCondition condition = .ok conditions) (r : ρ) :
    s.matched id conditions r = true ↔ id ≠ .none ∧ s.Touches id condition r := by
  have hkeeps : conditions.all (fun e => e.keeps (s.row r)) = true ↔
      ∀ f ∈ condition, Keeps s.filterContext f (s.row r) := by
    cases condition with
    | none =>
        cases h
        simp
    | some f =>
        cases hw : whereClause s.filterContext f with
        | ok es =>
            simp only [SqlTable.applyCondition, hw, Except.ok.injEq] at h
            subst h
            simpa using whereClause_keeps hw
        | error e => cases e <;> simp [SqlTable.applyCondition, hw] at h
  have hkey : (SqlExpr.eq s.idColumn id).keeps (s.row r) = true ↔ id ≠ .none ∧ s.idOf r = id := by
    simp [SqlExpr.keeps, SqlTable.idOf]
  rw [matched, SqlTable.selects, List.all_cons, Bool.and_eq_true, hkey, hkeeps, Touches, and_assoc]

/-- **An update writes the row it names if the condition keeps it, and nothing else.** It answers
with a row exactly when there is one. -/
theorem update_ok {result : Option ρ}
    (h : s.update env rows payload condition = .ok (result, rows')) :
    ∃ gate : ρ → Bool, (∀ r, gate r = true ↔ s.Touches (s.payloadId payload) condition r) ∧
      (result.isSome = true ↔ ∃ r ∈ rows, gate r = true) ∧
      rows' = if s.hasData (s.withDefaults env .update payload) then
        rows.map fun r => if gate r then s.write (s.withDefaults env .update payload) r else r
        else rows := by
  rw [update] at h
  by_cases hid : s.payloadId payload = .none
  · rw [if_pos hid] at h
    cases h
  rw [if_neg hid] at h
  cases hc : s.applyCondition condition with
  | error e =>
      rw [hc] at h
      cases h
  | ok conditions =>
      simp only [hc, bind, Except.bind, pure, Except.pure] at h
      refine ⟨s.matched (s.payloadId payload) conditions,
        fun r => (matched_iff hc r).trans (and_iff_right hid), ?_⟩
      by_cases hdata : s.hasData (s.withDefaults env .update payload) = true
      · rw [if_pos hdata] at h ⊢
        by_cases hzero : (s.updateRows rows (s.payloadId payload) conditions
            (s.withDefaults env .update payload)).2 = 0
        · rw [if_pos hzero] at h
          cases h
          have hnone := List.countP_eq_zero.mp hzero
          exact ⟨⟨nofun, fun ⟨r, hr, hm⟩ => absurd hm (hnone r hr)⟩, (map_write_eq_self hnone).symm⟩
        · rw [if_neg hzero] at h
          split at h
          · cases h
          · cases h
            exact ⟨⟨fun _ => List.countP_pos_iff.mp (Nat.pos_of_ne_zero hzero), fun _ => rfl⟩, rfl⟩
      · rw [if_neg hdata] at h ⊢
        cases h
        exact ⟨List.find?_isSome, rfl⟩

/-- A row of the table is found by its identifier. -/
theorem exists_read {id : Value} {r : ρ} (hid : id ≠ .none) (hr : s.idOf r = id) (hmem : r ∈ rows) :
    ∃ r', s.read rows id = .ok r' := by
  have hfind : (rows.find? fun r => (SqlExpr.eq s.idColumn id).keeps (s.row r)).isSome = true := by
    refine List.find?_isSome.mpr ⟨r, hmem, ?_⟩
    simpa [SqlExpr.keeps, hid] using show s.row r s.idColumn = id from hr
  obtain ⟨r', hr'⟩ := Option.isSome_iff_exists.mp hfind
  exact ⟨r', by rw [SqlTable.read, hr']⟩

/-- An update whose condition converts answers, if writing keeps the identifier. -/
theorem exists_update (hid : s.payloadId payload ≠ .none) {conditions : List SqlExpr}
    (h : s.applyCondition condition = .ok conditions)
    (hwrite : ∀ p r, s.idOf (s.write p r) = s.idOf r) :
    ∃ result rows', s.update env rows payload condition = .ok (result, rows') := by
  simp only [update, if_neg hid, h, bind, Except.bind, pure, Except.pure]
  split
  · by_cases hzero : (s.updateRows rows (s.payloadId payload) conditions
        (s.withDefaults env .update payload)).2 = 0
    · exact ⟨_, _, if_pos hzero⟩
    · -- A row that was written still has the identifier, so it is read back.
      obtain ⟨r, hr, hm⟩ := List.countP_pos_iff.mp (Nat.pos_of_ne_zero hzero)
      have hkey : s.idOf r = s.payloadId payload := ((matched_iff h r).mp hm).2.1
      have hmem : s.write (s.withDefaults env .update payload) r ∈ (s.updateRows rows
          (s.payloadId payload) conditions (s.withDefaults env .update payload)).1 :=
        List.mem_map.mpr ⟨r, hr, if_pos hm⟩
      obtain ⟨r', hr'⟩ := exists_read hid ((hwrite _ r).trans hkey) hmem
      rw [if_neg hzero, hr']
      exact ⟨_, _, rfl⟩
  · exact ⟨_, _, rfl⟩

/-- **A delete removes the row it names if the condition keeps it, and nothing else.** -/
theorem delete_ok {id : Value} {deleted : Bool}
    (h : s.delete rows id condition = .ok (deleted, rows')) :
    ∃ gate : ρ → Bool, (∀ r, gate r = true ↔ id ≠ .none ∧ s.Touches id condition r) ∧
      rows' = rows.filter fun r => !gate r := by
  rw [delete] at h
  cases hc : s.applyCondition condition with
  | error e =>
      rw [hc] at h
      cases h
  | ok conditions =>
      simp only [hc, bind, Except.bind, pure, Except.pure, deleteRows, Except.ok.injEq,
        Prod.mk.injEq] at h
      exact ⟨s.matched id conditions, matched_iff hc, h.2.symm⟩

omit [TextRules] in
/-- What a create adds is a row under a new identifier. -/
theorem create_ok {r : ρ} (h : s.create env rows payload = .ok (r, rows')) :
    s.insert env (s.withDefaults env .create payload) = .ok r ∧
      (∀ r' ∈ rows, s.idOf r' ≠ s.idOf r) ∧ rows' = rows ++ [r] := by
  rw [create] at h
  split at h
  · cases h
  · next r' hins =>
      split at h
      · cases h
      · next hfresh =>
          cases h
          exact ⟨hins, by simpa using hfresh, rfl⟩

omit [TextRules] in
/-- An edit that is applied is the write it stands for. -/
theorem applyEdit_ok {w : WriteActions ρ π φ} {e : Edit π} {result : Option ρ}
    (h : s.applyEdit w env rows e = .ok (result, rows')) :
    match e with
    | .create item => ∃ r, w.create env rows item = .ok (r, rows')
    | .update item condition => w.update env rows item condition = .ok (result, rows')
    | .delete id condition => ∃ b, w.delete rows id condition = .ok (b, rows') := by
  cases e with
  | create item =>
      simp only [applyEdit] at h
      split at h
      · cases h
      · cases hc : w.create env rows item with
        | error e => simp [hc, bind, Except.bind] at h
        | ok out =>
            simp only [hc, bind, Except.bind, pure, Except.pure, Except.ok.injEq, Prod.mk.injEq] at h
            exact ⟨out.1, h.2 ▸ hc⟩
  | update item condition =>
      simp only [applyEdit] at h
      split at h
      · cases h
      · exact h
  | delete id condition =>
      simp only [applyEdit] at h
      split at h
      · cases h
      · cases hc : w.delete rows id condition with
        | error e => simp [hc, bind, Except.bind] at h
        | ok out =>
            simp only [hc, bind, Except.bind, pure, Except.pure, Except.ok.injEq, Prod.mk.injEq] at h
            exact ⟨out.1, h.2 ▸ hc⟩

omit [TextRules] in
/-- A batch applies its first edit, and then the others to the table it leaves. -/
theorem applyEdits_cons {w : WriteActions ρ π φ} {e : φ × Edit π} {edits : List (φ × Edit π)}
    {results : List (Option ρ)} (h : s.applyEdits w rows (e :: edits) = .ok (results, rows')) :
    ∃ result mid results', s.applyEdit w e.1 rows e.2 = .ok (result, mid) ∧
      s.applyEdits w mid edits = .ok (results', rows') ∧ results = result :: results' := by
  obtain ⟨env, e⟩ := e
  rw [applyEdits] at h
  cases he : s.applyEdit w env rows e with
  | error err => simp [he, bind, Except.bind] at h
  | ok head =>
      cases hes : s.applyEdits w head.2 edits with
      | error err => simp [he, hes, bind, Except.bind] at h
      | ok tail =>
          simp only [he, hes, bind, Except.bind, pure, Except.pure, Except.ok.injEq,
            Prod.mk.injEq] at h
          obtain ⟨rfl, rfl⟩ := h
          exact ⟨head.1, head.2, tail.1, rfl, hes, rfl⟩

omit [TextRules] in
/-- An invariant of the table and the edits that are still to be applied. -/
theorem applyEdits_run {w : WriteActions ρ π φ} (inv : List ρ → List (φ × Edit π) → Prop)
    (hedit : ∀ {e edits rows result rows'}, inv rows (e :: edits) →
      s.applyEdit w e.1 rows e.2 = .ok (result, rows') → inv rows' edits)
    {edits : List (φ × Edit π)} {results : List (Option ρ)}
    (h : s.applyEdits w rows edits = .ok (results, rows')) (hrows : inv rows edits) :
    inv rows' [] := by
  induction edits generalizing rows results with
  | nil =>
      cases h
      exact hrows
  | cons e edits ih =>
      obtain ⟨result, mid, results', he, hes, -⟩ := applyEdits_cons h
      exact ih hes (hedit hrows he)

omit [TextRules] in
/-- What each edit of a batch keeps, the batch keeps. -/
theorem applyEdits_invariant {w : WriteActions ρ π φ} (inv : List ρ → Prop)
    {edits : List (φ × Edit π)} {results : List (Option ρ)}
    (hedit : ∀ {env e rows result rows'}, (env, e) ∈ edits → inv rows →
      s.applyEdit w env rows e = .ok (result, rows') → inv rows')
    (h : s.applyEdits w rows edits = .ok (results, rows')) (hrows : inv rows) : inv rows' := by
  refine (applyEdits_run (fun rows rest => inv rows ∧ rest ⊆ edits) ?_ h ⟨hrows, fun _ h => h⟩).1
  intro e rest rows result rows' hinv he
  obtain ⟨hmem, hrest⟩ := List.cons_subset.mp hinv.2
  exact ⟨hedit hmem hinv.1 he, hrest⟩

end Writes

end SqlResource

end Resourcey
