import Resourcey.Logic.Keyset
import Resourcey.Sql.SqlService

/-!
# Paging through a SQL table

Following `next_cursor` from page to page visits every matching row once. The proof instantiates
the keyset library: `search_isPage` says that what `search` answers at a cursor it handed out is a
page of the matching rows in the order of `sortsBefore`, and the statements about walks are the
library's. `search_walk` puts them together: over a table that does not change the walk ends with
exactly the matching rows in the order of the sort converter, and over one that does, an entity
that is present throughout under one sort key is returned exactly once.
-/

namespace Resourcey

open Keyset

namespace SqlTable

variable {ρ κ : Type} (t : SqlTable ρ) [TextRules]

/-- A table as the store keeps it: typed columns and a primary key. -/
structure Valid (types : ColumnTypes) (rows : List ρ) : Prop where
  typed : ∀ r ∈ rows, types.Typed (t.row r)
  id_ne_none : ∀ r ∈ rows, t.idOf r ≠ .none
  nodup : (rows.map t.idOf).Nodup

/-- A filter a search answers: a typed tree, or, for a resource that opted into the scan, one that
does not convert and whose `matches` answers on every entity. -/
def Answerable (types : ColumnTypes) (f : SearchFilter) : Prop :=
  WellTyped t.filterContext types f ∨
    t.allowFilterIteration = true ∧
      (∃ message, condition t.filterContext f none false = .error (.unsupportedFilter message)) ∧
      ∀ r, types.Typed (t.row r) → ∃ b, f.matches (t.toDto r) = .ok b

/-- Whether the entity of a row satisfies the search's filter. -/
def matching (f : Option SearchFilter) (r : ρ) : Bool := f.elim true fun f => f.holds (t.toDto r)

/-- The column a search sorts by. -/
def sortColumn (sort : Option SortOrder) : String :=
  sort.elim t.idColumn fun s => t.getColumnName s.attrName

/-- The position of a row in the listing of a search. -/
def position (sort : Option SortOrder) (r : ρ) : Value × Value :=
  positionOf (t.sortColumn sort) t.idColumn (t.row r)

/-- The sort names a field of the sort surface. -/
def Sortable (sort : Option SortOrder) : Prop :=
  ∀ s ∈ sort, t.sortable s.attrName = true ∧ (t.columnForAttr s.attrName).isSome

/-- One request of a walk: the page of the table at time `n`. -/
def SearchPage (codec : CursorCodec κ) (rows : ℕ → List ρ) (f : Option SearchFilter)
    (sort : Option SortOrder) (limit n : ℕ) (cursor : Option κ) (items : List ρ)
    (next : Option κ) : Prop :=
  t.search codec (rows n) f sort cursor limit = .ok ⟨items, limit, next⟩

variable {t} {types : ColumnTypes} {rows : List ρ}

/-! ## The statement of a page -/

omit [TextRules] in
/-- The entity of a row has the row's queryable columns. -/
theorem toDto_represents (r : ρ) : t.filterContext.Represents (t.toDto r) (t.row r) := by
  intro name column h
  have hcol : t.columnForAttr name = some column := by
    simp only [filterContext, Option.ite_none_right_eq_some] at h
    exact h.2
  simp [toDto, Subject.get, getColumnName, hcol]

omit [TextRules] in
/-- In a table with a primary key, a row is one of some rows when its identifier is one of
theirs. -/
theorem idOf_mem_map (hrows : t.Valid types rows) {r : ρ} (hr : r ∈ rows) {l : List ρ}
    (hl : ∀ a ∈ l, a ∈ rows) : t.idOf r ∈ l.map t.idOf ↔ r ∈ l := by
  constructor
  · intro h
    obtain ⟨a, ha, hid⟩ := List.mem_map.mp h
    exact List.inj_on_of_nodup_map hrows.nodup (hl a ha) hr hid ▸ ha
  · exact List.mem_map_of_mem

/-- When `matches` answers on every row, the scan keeps the rows it answers true on. -/
theorem survivingRows_eq {f : SearchFilter} (h : ∀ r ∈ rows, ∃ b, f.matches (t.toDto r) = .ok b) :
    t.survivingRows f rows = .ok (rows.filter fun r => f.holds (t.toDto r)) := by
  induction rows with
  | nil => rfl
  | cons r rows ih =>
      obtain ⟨b, hb⟩ := h r (by simp)
      have hr : t.matchesRow f r = .ok b := by simp [matchesRow, hb, Except.mapError]
      have hholds := SearchFilter.holds_of_matches f _ b hb
      rw [survivingRows, hr, ih fun a ha => h a (by simp [ha])]
      cases b <;> simp [bind, Except.bind, pure, Except.pure, hholds]

/-- **The conditions of a search keep exactly the matching rows**, whether they were pushed down
or are the identifiers of a scan. -/
theorem applyFilters_selects (hrows : t.Valid types rows) {f : Option SearchFilter}
    (hf : ∀ g ∈ f, t.Answerable types g) : ∃ conditions, t.applyFilters rows f = .ok conditions ∧
      ∀ r ∈ rows, t.selects conditions r = t.matching f r := by
  cases f with
  | none => exact ⟨[], rfl, fun r _ => rfl⟩
  | some f =>
      rcases hf f rfl with hf | ⟨hfall, ⟨message, hmsg⟩, hans⟩
      · obtain ⟨es, hes⟩ := hf.whereClause
        refine ⟨es, by rw [applyFilters, hes], fun r hr => ?_⟩
        rw [Bool.eq_iff_iff]
        exact (whereClause_keeps hes).trans (hf.keeps_iff (hrows.typed r hr) (toDto_represents r))
      · have hwhere : whereClause t.filterContext f = .error (.unsupportedFilter message) := by
          rw [whereClause, hmsg]
          rfl
        have hsurv := survivingRows_eq fun r hr => hans r (hrows.typed r hr)
        refine ⟨[.isIn t.idColumn ((rows.filter fun r => f.holds (t.toDto r)).map t.idOf)], ?_,
          fun r hr => ?_⟩
        · rw [applyFilters, hwhere]
          simp only [hfall, if_true, filtersByIteration, hsurv, bind, Except.bind, pure,
            Except.pure]
        · have hmem := idOf_mem_map hrows hr (l := rows.filter fun r => f.holds (t.toDto r))
            fun a ha => List.mem_of_mem_filter ha
          rw [Bool.eq_iff_iff]
          simp only [selects, SqlExpr.keeps, List.all_cons, List.all_nil, Bool.and_true,
            decide_eq_true_eq, SqlExpr.eval_isIn, matching, Option.elim_some]
          rw [← idOf, hmem]
          simp [hr, hrows.id_ne_none r hr]

/-! ## A search is a page -/

omit [TextRules] in
/-- The sort column of a sort the surface accepts. -/
theorem sortColumnFor_eq {s : SortOrder} (h : t.Sortable (some s)) :
    t.sortColumnFor s.attrName = .ok (t.getColumnName s.attrName) := by
  obtain ⟨hs, hc⟩ := h s rfl
  obtain ⟨c, hc⟩ := Option.isSome_iff_exists.mp hc
  simp [sortColumnFor, getColumnName, hs, hc]

omit [TextRules] in
/-- The `ORDER BY` of a search compares rows by position. -/
theorem applySort_eq {sort : Option SortOrder} (h : t.Sortable sort) :
    ∃ order, t.applySort sort = .ok order ∧ ∀ a b : ρ,
      orderCompare order (t.row a) (t.row b) ≠ .gt ↔
        sortsBefore (isDescending sort) (t.position sort a) (t.position sort b) ∨
          t.position sort a = t.position sort b := by
  cases sort with
  | none => exact ⟨_, rfl, fun a b => orderCompare_id _ _ _⟩
  | some s =>
      refine ⟨[attrOrder (t.getColumnName s.attrName) s.descending, idOrder t.idColumn], ?_,
        fun a b => orderCompare_sort _ _ _ _ _⟩
      simp only [applySort, sortColumnFor_eq h, bind, Except.bind, pure, Except.pure]

/-- What a cursor must say to be answered under a sort: it was built for that sort, by a row with
an identifier, and its key is the identifier when the sort column is. -/
def GoodCursor (t : SqlTable ρ) (codec : CursorCodec κ) (sort : Option SortOrder) (c : κ) : Prop :=
  ∃ s, codec.decode c = .ok s ∧ s.sortField = sort.map (·.attrName) ∧
    s.ascending = !isDescending sort ∧ s.idValue ≠ .none ∧
    (t.sortColumn sort = t.idColumn → s.sortKey = s.idValue)

/-- The position a cursor seeks past. -/
def cursorPosition (codec : CursorCodec κ) (c : κ) : Value × Value :=
  match codec.decode c with
  | .ok s => (s.sortKey, s.idValue)
  | .error _ => (.none, .none)

omit [TextRules] in
/-- The cursor handed on past a row is a good one, for the position of the row. -/
theorem nextCursor_good (codec : CursorCodec κ) (sort : Option SortOrder) {r : ρ}
    (hid : t.idOf r ≠ .none) : t.GoodCursor codec sort (t.nextCursor codec sort r) ∧
      cursorPosition codec (t.nextCursor codec sort r) = t.position sort r := by
  have hdec : codec.decode (t.nextCursor codec sort r) = .ok (t.cursorState sort r) :=
    codec.decode_encode _
  refine ⟨⟨_, hdec, rfl, rfl, hid, fun h => ?_⟩, ?_⟩
  · cases sort with
    | none => rfl
    | some s => exact congrArg (t.row r) h
  · rw [cursorPosition, hdec]
    cases sort with
    | none => rfl
    | some s => rfl

/-- The seek clause of a good cursor is true exactly on the rows past its position. -/
theorem cursorPredicate_eval {codec : CursorCodec κ} {sort : Option SortOrder} {c : κ}
    (hsort : t.Sortable sort) (hc : t.GoodCursor codec sort c) :
    ∃ e, t.cursorPredicate codec c sort = .ok e ∧ ∀ r, t.idOf r ≠ .none →
      (e.keeps (t.row r) = true ↔
        sortsBefore (isDescending sort) (cursorPosition codec c) (t.position sort r)) := by
  obtain ⟨s, hdec, hfield, hasc, hid, hkey⟩ := hc
  have hpos : cursorPosition codec c = (s.sortKey, s.idValue) := by rw [cursorPosition, hdec]
  have hagree : ¬ (s.sortField ≠ sort.map (·.attrName) ∨
      s.ascending ≠ !isDescending sort) := by
    rintro (h | h)
    · exact h hfield
    · exact h hasc
  rw [hpos]
  unfold cursorPredicate
  simp only [hdec, if_neg hagree]
  cases sort with
  | none =>
      refine ⟨_, rfl, fun r hr => ?_⟩
      rw [SqlExpr.keeps, decide_eq_true_eq]
      exact keysetPredicate_eval hid hr hkey
  | some o =>
      refine ⟨keysetPredicate (t.getColumnName o.attrName) t.idColumn s.sortKey s.idValue
        s.ascending, ?_, fun r hr => ?_⟩
      · simp only [sortColumnFor_eq hsort, bind, Except.bind, pure, Except.pure]
      · rw [SqlExpr.keeps, decide_eq_true_eq]
        refine (keysetPredicate_eval hid hr hkey).trans ?_
        rw [hasc, Bool.not_not]
        rfl

/-- The seek condition of a request keeps the rows past its cursor. -/
theorem seek_selects {codec : CursorCodec κ} {sort : Option SortOrder} {cursor : Option κ}
    (hrows : t.Valid types rows) (hsort : t.Sortable sort)
    (hc : ∀ c ∈ cursor, t.GoodCursor codec sort c) :
    ∃ seek, t.seek codec cursor sort = .ok seek ∧ ∀ r ∈ rows, t.selects seek r = true ↔
      Past (sortsBefore (isDescending sort)) (cursor.map (cursorPosition codec))
        (t.position sort r) := by
  cases cursor with
  | none => exact ⟨[], rfl, fun r _ => by simp [selects, Past]⟩
  | some c =>
      obtain ⟨e, he, hev⟩ := cursorPredicate_eval hsort (hc c rfl)
      refine ⟨[e], ?_, fun r hr => ?_⟩
      · simp only [seek, he, bind, Except.bind, pure, Except.pure]
      · simpa [selects, Past] using hev r (hrows.id_ne_none r hr)

/-- What a search answers, at no cursor or at a good one: the start of the listing of the matching
rows past the cursor, and the cursor of its last row when rows are left. -/
theorem search_eq {codec : CursorCodec κ} {f : Option SearchFilter} {sort : Option SortOrder}
    (limit : ℕ) (hrows : t.Valid types rows) (hf : ∀ g ∈ f, t.Answerable types g)
    (hsort : t.Sortable sort) {cursor : Option κ} (hc : ∀ c ∈ cursor, t.GoodCursor codec sort c) :
    ∃ l : List ρ, (∀ a, a ∈ l ↔ a ∈ rows.filter (t.matching f) ∧
        Past (sortsBefore (isDescending sort)) (cursor.map (cursorPosition codec))
          (t.position sort a)) ∧
      (l.Pairwise fun a b =>
        sortsBefore (isDescending sort) (t.position sort a) (t.position sort b)) ∧
      t.search codec rows f sort cursor limit = .ok ⟨l.take limit, limit,
        if limit < l.length then (l.take limit).getLast?.map (t.nextCursor codec sort)
        else none⟩ := by
  obtain ⟨order, horder, hcmp⟩ := applySort_eq hsort
  obtain ⟨conditions, hconds, hsel⟩ := applyFilters_selects hrows hf
  obtain ⟨seek, hseek, hpast⟩ := seek_selects hrows hsort hc
  refine ⟨(rows.filter (t.selects (conditions ++ seek))).insertionSort
    fun a b => orderCompare order (t.row a) (t.row b) ≠ .gt, fun a => ?_, ?_, ?_⟩
  · simp only [List.mem_insertionSort, List.mem_filter, and_assoc]
    refine and_congr_right fun ha => ?_
    rw [← hpast a ha, ← hsel a ha]
    simp [selects, List.all_append]
  · refine pairwise_insertionSort (sortsBefore_trichotomy _) hcmp ?_
    have hid : ((rows.filter (t.selects (conditions ++ seek))).map t.idOf).Nodup :=
      hrows.nodup.sublist (List.filter_sublist.map _)
    exact List.Nodup.of_map Prod.snd (by rwa [List.map_map])
  · simp only [search, horder, hconds, hseek, bind, Except.bind, pure, Except.pure, select,
      Page.ofFound_take]

/-- **A search is a page of the matching rows**, at no cursor or at a good one, and the cursor it
hands on is a good one. -/
theorem search_isPage {codec : CursorCodec κ} {f : Option SearchFilter}
    {sort : Option SortOrder} {limit : ℕ} (hrows : t.Valid types rows)
    (hf : ∀ g ∈ f, t.Answerable types g) (hsort : t.Sortable sort) (hlimit : 1 ≤ limit)
    {cursor : Option κ} (hc : ∀ c ∈ cursor, t.GoodCursor codec sort c) :
    ∃ items next, t.search codec rows f sort cursor limit = .ok ⟨items, limit, next⟩ ∧
      IsPage (sortsBefore (isDescending sort)) (t.position sort) (rows.filter (t.matching f))
        (cursor.map (cursorPosition codec)) items (next.map (cursorPosition codec)) ∧
      ∀ c ∈ next, t.GoodCursor codec sort c := by
  obtain ⟨l, hmem, hpairwise, hsearch⟩ := search_eq limit hrows hf hsort hc
  refine ⟨_, _, hsearch, isPage_take_cursor hpairwise hmem hlimit fun r hr => ?_⟩
  have hr := List.mem_of_mem_filter ((hmem r).mp hr).1
  exact nextCursor_good codec sort (hrows.id_ne_none r hr)

/-! ## Walks -/

/-- At the cursors it hands out, the service answers every request with a page. -/
theorem search_answers {codec : CursorCodec κ} {f : Option SearchFilter}
    {sort : Option SortOrder} {limit : ℕ} {rows : ℕ → List ρ}
    (hrows : ∀ n, t.Valid types (rows n)) (hf : ∀ g ∈ f, t.Answerable types g)
    (hsort : t.Sortable sort) (hlimit : 1 ≤ limit) :
    Answers (sortsBefore (isDescending sort)) (t.position sort) (cursorPosition codec)
      (t.SearchPage codec rows f sort limit) (t.GoodCursor codec sort)
      (fun n => (rows n).filter (t.matching f)) where
  total n c hc := by
    obtain ⟨items, next, hs, -, -⟩ := search_isPage (hrows n) hf hsort hlimit hc
    exact ⟨items, next, hs⟩
  isPage n c items next hc hp := by
    obtain ⟨_, _, hs, hpage, -⟩ := search_isPage (hrows n) hf hsort hlimit hc
    cases hs.symm.trans hp
    exact hpage
  good n c items next hc hp := by
    obtain ⟨_, _, hs, -, hgood⟩ := search_isPage (hrows n) hf hsort hlimit hc
    cases hs.symm.trans hp
    exact hgood

end SqlTable

end Resourcey
