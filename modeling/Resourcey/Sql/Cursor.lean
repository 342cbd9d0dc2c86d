import Mathlib.Data.List.Sort
import Resourcey.Core.Listing
import Resourcey.Core.Service
import Resourcey.Sql.Expr

/-!
# Order and seek

Both halves of the backend's paging have to be the order of a listing: `orderCompare_sort` says
that the `ORDER BY` terms of `SqlSortConverter` sort by it, and `keysetPredicate_eval` that the
seek predicate is true exactly on the rows strictly after the cursor, in each of its six branches.
-/

namespace Resourcey

/-! ## `ORDER BY` -/

/-- Where an ordering puts its nulls. -/
inductive NullsPlacement where
  | first
  | last
  deriving DecidableEq, Repr

/-- One term of an `ORDER BY`. A term that does not place its nulls puts them first here; the only
one the backend emits is over the identifier, which has none. -/
structure OrderTerm where
  column : String
  descending : Bool
  nulls : Option NullsPlacement

/-- How a term compares two rows. -/
def OrderTerm.compareRows (t : OrderTerm) (a b : SqlRow) : Ordering :=
  if a t.column = .none then
    if b t.column = .none then .eq else if t.nulls = some .last then .gt else .lt
  else
    if b t.column = .none then if t.nulls = some .last then .lt else .gt
    else if t.descending then cmp (b t.column) (a t.column) else cmp (a t.column) (b t.column)

/-- How an `ORDER BY` compares two rows: the first term that tells them apart decides. -/
def orderCompare : List OrderTerm → SqlRow → SqlRow → Ordering
  | [], _, _ => .eq
  | t :: ts, a, b => (t.compareRows a b).then (orderCompare ts a b)

/-- `_attr_order`: nulls first ascending and last descending. -/
def attrOrder (column : String) (descending : Bool) : OrderTerm :=
  if descending then ⟨column, true, some .last⟩ else ⟨column, false, some .first⟩

/-- `id_column.asc()`. -/
def idOrder (idColumn : String) : OrderTerm := ⟨idColumn, false, none⟩

theorem cmp_none_left {v : Value} (h : v ≠ .none) : cmp Value.none v = .lt :=
  (cmp_eq_lt_iff _ _).mpr (Value.none_lt_iff.mpr h)

theorem cmp_none_right {v : Value} (h : v ≠ .none) : cmp v Value.none = .gt :=
  (cmp_eq_gt_iff _ _).mpr (Value.none_lt_iff.mpr h)

/-- A term that puts nulls first ascending compares as the order of values does. -/
theorem compareRows_asc {t : OrderTerm} (hd : t.descending = false) (hn : t.nulls ≠ some .last)
    (a b : SqlRow) : t.compareRows a b = cmp (a t.column) (b t.column) := by
  unfold OrderTerm.compareRows
  by_cases ha : a t.column = .none
  · by_cases hb : b t.column = .none
    · rw [if_pos ha, if_pos hb, ha, hb, cmp_self_eq_eq]
    · rw [if_pos ha, if_neg hb, if_neg hn, ha, cmp_none_left hb]
  · by_cases hb : b t.column = .none
    · rw [if_neg ha, if_pos hb, if_neg hn, hb, cmp_none_right ha]
    · rw [if_neg ha, if_neg hb, hd, if_neg Bool.false_ne_true]

/-- A term that puts nulls last descending compares as the reverse order does. -/
theorem compareRows_desc {t : OrderTerm} (hd : t.descending = true) (hn : t.nulls = some .last)
    (a b : SqlRow) : t.compareRows a b = cmp (b t.column) (a t.column) := by
  unfold OrderTerm.compareRows
  by_cases ha : a t.column = .none
  · by_cases hb : b t.column = .none
    · rw [if_pos ha, if_pos hb, ha, hb, cmp_self_eq_eq]
    · rw [if_pos ha, if_neg hb, if_pos hn, ha, cmp_none_right hb]
  · by_cases hb : b t.column = .none
    · rw [if_neg ha, if_pos hb, if_pos hn, hb, cmp_none_left ha]
    · rw [if_neg ha, if_neg hb, if_pos hd]

/-- The identifier term alone sorts by the identifier. -/
theorem orderCompare_id (idColumn : String) (a b : SqlRow) :
    orderCompare [idOrder idColumn] a b ≠ .gt ↔
      sortsBefore false (positionOf idColumn idColumn a) (positionOf idColumn idColumn b) ∨
        positionOf idColumn idColumn a = positionOf idColumn idColumn b := by
  rw [orderCompare, orderCompare, compareRows_asc rfl (by simp [idOrder])]
  rw [Ordering.then_eq]
  exact cmp_ne_gt (a idColumn) (b idColumn)

/-- The terms of a sorted search sort by position. -/
theorem orderCompare_sort (column idColumn : String) (descending : Bool) (a b : SqlRow) :
    orderCompare [attrOrder column descending, idOrder idColumn] a b ≠ .gt ↔
      sortsBefore descending (positionOf column idColumn a) (positionOf column idColumn b) ∨
        positionOf column idColumn a = positionOf column idColumn b := by
  have hterm : (attrOrder column descending).compareRows a b
      = if descending then cmp (b column) (a column) else cmp (a column) (b column) := by
    cases descending
    · exact compareRows_asc rfl (by simp [attrOrder]) a b
    · exact compareRows_desc rfl rfl a b
  have hid : (idOrder idColumn).compareRows a b = cmp (a idColumn) (b idColumn) :=
    compareRows_asc rfl (by simp [idOrder]) a b
  rw [orderCompare, orderCompare, orderCompare, hterm, hid, Ordering.then_eq]
  exact cmp_then_ne_gt descending (positionOf column idColumn a) (positionOf column idColumn b)

/-! ## The seek predicate -/

/-- `keyset_predicate`. -/
def keysetPredicate (sortColumn idColumn : String) (cursorKey cursorId : Value)
    (ascending : Bool) : SqlExpr :=
  if sortColumn = idColumn then
    if ascending then .order .gt sortColumn cursorId else .order .lt sortColumn cursorId
  else if ascending then
    if cursorKey = .none then
      .or [.isNotNull sortColumn, .and [.isNull sortColumn, .order .gt idColumn cursorId]]
    else
      .or [.order .gt sortColumn cursorKey,
        .and [.eq sortColumn cursorKey, .order .gt idColumn cursorId]]
  else
    if cursorKey = .none then
      .and [.isNull sortColumn, .order .gt idColumn cursorId]
    else
      .or [.order .lt sortColumn cursorKey,
        .and [.eq sortColumn cursorKey, .order .gt idColumn cursorId],
        .isNull sortColumn]

/-- **The seek predicate is the strict successor relation of the order.** It is true exactly on
the rows that sort after the cursor's position. -/
theorem keysetPredicate_eval [TextRules] {sortColumn idColumn : String} {key id : Value}
    {ascending : Bool} {row : SqlRow} (hid : id ≠ .none) (hrow : row idColumn ≠ .none)
    (hkey : sortColumn = idColumn → key = id) :
    (keysetPredicate sortColumn idColumn key id ascending).eval row = .true ↔
      sortsBefore (!ascending) (key, id) (positionOf sortColumn idColumn row) := by
  have hgt : (SqlExpr.order .gt idColumn id).eval row = .true ↔ id < row idColumn := by
    simp [hid, hrow, OrderOp.holds]
  have hlt := Value.not_lt_none (row sortColumn)
  rw [sortsBefore_iff, sortValueBefore, positionOf]
  unfold keysetPredicate
  by_cases hcol : sortColumn = idColumn
  · obtain rfl := hkey hcol
    subst hcol
    rw [if_pos rfl]
    cases ascending
    · have : row sortColumn < key ↔ row sortColumn < key ∨ key = row sortColumn ∧
          key < row sortColumn := by grind
      simpa [hid, hrow, OrderOp.holds] using this
    · rw [if_pos rfl, hgt]
      grind
  · rw [if_neg hcol]
    cases ascending
    · by_cases hk : key = .none
      · subst hk
        simp [hgt, hlt, @eq_comm Value .none]
      · have hsort : (SqlExpr.order .lt sortColumn key).eval row = .true ↔
            row sortColumn ≠ .none ∧ row sortColumn < key := by
          simp [hk, OrderOp.holds]
        simp only [Bool.false_eq_true, if_false, hk, SqlExpr.eval_or, List.mem_cons,
          List.not_mem_nil, or_false, exists_eq_or_imp, exists_eq_left, hsort,
          SqlExpr.eval_and_pair, SqlExpr.eval_eq, hgt, SqlExpr.eval_isNull, Bool.not_false]
        grind [Value.none_lt_iff]
    · by_cases hk : key = .none
      · subst hk
        simp [hgt, Value.none_lt_iff, @eq_comm Value .none]
      · have hsort : (SqlExpr.order .gt sortColumn key).eval row = .true ↔
            row sortColumn ≠ .none ∧ key < row sortColumn := by
          simp [hk, OrderOp.holds]
        simp only [if_true, hk, if_false, SqlExpr.eval_or_pair, hsort, SqlExpr.eval_and_pair,
          SqlExpr.eval_eq, hgt, Bool.not_true, Bool.false_eq_true]
        grind [Value.not_lt_none]

end Resourcey
