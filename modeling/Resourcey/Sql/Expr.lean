import Resourcey.Logic.Kleene
import Resourcey.Logic.Like
import Resourcey.Util.SearchFilter

/-!
# SQL conditions

The conditions the SQL backend emits, with their standard meaning: a condition is `true`, `false`
or `unknown` on a row, a comparison with `NULL` is `unknown`, `IS NULL` and `IS DISTINCT FROM` are
two-valued, and `WHERE` keeps the rows whose condition is `true`. The two list connectives read
back as quantifiers over their operands (`eval_and`, `eval_or`), and a `LIKE` pattern that escapes
its needle accepts the texts that contain it (`ilike_containsPattern`).
-/

namespace Resourcey

open Kleene

/-- A row of a table, by column name. -/
abbrev SqlRow := String → Value

/-- A condition over one row. An operand is a bound value. -/
inductive SqlExpr where
  | const (b : Bool)
  | isNull (column : String)
  | isNotNull (column : String)
  | eq (column : String) (value : Value)
  | order (op : OrderOp) (column : String) (value : Value)
  | isDistinctFrom (column : String) (value : Value)
  | isIn (column : String) (values : List Value)
  | notIn (column : String) (values : List Value)
  | ilike (column : String) (pattern : List Char)
  | not (e : SqlExpr)
  | and (es : List SqlExpr)
  | or (es : List SqlExpr)

namespace SqlExpr

/-- `LIKE` with `%`, `_` and the escape character `\`. -/
def likeSyntax : Like.Syntax Char where
  many := '%'
  one := '_'
  escape := '\\'
  many_ne_one := by decide
  many_ne_escape := by decide
  one_ne_escape := by decide

theorem special_iff (c : Char) :
    likeSyntax.special c = true ↔ c = '%' ∨ c = '_' ∨ c = '\\' := by
  simp only [Like.Syntax.special, Bool.or_eq_true, decide_eq_true_eq, or_assoc]
  rfl

/-- A comparison of two values, `unknown` when either is null. -/
def compare (test : Value → Value → Bool) : Value → Value → Truth
  | .none, _ | _, .none => .unknown
  | v, w => .ofBool (test v w)

/-- A comparison is true when neither operand is null and it holds of them. -/
theorem compare_eq_true (test : Value → Value → Bool) (v w : Value) :
    compare test v w = .true ↔ v ≠ .none ∧ w ≠ .none ∧ test v w = true := by
  cases v <;> cases w <;> simp [compare]

/-- A comparison is false when neither operand is null and it fails of them. -/
theorem compare_eq_false (test : Value → Value → Bool) (v w : Value) :
    compare test v w = .false ↔ v ≠ .none ∧ w ≠ .none ∧ test v w = false := by
  cases v <;> cases w <;> simp [compare]

/-- `v IN (…)`: the disjunction of the equalities. -/
def member (v : Value) (values : List Value) : Truth :=
  .any (values.map fun w => compare (fun v w => v = w) v w)

/-- `v ILIKE pattern ESCAPE '\'`, which is defined on text. -/
def ilikeValue [TextRules] : Value → List Char → Truth
  | .scalar (.str s), pattern =>
    .ofBool (Like.accepts (Like.parse likeSyntax (pattern.flatMap TextRules.lower)) (lower s))
  | _, _ => .unknown

variable [TextRules]

mutual

/-- The truth value of a condition on a row. -/
def eval : SqlExpr → SqlRow → Truth
  | .const b, _ => .ofBool b
  | .isNull c, row => .ofBool (row c = .none)
  | .isNotNull c, row => .ofBool (row c ≠ .none)
  | .eq c v, row => compare (fun v w => v = w) (row c) v
  | .order op c v, row => compare op.holds (row c) v
  | .isDistinctFrom c v, row => .ofBool (row c ≠ v)
  | .isIn c vs, row => member (row c) vs
  | .notIn c vs, row => (member (row c) vs).not
  | .ilike c p, row => ilikeValue (row c) p
  | .not e, row => (e.eval row).not
  | .and es, row => .all (evalList es row)
  | .or es, row => .any (evalList es row)

/-- The truth values of a list of conditions. -/
def evalList : List SqlExpr → SqlRow → List Truth
  | [], _ => []
  | e :: es, row => e.eval row :: evalList es row

end

/-- Whether `WHERE` keeps the row. -/
def keeps (e : SqlExpr) (row : SqlRow) : Bool := e.eval row = .true

theorem evalList_eq (es : List SqlExpr) (row : SqlRow) :
    evalList es row = es.map fun e => e.eval row := by
  induction es with
  | nil => rfl
  | cons e es ih => exact congrArg (e.eval row :: ·) ih

@[simp] theorem eval_const (b : Bool) (row : SqlRow) : eval (.const b) row = .ofBool b := rfl

/-- A conjunction is true when every operand is. -/
@[simp] theorem eval_and (es : List SqlExpr) (row : SqlRow) :
    eval (.and es) row = .true ↔ ∀ e ∈ es, e.eval row = .true := by
  show Truth.all (evalList es row) = .true ↔ _
  simp [evalList_eq]

/-- A disjunction is true when some operand is. -/
@[simp] theorem eval_or (es : List SqlExpr) (row : SqlRow) :
    eval (.or es) row = .true ↔ ∃ e ∈ es, e.eval row = .true := by
  show Truth.any (evalList es row) = .true ↔ _
  simp [evalList_eq]

theorem eval_or_pair (d e : SqlExpr) (row : SqlRow) :
    eval (.or [d, e]) row = .true ↔ d.eval row = .true ∨ e.eval row = .true := by
  simp

theorem eval_and_pair (d e : SqlExpr) (row : SqlRow) :
    eval (.and [d, e]) row = .true ↔ d.eval row = .true ∧ e.eval row = .true := by
  simp

@[simp] theorem eval_isNull (c : String) (row : SqlRow) :
    eval (.isNull c) row = .true ↔ row c = .none := by
  show Truth.ofBool (row c = .none) = .true ↔ _
  simp

@[simp] theorem eval_isNotNull (c : String) (row : SqlRow) :
    eval (.isNotNull c) row = .true ↔ row c ≠ .none := by
  show Truth.ofBool (row c ≠ .none) = .true ↔ _
  simp

@[simp] theorem eval_isDistinctFrom (c : String) (v : Value) (row : SqlRow) :
    eval (.isDistinctFrom c v) row = .true ↔ row c ≠ v := by
  show Truth.ofBool (row c ≠ v) = .true ↔ _
  simp

@[simp] theorem eval_eq (c : String) (v : Value) (row : SqlRow) :
    eval (.eq c v) row = .true ↔ v ≠ .none ∧ row c = v := by
  refine (compare_eq_true _ _ _).trans ?_
  rw [decide_eq_true_eq]
  exact ⟨fun h => h.2, fun h => ⟨h.2 ▸ h.1, h⟩⟩

@[simp] theorem eval_order (op : OrderOp) (c : String) (v : Value) (row : SqlRow) :
    eval (.order op c v) row = .true ↔ row c ≠ .none ∧ v ≠ .none ∧ op.holds (row c) v = true :=
  compare_eq_true _ _ _

/-- `IN` is true on the members of the set that are not null. -/
@[simp] theorem eval_isIn (c : String) (vs : List Value) (row : SqlRow) :
    eval (.isIn c vs) row = .true ↔ row c ≠ .none ∧ row c ∈ vs := by
  refine (Truth.any_eq_true _).trans ?_
  simp only [List.mem_map, compare_eq_true, decide_eq_true_eq]
  constructor
  · rintro ⟨v, hv, hrow, -, rfl⟩
    exact ⟨hrow, hv⟩
  · rintro ⟨hrow, hv⟩
    exact ⟨row c, hv, hrow, hrow, rfl⟩

/-- Over a set without nulls, `NOT IN` is true on what is neither null nor in the set. -/
theorem eval_notIn (c : String) {vs : List Value} (hvs : vs ≠ []) (hnull : Value.none ∉ vs)
    (row : SqlRow) : eval (.notIn c vs) row = .true ↔ row c ≠ .none ∧ row c ∉ vs := by
  refine ((Truth.not_eq_true _).trans (Truth.any_eq_false _)).trans ?_
  simp only [List.forall_mem_map, compare_eq_false, decide_eq_false_iff_not]
  constructor
  · intro h
    obtain ⟨v, hv⟩ := List.exists_mem_of_ne_nil vs hvs
    exact ⟨(h v hv).1, fun hmem => (h _ hmem).2.2 rfl⟩
  · rintro ⟨hrow, hmem⟩ v hv
    exact ⟨hrow, fun h => hnull (h ▸ hv), fun h => hmem (h ▸ hv)⟩

/-! ## Escaped patterns -/

/-- Lowercasing an escaped needle escapes the lowercased needle. -/
theorem lower_escape (s : List Char) :
    (Like.escape likeSyntax s).flatMap TextRules.lower
      = Like.escape likeSyntax (s.flatMap TextRules.lower) := by
  induction s with
  | nil => rfl
  | cons c s ih =>
      simp only [Like.escape, List.flatMap_cons, List.flatMap_append] at ih ⊢
      rw [ih]
      congr 1
      cases hc : likeSyntax.special c with
      | true =>
          have hlow := TextRules.lower_wildcard c ((special_iff c).mp hc)
          have hesc := TextRules.lower_wildcard '\\' (by simp)
          rw [hlow, show likeSyntax.escape = '\\' from rfl]
          simp [hesc, hlow, hc]
      | false =>
          -- No character of the lowered text is special, so none of them is escaped.
          have hplain : ∀ d ∈ TextRules.lower c, likeSyntax.special d = false := by
            intro d hd
            by_contra h
            have hd' := (special_iff d).mp (by simpa using h)
            rw [← TextRules.wildcard_of_mem_lower c d hd hd', hc] at h
            exact h rfl
          have hid : ∀ l : List Char, (∀ d ∈ l, likeSyntax.special d = false) →
              l.flatMap (fun d => if likeSyntax.special d then [likeSyntax.escape, d] else [d])
                = l := by
            intro l hl
            induction l with
            | nil => rfl
            | cons d l ihl =>
                simp only [List.mem_cons, forall_eq_or_imp] at hl
                simp [hl.1, ihl hl.2]
          simp [hid _ hplain]

/-- An escaped needle between two `%` matches exactly the texts that contain it. -/
theorem ilikeValue_escape (s needle : String) :
    ilikeValue (.scalar (.str s)) ('%' :: Like.escape likeSyntax needle.toList ++ ['%'])
      = .ofBool (decide (lower needle <:+: lower s)) := by
  have hmany := TextRules.lower_wildcard '%' (by simp)
  have hpattern : ('%' :: Like.escape likeSyntax needle.toList ++ ['%']).flatMap TextRules.lower
      = '%' :: (Like.escape likeSyntax (lower needle) ++ ['%']) := by
    simp only [List.cons_append, List.flatMap_cons, List.flatMap_append, hmany, lower_escape,
      List.flatMap_nil, List.append_nil, List.nil_append]
    rfl
  rw [ilikeValue, hpattern]
  congr 1
  rw [Bool.eq_iff_iff, decide_eq_true_eq]
  exact Like.accepts_contains likeSyntax (lower needle) (lower s)

end SqlExpr

end Resourcey
