import Resourcey.Core.Service
import Resourcey.Sql.Expr
import Resourcey.Util.ObjectFilter

/-!
# Filter pushdown

`condition` translates a filter tree into a SQL condition, or into its null-safe complement when
`negated`. Negation is chosen at the leaf: the logical nodes push the flag down and every value
operator supplies its own complement. A node without a rule, an attribute that is not queryable
and a value leaf without a column raise.

`condition_eval` is the correctness of the translation in both polarities at once, by induction
over the tree: the emitted condition is true exactly on the rows where the tree's truth value
differs from the flag. It is stated for the trees that have a meaning in SQL (`WellTyped`): each
leaf under a queryable attribute, with operands of the column's type.
-/

namespace Resourcey

/-- What a conversion may read: the column behind each queryable attribute. -/
structure SqlFilterContext where
  columns : String → Option String

/-- `SqlFilterContext.column_for`. -/
def SqlFilterContext.columnFor (ctx : SqlFilterContext) (name : String) :
    Except ResourceyError String :=
  match ctx.columns name with
  | some column => .ok column
  | none => .error (.unsupportedFilter
      ("Attribute '" ++ name ++ "' is not a queryable field of this resource"))

/-! ## Value operators -/

/-- The two polarities of one value leaf. -/
structure ValueOperator where
  positive : String → SqlExpr
  negated : String → SqlExpr

/-- `_eq_positive` and `_eq_negated`. -/
def eqOperator (v : Value) : ValueOperator where
  positive column := if v = .none then .isNull column else .eq column v
  negated column := if v = .none then .isNotNull column else .isDistinctFrom column v

/-- The operator of an ordering leaf: the complement is null-safe by its own null test. -/
def orderOperator (op : OrderOp) (v : Value) : ValueOperator where
  positive column := .order op column v
  negated column := .or [.isNull column, .order op.complement column v]

/-- `_gt_positive` and `_gt_negated`. -/
abbrev gtOperator : Value → ValueOperator := orderOperator .gt

/-- `_ge_positive` and `_ge_negated`. -/
abbrev geOperator : Value → ValueOperator := orderOperator .ge

/-- `_lt_positive` and `_lt_negated`. -/
abbrev ltOperator : Value → ValueOperator := orderOperator .lt

/-- `_le_positive` and `_le_negated`. -/
abbrev leOperator : Value → ValueOperator := orderOperator .le

/-- `s.replace(old, new)` for a one-character `old`. -/
def replaceChar (old : Char) (new s : List Char) : List Char :=
  s.flatMap fun c => if c = old then new else [c]

variable [TextRules]

/-- `_contains_pattern`. -/
def containsPattern (v : Value) : List Char :=
  let safe := replaceChar '_' ['\\', '_'] <| replaceChar '%' ['\\', '%'] <|
    replaceChar '\\' ['\\', '\\'] (TextRules.str v).toList
  '%' :: safe ++ ['%']

/-- `_contains_positive` and `_contains_negated`. -/
def containsOperator (v : Value) : ValueOperator where
  positive column := .ilike column (containsPattern v)
  negated column := .or [.isNull column, .not (.ilike column (containsPattern v))]

/-- `_in_positive` and `_in_negated`. -/
def inOperator (vs : List Value) : ValueOperator where
  positive column := if vs = [] then .const false else .isIn column vs
  negated column := if vs = [] then .const true else .or [.isNull column, .notIn column vs]

/-! ## Rules -/

/-- `ValueRule.convert`: the operator of the wanted polarity, on the bound column. -/
def valueRule (kind : String) (operator : ValueOperator) (column : Option String)
    (negated : Bool) : Except ResourceyError SqlExpr :=
  match column with
  | none => .error (.unsupportedFilter (kind ++
      " reached the converter without a bound column; a value filter must sit under an AttrFilter"))
  | some column => .ok (if negated then operator.negated column else operator.positive column)

mutual

/-- `SqlFilterConverter.condition` over `DEFAULT_RULES`, a rule to a case: the condition for the
node, or its null-safe complement when `negated`. `column` is the column an enclosing `AttrFilter`
bound. -/
def condition (ctx : SqlFilterContext) : SearchFilter → Option String → Bool →
    Except ResourceyError SqlExpr
  -- AllRule and NoMatchRule
  | .all, _, negated => .ok (.const !negated)
  | .noMatch, _, negated => .ok (.const negated)
  -- NotRule flips the polarity of its child
  | .not f, column, negated => condition ctx f column !negated
  -- AndRule and OrRule, De Morgan under negation
  | .and fs, column, negated => do
    let children ← conditions ctx fs column negated
    return if negated then
      if children.isEmpty then .const false else .or children
    else
      if children.isEmpty then .const true else .and children
  | .or fs, column, negated => do
    let children ← conditions ctx fs column negated
    return if negated then
      if children.isEmpty then .const true else .and children
    else
      if children.isEmpty then .const false else .or children
  -- ObjectFilterRule converts the standard tree
  | .object _ standard, column, negated => condition ctx standard column negated
  -- AttrRule resolves the attribute to a queryable column
  | .attr name f, _, negated => do
    let bound ← ctx.columnFor name
    condition ctx f (some bound) negated
  -- ValueRule over STANDARD_VALUE_OPERATORS
  | .eq v, column, negated => valueRule "EqFilter" (eqOperator v) column negated
  | .order op v, column, negated =>
    valueRule (SearchFilter.kindOfOrder op) (orderOperator op v) column negated
  | .contains v, column, negated => valueRule "ContainsFilter" (containsOperator v) column negated
  | .isIn vs, column, negated => valueRule "InFilter" (inOperator vs) column negated
  -- no rule handles the node
  | .custom kind _, _, _ =>
    .error (.unsupportedFilter ("No SQL conversion is registered for " ++ kind))

/-- `SqlFilterConverter.conditions`: the children, one after the other. -/
def conditions (ctx : SqlFilterContext) : List SearchFilter → Option String → Bool →
    Except ResourceyError (List SqlExpr)
  | [], _, _ => .ok []
  | f :: fs, column, negated => do
    let e ← condition ctx f column negated
    let es ← conditions ctx fs column negated
    return e :: es

end

/-- `SqlFilterConverter.apply`, as the condition added to the statement: nothing when it is the
constant true. -/
def whereClause (ctx : SqlFilterContext) (f : SearchFilter) : Except ResourceyError (List SqlExpr) := do
  match ← condition ctx f none false with
  | .const true => return []
  | e => return [e]

/-! ## Agreement in both polarities -/

/-- In either polarity the node converts, and the condition is true on the row exactly when `truth`
differs from the flag. -/
def Agrees (ctx : SqlFilterContext) (f : SearchFilter) (column : Option String) (row : SqlRow)
    (truth : Bool) : Prop :=
  ∀ negated, ∃ e, condition ctx f column negated = .ok e ∧ (e.eval row = .true ↔ truth ≠ negated)

section Agrees

variable {ctx : SqlFilterContext} {column : Option String} {row : SqlRow}

/-- Children that agree convert, and their conditions are read off their truth values. -/
theorem conditions_of_agrees {fs : List SearchFilter} {truth : SearchFilter → Bool}
    (h : ∀ f ∈ fs, Agrees ctx f column row (truth f)) (negated : Bool) :
    ∃ es, conditions ctx fs column negated = .ok es ∧
      ((∀ e ∈ es, e.eval row = .true) ↔ ∀ f ∈ fs, truth f ≠ negated) ∧
      ((∃ e ∈ es, e.eval row = .true) ↔ ∃ f ∈ fs, truth f ≠ negated) := by
  induction fs with
  | nil => exact ⟨[], by simp [conditions], by simp, by simp⟩
  | cons f fs ih =>
      simp only [List.mem_cons, forall_eq_or_imp] at h
      obtain ⟨e, he, hev⟩ := h.1 negated
      obtain ⟨es, hes, hall, hany⟩ := ih h.2
      refine ⟨e :: es, ?_, ?_, ?_⟩
      · simp [conditions, he, hes, bind, Except.bind, pure, Except.pure]
      · simp only [List.mem_cons, forall_eq_or_imp, hev, hall]
      · simp only [List.mem_cons, exists_eq_or_imp, hev, hany]

/-- A constant in place of an empty conjunction does not change the meaning. -/
theorem eval_ite_and (es : List SqlExpr) :
    (if es.isEmpty then SqlExpr.const true else .and es).eval row = .true
      ↔ ∀ e ∈ es, e.eval row = .true := by
  cases es <;> simp

/-- A constant in place of an empty disjunction does not change the meaning. -/
theorem eval_ite_or (es : List SqlExpr) :
    (if es.isEmpty then SqlExpr.const false else .or es).eval row = .true
      ↔ ∃ e ∈ es, e.eval row = .true := by
  cases es <;> simp

theorem Agrees.all : Agrees ctx .all column row true := by
  intro negated
  exact ⟨.const !negated, rfl, by cases negated <;> simp⟩

theorem Agrees.noMatch : Agrees ctx .noMatch column row false := by
  intro negated
  exact ⟨.const negated, rfl, by cases negated <;> simp⟩

theorem Agrees.not {f : SearchFilter} {b : Bool} (h : Agrees ctx f column row b) :
    Agrees ctx (.not f) column row !b := by
  intro negated
  obtain ⟨e, he, hev⟩ := h !negated
  refine ⟨e, he, ?_⟩
  rw [hev]
  cases b <;> cases negated <;> simp

/-- Under negation a conjunction is a disjunction of complements. -/
theorem Agrees.and {fs : List SearchFilter} {truth : SearchFilter → Bool}
    (h : ∀ f ∈ fs, Agrees ctx f column row (truth f)) :
    Agrees ctx (.and fs) column row (fs.all truth) := by
  intro negated
  obtain ⟨es, hes, hall, hany⟩ := conditions_of_agrees h negated
  simp only [condition, hes, bind, Except.bind, pure, Except.pure, Except.ok.injEq,
    exists_eq_left']
  cases negated with
  | true =>
      rw [if_pos rfl, eval_ite_or, hany]
      simp
  | false =>
      rw [if_neg (by simp), eval_ite_and, hall]
      simp

/-- Under negation a disjunction is a conjunction of complements. -/
theorem Agrees.or {fs : List SearchFilter} {truth : SearchFilter → Bool}
    (h : ∀ f ∈ fs, Agrees ctx f column row (truth f)) :
    Agrees ctx (.or fs) column row (fs.any truth) := by
  intro negated
  obtain ⟨es, hes, hall, hany⟩ := conditions_of_agrees h negated
  simp only [condition, hes, bind, Except.bind, pure, Except.pure, Except.ok.injEq,
    exists_eq_left']
  cases negated with
  | true =>
      rw [if_pos rfl, eval_ite_and, hall]
      simp
  | false =>
      rw [if_neg (by simp), eval_ite_or, hany]
      simp

/-- A value leaf agrees when the two polarities of its operator are complements on the row. -/
theorem agrees_valueRule {f : SearchFilter} {kind c : String} {operator : ValueOperator} {b : Bool}
    (hrule : ∀ negated, condition ctx f (some c) negated
      = valueRule kind operator (some c) negated)
    (hpos : (operator.positive c).eval row = .true ↔ b = true)
    (hneg : (operator.negated c).eval row = .true ↔ b = false) :
    Agrees ctx f (some c) row b := by
  intro negated
  refine ⟨_, (hrule negated).trans rfl, ?_⟩
  cases negated with
  | true => simpa using hneg
  | false => simpa using hpos

end Agrees

/-! ## The value operators -/

section Operators

variable {row : SqlRow} {c : String} {k : Kind}

theorem eqOperator_eval {v : Value} (hrow : (row c).OfKind k) (hv : v.OfKind k) :
    (((eqOperator v).positive c).eval row = .true ↔ (row c).pyEq v = true) ∧
      (((eqOperator v).negated c).eval row = .true ↔ (row c).pyEq v = false) := by
  rw [← Bool.not_eq_true, Value.pyEq_iff hrow hv]
  by_cases h : v = .none
  · subst h
    simp [eqOperator]
  · simp [eqOperator, h]

theorem orderOperator_eval (op : OrderOp) {s : Scalar} (hrow : (row c).OfKind k)
    (hs : s.kind = k) :
    (((orderOperator op (.scalar s)).positive c).eval row = .true
        ↔ (op.compare (row c) (.scalar s)).toOption.getD false = true) ∧
      (((orderOperator op (.scalar s)).negated c).eval row = .true
        ↔ (op.compare (row c) (.scalar s)).toOption.getD false = false) := by
  rw [OrderOp.compare_ofKind hrow hs]
  constructor
  · simp [orderOperator]
  · simp only [orderOperator, SqlExpr.eval_or_pair, SqlExpr.eval_isNull, SqlExpr.eval_order,
      OrderOp.holds_complement]
    by_cases h : row c = .none <;> simp [h]

/-- The three replacements escape each special character once. -/
theorem containsPattern_str (s : String) :
    containsPattern (.scalar (.str s))
      = '%' :: Like.escape SqlExpr.likeSyntax s.toList ++ ['%'] := by
  rw [containsPattern, TextRules.str_str]
  exact congrArg (fun safe => '%' :: safe ++ ['%'])
    (Like.replace_in_turn SqlExpr.likeSyntax s.toList)

/-- **An escaped pattern matches literally**: under `LIKE` the texts that contain the needle, and
with both folded to lower case, before escaping or after it, the texts that a `ContainsFilter`
matches. -/
theorem containsPattern_literal (needle haystack : String) :
    (Like.accepts (Like.parse SqlExpr.likeSyntax (containsPattern (.scalar (.str needle))))
        haystack.toList = true ↔ needle.toList <:+: haystack.toList) ∧
      (SearchFilter.contains (.scalar (.str needle))).matches (.value (.scalar (.str haystack))) =
        .ok (Like.accepts (Like.parse SqlExpr.likeSyntax
          (containsPattern (.scalar (.str (String.ofList (lower needle)))))) (lower haystack)) ∧
      (SearchFilter.contains (.scalar (.str needle))).matches (.value (.scalar (.str haystack))) =
        .ok (Like.accepts (Like.parse SqlExpr.likeSyntax
          ((containsPattern (.scalar (.str needle))).flatMap TextRules.lower)) (lower haystack)) := by
  refine ⟨?_, congrArg Except.ok ?_, congrArg Except.ok ?_⟩
  · rw [containsPattern_str]
    exact Like.accepts_contains SqlExpr.likeSyntax needle.toList haystack.toList
  · rw [containsPattern_str, String.toList_ofList, memContains, Bool.eq_iff_iff, decide_eq_true_iff]
    exact (Like.accepts_contains SqlExpr.likeSyntax (lower needle) (lower haystack)).symm
  · have hilike := SqlExpr.ilikeValue_escape haystack needle
    rw [← containsPattern_str, SqlExpr.ilikeValue] at hilike
    rw [memContains, Bool.eq_iff_iff, ← Kleene.Truth.ofBool_eq_true,
      ← Kleene.Truth.ofBool_eq_true, hilike]

theorem containsOperator_eval (needle : String) (hrow : (row c).OfKind .str) :
    (((containsOperator (.scalar (.str needle))).positive c).eval row = .true
        ↔ memContains (.value (row c)) (.scalar (.str needle)) = true) ∧
      (((containsOperator (.scalar (.str needle))).negated c).eval row = .true
        ↔ memContains (.value (row c)) (.scalar (.str needle)) = false) := by
  cases hc : row c with
  | none =>
      constructor
      · simp [containsOperator, SqlExpr.eval, SqlExpr.ilikeValue, hc, memContains]
      · simp only [containsOperator, SqlExpr.eval_or_pair, SqlExpr.eval_isNull, hc, memContains,
          true_or]
  | scalar t =>
      rw [hc] at hrow
      cases t <;> simp only [Value.OfKind, Scalar.kind, reduceCtorEq] at hrow
      case str s =>
        have hlike : SqlExpr.eval (.ilike c (containsPattern (.scalar (.str needle)))) row
            = .ofBool (memContains (.value (row c)) (.scalar (.str needle))) := by
          rw [SqlExpr.eval, hc, containsPattern_str, SqlExpr.ilikeValue_escape]
          rfl
        constructor
        · rw [← hc]
          simp [containsOperator, hlike]
        · rw [← hc]
          simp only [containsOperator, SqlExpr.eval_or_pair, SqlExpr.eval_isNull, hc,
            reduceCtorEq, false_or]
          rw [SqlExpr.eval, hlike, hc]
          simp
  | list _ =>
      rw [hc] at hrow
      cases hrow

theorem inOperator_eval {ss : List Scalar} (hrow : (row c).OfKind k) (hs : ∀ s ∈ ss, s.kind = k) :
    (((inOperator (ss.map .scalar)).positive c).eval row = .true
        ↔ (ss.map Value.scalar).any (fun v => (row c).pyEq v) = true) ∧
      (((inOperator (ss.map .scalar)).negated c).eval row = .true
        ↔ (ss.map Value.scalar).any (fun v => (row c).pyEq v) = false) := by
  have hany : (ss.map Value.scalar).any (fun v => (row c).pyEq v) = true
      ↔ row c ∈ ss.map Value.scalar := by
    simp only [List.any_eq_true]
    constructor
    · rintro ⟨v, hv, h⟩
      obtain ⟨s, hs', rfl⟩ := List.mem_map.mp hv
      have hk : (Value.scalar s).OfKind k := hs s hs'
      rwa [(Value.pyEq_iff hrow hk).mp h]
    · intro h
      exact ⟨row c, h, (Value.pyEq_iff hrow hrow).mpr rfl⟩
  have hnull : Value.none ∉ ss.map Value.scalar := by simp
  rw [← Bool.not_eq_true, hany]
  by_cases h : ss.map Value.scalar = []
  · simp [inOperator, h]
  · have hmem : row c ∈ ss.map Value.scalar → row c ≠ .none := fun h he => hnull (he ▸ h)
    constructor
    · simp only [inOperator, h, if_false, SqlExpr.eval_isIn]
      exact ⟨fun h => h.2, fun h => ⟨hmem h, h⟩⟩
    · simp only [inOperator, h, if_false, SqlExpr.eval_or_pair, SqlExpr.eval_isNull,
        SqlExpr.eval_notIn c h hnull]
      by_cases hn : row c = .none
      · simp [hn]
      · simp [hn]

end Operators

/-! ## Typed trees -/

/-- The declared type of each column that holds scalars. -/
abbrev ColumnTypes := String → Option Kind

/-- Each column of the row holds a value of its type, or null. -/
def ColumnTypes.Typed (types : ColumnTypes) (row : SqlRow) : Prop :=
  ∀ c k, types c = some k → (row c).OfKind k

/-- A boolean combination of value leaves with operands of type `k`: an ordering has a non-null
operand, a containment test is of text, and a set has no nulls. -/
inductive ValueTyped (k : Kind) : SearchFilter → Prop
  | all : ValueTyped k .all
  | noMatch : ValueTyped k .noMatch
  | and {fs} : (∀ f ∈ fs, ValueTyped k f) → ValueTyped k (.and fs)
  | or {fs} : (∀ f ∈ fs, ValueTyped k f) → ValueTyped k (.or fs)
  | not {f} : ValueTyped k f → ValueTyped k (.not f)
  | eq {v : Value} : v.OfKind k → ValueTyped k (.eq v)
  | order {op s} : s.kind = k → ValueTyped k (.order op (.scalar s))
  | contains {s} : k = .str → ValueTyped k (.contains (.scalar (.str s)))
  | isIn {ss : List Scalar} : (∀ s ∈ ss, s.kind = k) → ValueTyped k (.isIn (ss.map .scalar))

/-- A tree over queryable attributes, each with a boolean combination of value leaves of its
column's type. -/
inductive WellTyped (ctx : SqlFilterContext) (types : ColumnTypes) : SearchFilter → Prop
  | all : WellTyped ctx types .all
  | noMatch : WellTyped ctx types .noMatch
  | and {fs} : (∀ f ∈ fs, WellTyped ctx types f) → WellTyped ctx types (.and fs)
  | or {fs} : (∀ f ∈ fs, WellTyped ctx types f) → WellTyped ctx types (.or fs)
  | not {f} : WellTyped ctx types f → WellTyped ctx types (.not f)
  | attr {name column k f} : ctx.columns name = some column → types column = some k →
      ValueTyped k f → WellTyped ctx types (.attr name f)
  | object {fields f} : WellTyped ctx types f → WellTyped ctx types (.object fields f)

/-- What an entity must have in common with the row it was read from: its queryable attributes. -/
def SqlFilterContext.Represents (ctx : SqlFilterContext) (x : Subject) (row : SqlRow) : Prop :=
  ∀ name column, ctx.columns name = some column → x.get name = row column

section WellTyped

variable {ctx : SqlFilterContext} {types : ColumnTypes} {row : SqlRow} {x : Subject}

/-- A boolean combination of value leaves agrees with its truth value on the bound column. -/
theorem ValueTyped.agrees {k : Kind} {c : String} (hrow : (row c).OfKind k) {f : SearchFilter}
    (hf : ValueTyped k f) : Agrees ctx f (some c) row (f.holds (.value (row c))) := by
  induction hf with
  | all => exact SearchFilter.holds_all _ ▸ Agrees.all
  | noMatch => exact SearchFilter.holds_noMatch _ ▸ Agrees.noMatch
  | and _ ih => exact SearchFilter.holds_and _ _ ▸ Agrees.and ih
  | or _ ih => exact SearchFilter.holds_or _ _ ▸ Agrees.or ih
  | not _ ih => exact SearchFilter.holds_not _ _ ▸ ih.not
  | eq hv =>
      have h := eqOperator_eval hrow hv
      refine agrees_valueRule (fun _ => by rw [condition]) ?_ ?_
      · simpa [SearchFilter.holds, Subject.pyEq] using h.1
      · simpa [SearchFilter.holds, Subject.pyEq] using h.2
  | @order op s hs =>
      have h := orderOperator_eval op hrow hs
      refine agrees_valueRule (fun _ => by rw [condition]) ?_ ?_
      · simpa [SearchFilter.holds, Subject.compare] using h.1
      · simpa [SearchFilter.holds, Subject.compare] using h.2
  | @contains needle hk =>
      subst hk
      have h := containsOperator_eval needle hrow
      refine agrees_valueRule (fun _ => by rw [condition]) ?_ ?_
      · simpa [SearchFilter.holds] using h.1
      · simpa [SearchFilter.holds] using h.2
  | isIn hs =>
      have h := inOperator_eval hrow hs
      refine agrees_valueRule (fun _ => by rw [condition]) ?_ ?_
      · simpa [SearchFilter.holds, Subject.pyEq] using h.1
      · simpa [SearchFilter.holds, Subject.pyEq] using h.2

/-- A typed tree agrees with its truth value on the entity of the row. -/
theorem WellTyped.agrees (hrow : types.Typed row) (hx : ctx.Represents x row)
    {f : SearchFilter} (hf : WellTyped ctx types f) : Agrees ctx f none row (f.holds x) := by
  induction hf with
  | all => exact SearchFilter.holds_all _ ▸ Agrees.all
  | noMatch => exact SearchFilter.holds_noMatch _ ▸ Agrees.noMatch
  | and _ ih => exact SearchFilter.holds_and _ _ ▸ Agrees.and ih
  | or _ ih => exact SearchFilter.holds_or _ _ ▸ Agrees.or ih
  | not _ ih => exact SearchFilter.holds_not _ _ ▸ ih.not
  | attr hname hk hf =>
      intro negated
      have hf : Agrees ctx _ _ row _ := hf.agrees (hrow _ _ hk)
      obtain ⟨e, he, hev⟩ := hf negated
      refine ⟨e, ?_, ?_⟩
      · simpa [condition, SqlFilterContext.columnFor, hname, bind, Except.bind] using he
      · rw [hev, SearchFilter.holds_attr, hx _ _ hname]
  | object _ ih =>
      intro negated
      obtain ⟨e, he, hev⟩ := ih negated
      exact ⟨e, by simpa [condition] using he, by rw [hev, SearchFilter.holds_object]⟩

end WellTyped

omit [TextRules] in
/-- The normalised conjunction of typed trees is typed. -/
theorem WellTyped.and_ {ctx : SqlFilterContext} {types : ColumnTypes} {fs : List SearchFilter}
    (h : ∀ f ∈ fs, WellTyped ctx types f) : WellTyped ctx types (SearchFilter.and_ fs) := by
  refine SearchFilter.and_induction .all .noMatch (fun fs => ⟨?_, .and⟩) h
  rintro ⟨⟩
  assumption

omit [TextRules] in
/-- An object filter is typed when the leaf of each of its clauses is, under a queryable
attribute. -/
theorem wellTyped_objectFilter {ctx : SqlFilterContext} {types : ColumnTypes}
    {fields : List (String × Value)}
    (h : ∀ field ∈ fields, ∀ head op leaf, SearchFilter.clauseName field.1 = some (head, op) →
      SearchFilter.leafFor op field.2 = some leaf →
        ∃ c k, ctx.columns head = some c ∧ types c = some k ∧ ValueTyped k leaf) :
    WellTyped ctx types (SearchFilter.objectFilter fields) := by
  refine .object (.and_ fun g hg => ?_)
  obtain ⟨⟨name, v⟩, hfield, hg⟩ := List.mem_filterMap.mp hg
  obtain ⟨head, op, leaf, hname, hleaf, rfl⟩ := SearchFilter.clauseFor_eq_some hg
  obtain ⟨c, k, hc, hk, htyped⟩ := h _ hfield head op leaf hname hleaf
  cases leaf with
  | all => exact .all
  | noMatch => exact .noMatch
  | _ => exact .attr hc hk htyped

/-! ## What a `WHERE` clause keeps -/

/-- The filter converts, and its condition is true on the row. -/
def Keeps (ctx : SqlFilterContext) (f : SearchFilter) (row : SqlRow) : Prop :=
  ∃ e, condition ctx f none false = .ok e ∧ e.eval row = .true

instance (ctx : SqlFilterContext) (f : SearchFilter) (row : SqlRow) :
    Decidable (Keeps ctx f row) := by
  unfold Keeps
  cases condition ctx f none false with
  | error e => exact .isFalse nofun
  | ok e => exact decidable_of_iff (e.eval row = .true) (by simp)

section Keeps

variable {ctx : SqlFilterContext} {row : SqlRow}

/-- The children convert to conditions that are all true when each child keeps the row. -/
theorem conditions_keeps (fs : List SearchFilter) :
    (∃ es, conditions ctx fs none false = .ok es ∧ ∀ e ∈ es, e.eval row = .true)
      ↔ ∀ f ∈ fs, Keeps ctx f row := by
  induction fs with
  | nil => simp [conditions]
  | cons f fs ih =>
      rw [List.forall_mem_cons, ← ih, Keeps, conditions]
      cases condition ctx f none false with
      | error e => simp [bind, Except.bind]
      | ok e =>
          cases conditions ctx fs none false with
          | error e => simp [bind, Except.bind]
          | ok es => simp [bind, Except.bind, pure, Except.pure]

/-- A conjunction keeps the rows that every child keeps. -/
theorem keeps_and (fs : List SearchFilter) :
    Keeps ctx (.and fs) row ↔ ∀ f ∈ fs, Keeps ctx f row := by
  rw [← conditions_keeps, Keeps, condition]
  cases conditions ctx fs none false with
  | error e => simp [bind, Except.bind]
  | ok es =>
      simp only [bind, Except.bind, pure, Except.pure, Except.ok.injEq, exists_eq_left',
        Bool.false_eq_true, if_false]
      exact eval_ite_and es

theorem keeps_all : Keeps ctx .all row := ⟨.const true, by simp [condition], by simp⟩

theorem not_keeps_noMatch : ¬ Keeps ctx .noMatch row := by
  simp [Keeps, condition]

/-- What `and_` builds keeps no row that one of its arguments drops. -/
theorem Keeps.of_and_ {fs : List SearchFilter} (h : Keeps ctx (SearchFilter.and_ fs) row) :
    ∀ f ∈ fs, Keeps ctx f row :=
  SearchFilter.forall_of_and_ keeps_all not_keeps_noMatch keeps_and h

/-- A typed tree keeps the rows on whose entity it holds. -/
theorem WellTyped.keeps_iff {types : ColumnTypes} {x : Subject} {f : SearchFilter}
    (hf : WellTyped ctx types f) (hrow : types.Typed row)
    (hx : ctx.Represents x row) : Keeps ctx f row ↔ f.holds x = true := by
  obtain ⟨e, he, hev⟩ := hf.agrees hrow hx false
  rw [Keeps, he]
  simpa using hev

/-- A node that converts adds at most its condition to the statement. -/
theorem whereClause_eq {f : SearchFilter} {e : SqlExpr} (h : condition ctx f none false = .ok e) :
    ∃ es, whereClause ctx f = .ok es := by
  rw [whereClause, h]
  simp only [bind, Except.bind, pure, Except.pure]
  split
  · exact ⟨_, rfl⟩
  · exact ⟨_, rfl⟩

/-- A typed tree converts. -/
theorem WellTyped.whereClause {types : ColumnTypes} {f : SearchFilter}
    (hf : WellTyped ctx types f) : ∃ es, whereClause ctx f = .ok es := by
  have hrow : types.Typed (fun _ => .none) := fun _ _ _ => trivial
  have hx : ctx.Represents (.object fun _ => .none) (fun _ => .none) := fun _ _ _ => rfl
  obtain ⟨e, he, -⟩ := hf.agrees hrow hx false
  exact whereClause_eq he

/-- The rows a `WHERE` clause selects are the ones its filter keeps. -/
theorem whereClause_keeps {f : SearchFilter} {es : List SqlExpr}
    (h : whereClause ctx f = .ok es) : es.all (fun e => e.keeps row) = true ↔ Keeps ctx f row := by
  rw [whereClause] at h
  cases hc : condition ctx f none false with
  | error e => simp [hc, bind, Except.bind] at h
  | ok e =>
      simp only [hc, bind, Except.bind, pure, Except.pure] at h
      rw [Keeps, hc]
      split at h
      · cases h
        simp
      · cases h
        simp [SqlExpr.keeps]

omit [TextRules] in
/-- A value leaf without a column is not supported. -/
theorem valueRule_error {kind : String} {operator : ValueOperator} {column : Option String}
    {negated : Bool} {e : ResourceyError} (h : valueRule kind operator column negated = .error e) :
    ∃ message, e = .unsupportedFilter message := by
  unfold valueRule at h
  split at h
  · cases h
    exact ⟨_, rfl⟩
  · cases h

/-- A conversion that fails names what is not supported. -/
theorem condition_error {f : SearchFilter} {column : Option String} {negated : Bool}
    {e : ResourceyError} (h : condition ctx f column negated = .error e) :
    ∃ message, e = .unsupportedFilter message := by
  have hchildren : ∀ fs : List SearchFilter,
      (∀ f ∈ fs, ∀ {column negated}, condition ctx f column negated = .error e →
        ∃ message, e = .unsupportedFilter message) → ∀ {column negated},
      conditions ctx fs column negated = .error e → ∃ message, e = .unsupportedFilter message := by
    intro fs ih column negated h
    induction fs with
    | nil => cases h
    | cons f fs ihs =>
        rw [List.forall_mem_cons] at ih
        rw [conditions, bind_eq_error] at h
        obtain hf | ⟨c, -, h⟩ := h
        · exact ih.1 hf
        · obtain hfs | ⟨cs, -, h⟩ := bind_eq_error.mp h
          · exact ihs ih.2 hfs
          · cases h
  induction f using SearchFilter.induction generalizing column negated with
  | all | noMatch => cases h
  | and fs ih | or fs ih =>
      rw [condition, bind_eq_error] at h
      obtain hfs | ⟨cs, -, h⟩ := h
      · exact hchildren fs (fun f hf => ih f hf) hfs
      · cases h
  | not f ih | object fields f ih =>
      rw [condition] at h
      exact ih h
  | attr name f ih =>
      rw [condition, SqlFilterContext.columnFor] at h
      cases hname : ctx.columns name with
      | none =>
          rw [hname] at h
          cases h
          exact ⟨_, rfl⟩
      | some bound =>
          rw [hname] at h
          exact ih h
  | custom kind test =>
      rw [condition] at h
      cases h
      exact ⟨_, rfl⟩
  | eq | order | contains | isIn =>
      rw [condition] at h
      exact valueRule_error h

/-- The children of a conjunction convert when it does. -/
theorem exists_condition_and (fs : List SearchFilter) :
    (∃ e, condition ctx (.and fs) none false = .ok e) ↔
      ∀ f ∈ fs, ∃ e, condition ctx f none false = .ok e := by
  have hand (fs : List SearchFilter) : (∃ e, condition ctx (.and fs) none false = .ok e) ↔
      ∃ es, conditions ctx fs none false = .ok es := by
    rw [condition]
    cases conditions ctx fs none false with
    | error e => simp [bind, Except.bind]
    | ok es => simp [bind, Except.bind, pure, Except.pure]
  induction fs with
  | nil => simp [hand, conditions]
  | cons f fs ih =>
      rw [List.forall_mem_cons]
      refine Iff.trans ?_ (and_congr_right' ih)
      rw [hand, hand, conditions]
      cases condition ctx f none false with
      | error e => simp [bind, Except.bind]
      | ok e =>
          cases conditions ctx fs none false with
          | error e => simp [bind, Except.bind]
          | ok es => simp [bind, Except.bind, pure, Except.pure]

/-- A clause is one of the filter's condition. -/
theorem exists_whereClause {f : SearchFilter} :
    (∃ es, whereClause ctx f = .ok es) ↔ ∃ e, condition ctx f none false = .ok e := by
  constructor
  · rintro ⟨es, h⟩
    obtain ⟨e, he, -⟩ := bind_eq_ok.mp h
    exact ⟨e, he⟩
  · rintro ⟨e, he⟩
    exact whereClause_eq he

/-- A clause under a filter that keeps everything keeps the same rows. -/
theorem whereClause_and_all {f : SearchFilter} {es : List SqlExpr}
    (h : whereClause ctx f = .ok es) : ∃ es', whereClause ctx (SearchFilter.and_ [.all, f]) = .ok es' ∧
      ∀ row, es'.all (fun e => e.keeps row) = es.all fun e => e.keeps row := by
  have hconverts : ∃ e, condition ctx (SearchFilter.and_ [.all, f]) none false = .ok e := by
    refine SearchFilter.and_induction (P := fun f => ∃ e, condition ctx f none false = .ok e)
      ⟨_, rfl⟩ ⟨_, rfl⟩ exists_condition_and ?_
    simp only [List.mem_cons, List.not_mem_nil, or_false, forall_eq_or_imp, forall_eq]
    exact ⟨⟨_, rfl⟩, exists_whereClause.mp ⟨es, h⟩⟩
  obtain ⟨es', hes'⟩ := exists_whereClause.mpr hconverts
  refine ⟨es', hes', fun row => Bool.eq_iff_iff.mpr ?_⟩
  rw [whereClause_keeps hes', whereClause_keeps h,
    SearchFilter.and_iff_forall (P := fun f => Keeps ctx f row) keeps_all not_keeps_noMatch
      keeps_and]
  simp [keeps_all]

/-- A filter that is not supported is supported under one that keeps everything only if it keeps
nothing. -/
theorem whereClause_and_all_error {f : SearchFilter} {e : ResourceyError}
    (h : whereClause ctx f = .error e) : SearchFilter.and_ [.all, f] = .noMatch ∨
      ∃ message, whereClause ctx (SearchFilter.and_ [.all, f]) = .error (.unsupportedFilter message) := by
  cases hand : whereClause ctx (SearchFilter.and_ [.all, f]) with
  | error e' =>
      obtain hcond | ⟨c, -, hc⟩ := bind_eq_error.mp hand
      · obtain ⟨message, rfl⟩ := condition_error hcond
        exact .inr ⟨message, rfl⟩
      · split at hc <;> cases hc
  | ok es =>
      have hconverts := SearchFilter.eq_noMatch_or_forall_of_and_
        (P := fun f => ∃ e, condition ctx f none false = .ok e) ⟨_, rfl⟩ exists_condition_and
        (exists_whereClause.mp ⟨es, hand⟩)
      refine hconverts.imp_right fun hall => ?_
      obtain ⟨es', hes'⟩ := exists_whereClause.mpr (hall f (by simp))
      cases h.symm.trans hes'

end Keeps

end Resourcey
