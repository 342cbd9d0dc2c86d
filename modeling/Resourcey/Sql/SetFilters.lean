import Resourcey.Sql.FilterConverter

/-!
# Set filters

A set leaf is meant to be the disjunction of its equalities. The disjunction converts to a condition
that agrees with the set in memory on every row (`agrees_eqs`), as an equality with null is a null
test. The condition of the set leaf itself hands its values to `IN`, where a null among them is
`unknown` on every row that is not matched: `setFilterAgrees_iff` says on which rows that shows.
-/

namespace Resourcey

open Kleene

namespace SqlExpr

variable [TextRules]

/-- Over a set with a null, `NOT IN` is true on no row. -/
theorem eval_notIn_of_null (c : String) {vs : List Value} (hnull : Value.none ∈ vs) (row : SqlRow) :
    eval (.notIn c vs) row ≠ .true := by
  intro h
  have hfalse := (Truth.any_eq_false _).mp ((Truth.not_eq_true _).mp h)
  have hcompare := hfalse _ (List.mem_map_of_mem hnull)
  exact ((compare_eq_false _ _ _).mp hcompare).2.1 rfl

theorem keeps_eq_bne {e : SqlExpr} {row : SqlRow} {b negated : Bool} :
    e.keeps row = (b != negated) ↔ (e.eval row = .true ↔ b ≠ negated) := by
  rw [Bool.eq_iff_iff, keeps, decide_eq_true_eq, bne_iff_ne]

end SqlExpr

/-- The disjunction of the equalities with the values. -/
def eqs (a : String) (vs : List Value) : SearchFilter :=
  .or (vs.map fun v => .attr a (.eq v))

section SetFilters

variable [TextRules]

/-- In the polarity, the condition of the set leaf and the condition of the disjunction of its
equalities keep the row alike, and as the set decides in memory on the value of the column. -/
def SetFilterAgrees (ctx : SqlFilterContext) (a c : String) (vs : List Value) (row : SqlRow)
    (negated : Bool) : Prop :=
  ∃ set disjunction b, condition ctx (.attr a (.isIn vs)) none negated = .ok set ∧
    condition ctx (eqs a vs) none negated = .ok disjunction ∧
    (SearchFilter.isIn vs).matches (.value (row c)) = .ok b ∧
    set.keeps row = disjunction.keeps row ∧ set.keeps row = (b != negated)

variable {ctx : SqlFilterContext} {a c : String} {vs : List Value} {row : SqlRow} {k : Kind}

omit [TextRules] in
/-- Over values of one type, membership in Python is membership. -/
theorem any_pyEq_iff (hrow : (row c).OfKind k) (hvs : ∀ v ∈ vs, v.OfKind k) :
    (vs.any fun v => (row c).pyEq v) = true ↔ row c ∈ vs := by
  rw [List.any_eq_true]
  constructor
  · rintro ⟨v, hv, h⟩
    rwa [(Value.pyEq_iff hrow (hvs v hv)).mp h]
  · intro h
    exact ⟨row c, h, (Value.pyEq_iff hrow hrow).mpr rfl⟩

/-- The disjunction of the equalities agrees with the set in both polarities. -/
theorem agrees_eqs (hcolumn : ctx.columns a = some c) (hrow : (row c).OfKind k)
    (hvs : ∀ v ∈ vs, v.OfKind k) :
    Agrees ctx (eqs a vs) none row (vs.any fun v => (row c).pyEq v) := by
  -- The truth value of a leaf is read on an entity that has the value of the column.
  let x : Subject := .object fun _ => row c
  have hleaf : ∀ f ∈ vs.map fun v => SearchFilter.attr a (.eq v),
      Agrees ctx f none row (f.holds x) := by
    intro f hf
    obtain ⟨v, hv, rfl⟩ := List.mem_map.mp hf
    intro negated
    have hvalue : Agrees ctx (.eq v) (some c) row _ := (ValueTyped.eq (hvs v hv)).agrees hrow
    obtain ⟨e, he, hev⟩ := hvalue negated
    refine ⟨e, ?_, hev⟩
    simpa [condition, SqlFilterContext.columnFor, hcolumn, bind, Except.bind] using he
  have hor := Agrees.or hleaf
  rwa [List.any_map] at hor

/-- The condition of the set leaf. -/
theorem condition_attr_isIn (hcolumn : ctx.columns a = some c) (negated : Bool) :
    condition ctx (.attr a (.isIn vs)) none negated =
      .ok (if negated then (inOperator vs).negated c else (inOperator vs).positive c) := by
  simp [condition, SqlFilterContext.columnFor, hcolumn, bind, Except.bind, valueRule]

/-- The rows that the condition of the set leaf keeps: a null among the values is no member, and
leaves the complement with the null test alone. -/
theorem inOperator_eval_iff (vs : List Value) (c : String) (row : SqlRow) :
    (((inOperator vs).positive c).eval row = .true ↔ row c ≠ .none ∧ row c ∈ vs) ∧
      (((inOperator vs).negated c).eval row = .true ↔
        row c = .none ∨ Value.none ∉ vs ∧ row c ∉ vs) := by
  rcases eq_or_ne vs [] with rfl | hne
  · simp [inOperator]
  · simp only [inOperator, hne, if_false, SqlExpr.eval_isIn, SqlExpr.eval_or_pair,
      SqlExpr.eval_isNull, true_and]
    rcases em (Value.none ∈ vs) with hnull | hnull
    · simp [hnull, SqlExpr.eval_notIn_of_null c hnull]
    · rw [SqlExpr.eval_notIn c hne hnull]
      rcases em (row c = .none) with h | h
      · simp [h]
      · simp [h, hnull]

/-- **When a set is the disjunction of its equalities.** Over a column and values of one type, nulls
included, the condition of the set leaf keeps the rows that the disjunction keeps and that the set
decides in memory if and only if no value is null, or else the column is not, and under negation is
one of the values. -/
theorem setFilterAgrees_iff (hcolumn : ctx.columns a = some c) (hrow : (row c).OfKind k)
    (hvs : ∀ v ∈ vs, v.OfKind k) (negated : Bool) :
    SetFilterAgrees ctx a c vs row negated ↔
      (Value.none ∈ vs → row c ≠ .none ∧ (negated = true → row c ∈ vs)) := by
  obtain ⟨disjunction, hdisjunction, heval⟩ := agrees_eqs hcolumn hrow hvs negated
  have hmem := any_pyEq_iff hrow hvs
  obtain ⟨hpositive, hnegated⟩ := inOperator_eval_iff vs c row
  -- What is left to compare is the condition of the set leaf with membership.
  have hiff : SetFilterAgrees ctx a c vs row negated ↔
      ((if negated then (inOperator vs).negated c else (inOperator vs).positive c).eval row = .true
        ↔ (vs.any fun v => (row c).pyEq v) ≠ negated) := by
    constructor
    · rintro ⟨set, disjunction', b, hset, -, hb, -, h⟩
      cases (condition_attr_isIn hcolumn negated).symm.trans hset
      cases hb
      exact SqlExpr.keeps_eq_bne.mp h
    · intro h
      refine ⟨_, disjunction, _, condition_attr_isIn hcolumn negated, hdisjunction, rfl, ?_, ?_⟩
      · simp only [SqlExpr.keeps, h, heval]
      · exact SqlExpr.keeps_eq_bne.mpr h
  rw [hiff]
  cases negated with
  | false =>
      simp only [Bool.false_eq_true, if_false, hpositive, ne_eq, Bool.not_eq_false, hmem,
        false_implies, and_true]
      exact ⟨fun h hnull he => (h.mpr (he ▸ hnull)).1 he,
        fun h => ⟨fun h => h.2, fun hin => ⟨fun he => h (he ▸ hin) he, hin⟩⟩⟩
  | true =>
      simp only [if_true, hnegated, ne_eq, hmem, true_implies]
      constructor
      · intro h hnull
        have hne : row c ≠ .none := fun he => h.mp (.inl he) (he ▸ hnull)
        refine ⟨hne, by_contra fun hin => ?_⟩
        rcases h.mpr hin with he | ⟨hnone, -⟩
        · exact hne he
        · exact hnone hnull
      · intro h
        refine ⟨?_, fun hin => .inr ⟨fun hnull => hin ((h hnull).2), hin⟩⟩
        rintro (he | ⟨-, hin⟩) hmem
        · exact (h (he ▸ hmem)).1 he
        · exact hin hmem

end SetFilters

/-- A set with a null, under negation, on a row whose value is in the set. -/
theorem setFilterAgrees_iff_member :
    let ctx : SqlFilterContext := ⟨some⟩
    let vs : List Value := [.none, .scalar (.int 3)]
    letI := TextRules.ascii
    (SetFilterAgrees ctx "age" "age" vs (fun _ => .scalar (.int 3)) true ↔
      (Value.none ∈ vs → Value.scalar (.int 3) ≠ .none ∧
        (true = true → Value.scalar (.int 3) ∈ vs))) := by
  intro ctx vs
  let _ := TextRules.ascii
  have hvs : ∀ v ∈ vs, v.OfKind .int := by
    intro v hv
    simp only [vs, List.mem_cons, List.not_mem_nil, or_false] at hv
    rcases hv with rfl | rfl
    · exact trivial
    · exact rfl
  have hrow : ((fun _ => .scalar (.int 3) : SqlRow) "age").OfKind .int := rfl
  exact setFilterAgrees_iff rfl hrow hvs true

/-- A null column is in the set `(None, 3)` in memory, and `IN` drops its row. -/
theorem setFilter_drops_null :
    let ctx : SqlFilterContext := ⟨some⟩
    letI := TextRules.ascii
    ¬ SetFilterAgrees ctx "age" "age" [.none, .scalar (.int 3)] (fun _ => .none) false := by
  intro ctx
  let _ := TextRules.ascii
  rintro ⟨set, disjunction, b, hset, -, hb, -, h⟩
  cases hset
  cases hb
  exact absurd h (by decide)

end Resourcey
