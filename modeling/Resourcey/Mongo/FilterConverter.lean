import Resourcey.Core.Service
import Resourcey.Mongo.Query
import Resourcey.Util.ObjectFilter

/-!
# Filter conversion to Mongo

The Mongo twin of the SQL conversion: the same rules over the same tree, with a field name in place
of a column and a query in place of a condition. No restriction is `none`, which the two
connectives treat as true, and the complement of a value leaf is the `$nor` of its positive form.
-/

namespace Resourcey

/-- What a conversion may read: the field behind each queryable attribute. -/
structure MongoFilterContext where
  fields : String → Option String

/-- `MongoFilterContext.field_for`. -/
def MongoFilterContext.fieldFor (ctx : MongoFilterContext) (name : String) :
    Except ResourceyError String :=
  match ctx.fields name with
  | some field => .ok field
  | none => .error (.unsupportedFilter
      ("Attribute '" ++ name ++ "' is not a queryable field of this resource"))

/-- `_MATCH_NONE`. -/
def matchNone : MongoQuery := .nor [.dict []]

/-- `_conjunction`: an absent query is true, so it is dropped. -/
def conjunction (children : List (Option MongoQuery)) : Option MongoQuery :=
  match children.filterMap id with
  | [] => none
  | [q] => some q
  | qs => some (.and qs)

/-- `_disjunction`: an absent query is true, so it absorbs the others. -/
def disjunction (children : List (Option MongoQuery)) : Option MongoQuery :=
  if children.any Option.isNone then none
  else match children.filterMap id with
    | [] => some matchNone
    | [q] => some q
    | qs => some (.or qs)

variable [TextRules]

/-- `_encode`, which is also `_encode_value`: a UUID is stored as its text. An aware datetime is its
instant already. -/
def encodeValue : Value → Value
  | .scalar (.uuid n) => .scalar (.str (TextRules.str (.scalar (.uuid n))))
  | v => v

/-- The positive form of a value leaf. -/
def mongoEq (v : Value) (field : String) : MongoQuery := .dict [(field, .eq (encodeValue v))]

/-- `_gt_positive`, `_ge_positive`, `_lt_positive` and `_le_positive`. -/
def mongoOrder (op : OrderOp) (v : Value) (field : String) : MongoQuery :=
  .dict [(field, .order op (encodeValue v))]

/-- `_contains_positive`. -/
def mongoContains (v : Value) (field : String) : MongoQuery :=
  .dict [(field, .regex (reEscape (TextRules.str v).toList))]

/-- `_in_positive`. -/
def mongoIn (vs : List Value) (field : String) : MongoQuery :=
  .dict [(field, .isIn (vs.map encodeValue))]

/-- `ValueRule.convert`: the positive form on the bound field, or its `$nor`. -/
def mongoValueRule (kind : String) (positive : String → MongoQuery) (field : Option String)
    (negated : Bool) : Except ResourceyError (Option MongoQuery) :=
  match field with
  | none => .error (.unsupportedFilter (kind ++
      " reached the converter without a bound field; a value filter must sit under an AttrFilter"))
  | some field => .ok (some (if negated then .nor [positive field] else positive field))

mutual

/-- `MongoFilterConverter.condition` over `DEFAULT_RULES`, a rule to a case. -/
def mongoCondition (ctx : MongoFilterContext) : SearchFilter → Option String → Bool →
    Except ResourceyError (Option MongoQuery)
  | .all, _, negated => .ok (if negated then some matchNone else none)
  | .noMatch, _, negated => .ok (if negated then none else some matchNone)
  | .not f, field, negated => mongoCondition ctx f field !negated
  | .and fs, field, negated => do
    let children ← mongoConditions ctx fs field negated
    return if negated then
      if children.isEmpty then some matchNone else disjunction children
    else conjunction children
  | .or fs, field, negated => do
    let children ← mongoConditions ctx fs field negated
    return if negated then
      if children.isEmpty then none else conjunction children
    else disjunction children
  | .object _ standard, field, negated => mongoCondition ctx standard field negated
  | .attr name f, _, negated => do
    let bound ← ctx.fieldFor name
    mongoCondition ctx f (some bound) negated
  | .eq v, field, negated => mongoValueRule "EqFilter" (mongoEq v) field negated
  | .order op v, field, negated =>
    mongoValueRule (SearchFilter.kindOfOrder op) (mongoOrder op v) field negated
  | .contains v, field, negated => mongoValueRule "ContainsFilter" (mongoContains v) field negated
  | .isIn vs, field, negated => mongoValueRule "InFilter" (mongoIn vs) field negated
  | .custom kind _, _, _ =>
    .error (.unsupportedFilter ("No Mongo conversion is registered for " ++ kind))

/-- `MongoFilterConverter.conditions`. -/
def mongoConditions (ctx : MongoFilterContext) : List SearchFilter → Option String → Bool →
    Except ResourceyError (List (Option MongoQuery))
  | [], _, _ => .ok []
  | f :: fs, field, negated => do
    let q ← mongoCondition ctx f field negated
    let qs ← mongoConditions ctx fs field negated
    return q :: qs

end

end Resourcey
