import Resourcey.Util.SearchFilter
import Mathlib.Data.List.DropRight

/-!
# Object filters

A `BaseObjectFilter` declares its clauses as `<attribute>__<op>` fields and lowers them to a
standard tree when it is built. `objectFilter` is that construction; a field that is unset, or
whose operator is not recognised, contributes nothing.
-/

namespace Resourcey

/-- A coerced value of a clause; `in` has a list. -/
inductive ClauseOperand where
  | one (v : Value)
  | many (vs : List Value)

/-- `MAX_IN_VALUES`. -/
def maxInValues : ℕ := 500

namespace SearchFilter

/-- `SEPARATOR`. -/
def separator : List Char := ['_', '_']

/-- `s.rpartition(sep)`: the text before and after the last occurrence of `sep`. -/
def rpartition (sep : List Char) : List Char → Option (List Char × List Char)
  | [] => none
  | c :: cs =>
    match rpartition sep cs with
    | some (head, tail) => some (c :: head, tail)
    | none => if sep.isPrefixOf (c :: cs) then some ([], (c :: cs).drop sep.length) else none

/-- The parts and the separator are the text. -/
theorem rpartition_eq {sep s head tail : List Char} (h : rpartition sep s = some (head, tail)) :
    s = head ++ sep ++ tail := by
  induction s generalizing head with
  | nil => cases h
  | cons c cs ih =>
      rw [rpartition] at h
      cases hcs : rpartition sep cs with
      | some parts =>
          rw [hcs] at h
          cases h
          rw [ih hcs, List.cons_append, List.cons_append]
      | none =>
          simp only [hcs] at h
          split at h
          · next hprefix =>
              cases h
              obtain ⟨rest, hrest⟩ := List.isPrefixOf_iff_prefix.mp hprefix
              rw [← hrest, List.drop_left, List.nil_append]
          · cases h

/-- `str.isspace` of one character. -/
def isSpace (c : Char) : Bool :=
  let n := c.toNat
  (9 ≤ n && n ≤ 13) || (28 ≤ n && n ≤ 32) || n = 133 || n = 160 || n = 5760 ||
    (8192 ≤ n && n ≤ 8202) || n = 8232 || n = 8233 || n = 8239 || n = 8287 || n = 12288

/-- `s.strip()`. -/
def strip (s : List Char) : List Char := (s.dropWhile isSpace).rdropWhile isSpace

/-- The set an `in` clause names: a comma-separated string is split, a scalar is wrapped. -/
def setOf : Value → List Value
  | .scalar (.str s) =>
    (((s.toList.splitOn ',').map strip).filter (· ≠ [])).map fun part =>
      .scalar (.str (String.ofList part))
  | .list items => items.map .scalar
  | v => [v]

/-- `_leaf_for` over the keys of `_OP_NODES`: the value leaf of an operator, if it is one. -/
def leafFor (op : String) (v : Value) : Option SearchFilter :=
  match op with
  | "eq" => some (.eq v)
  | "gt" => some (.gt v)
  | "ge" => some (.ge v)
  | "lt" => some (.lt v)
  | "le" => some (.le v)
  | "contains" => some (.contains v)
  | "in" => some (.isIn (setOf v))
  | _ => none

/-- The keys of `_OP_NODES`. -/
def opNodes : List String := ["eq", "gt", "ge", "lt", "le", "contains", "in"]

/-- The attribute and the operator of a field, unless it has no separator or no attribute. -/
def clauseName (name : String) : Option (String × String) :=
  match rpartition separator name.toList with
  | some ([], _) => none
  | some (head, op) => some (String.ofList head, String.ofList op)
  | none => none

/-- A field is named by its attribute and its operator. -/
theorem clauseName_eq {name attrName op : String} (h : clauseName name = some (attrName, op)) :
    name = attrName ++ "__" ++ op := by
  unfold clauseName at h
  split at h
  · cases h
  · next head tail _ hparts =>
      cases h
      simp only [← String.toList_inj, String.toList_append, String.toList_ofList]
      exact rpartition_eq hparts
  · cases h

/-- One iteration of `_build_standard_filter`. -/
def clauseFor : String × Value → Option SearchFilter
  | (_, .none) => none
  | (name, v) => do
    let (head, op) ← clauseName name
    return attr_ head (← leafFor op v)

/-- A clause that is not dropped is the leaf of its operator, bound to its attribute. -/
theorem clauseFor_eq_some {name : String} {v : Value} {g : SearchFilter}
    (h : clauseFor (name, v) = some g) : ∃ head op leaf, clauseName name = some (head, op) ∧
      leafFor op v = some leaf ∧ attr_ head leaf = g := by
  cases v with
  | none => cases h
  | scalar _ | list _ =>
      simp only [clauseFor, Option.bind_eq_bind, Option.bind_eq_some_iff, Option.pure_def,
        Option.some.injEq] at h
      obtain ⟨⟨head, op⟩, hname, leaf, hleaf, hg⟩ := h
      exact ⟨head, op, leaf, hname, hleaf, hg⟩

/-- `BaseObjectFilter._build_standard_filter`. -/
def buildStandardFilter (fields : List (String × Value)) : SearchFilter :=
  and_ (fields.filterMap clauseFor)

/-- A `BaseObjectFilter` with the given fields, its standard tree built and cached. -/
def objectFilter (fields : List (String × Value)) : SearchFilter :=
  .object fields (buildStandardFilter fields)

/-- `build_filter`: `(attribute, op, value)` clauses combined into one normalised tree, unless an
operator is unknown. -/
def buildFilter (clauses : List (String × String × Value)) : Option SearchFilter := do
  let children ← clauses.mapM fun (name, op, v) => (leafFor op v).map (attr_ name)
  return and_ children

example : clauseName "created_at__ge" = some ("created_at", "ge") := by decide

example : setOf (.scalar (.str " a, ,b")) = [.scalar (.str "a"), .scalar (.str "b")] := by decide

end SearchFilter

end Resourcey
