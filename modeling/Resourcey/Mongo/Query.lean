import Resourcey.Util.SearchFilter

/-!
# Mongo queries

The query documents the Mongo backend emits and the documents they match. A query is a dictionary
of field tests, all of which must hold, or a list of queries under `$and`, `$or` or `$nor`. Query
matching is two-valued: a test for null matches a field that is null or absent, an ordering never
matches null and compares only values of its operand's type, and an array field matches when one of
its items does. A dictionary literal with a repeated key keeps the later value (`pyDict`), which is
why `MongoQuery.dict` and not a bare list of tests models one.
-/

namespace Resourcey

/-- A stored document: the value of each field, or nothing where the field is absent. -/
abbrev MongoDoc := String → Option Value

/-- `doc.get(field)`. -/
def MongoDoc.get (d : MongoDoc) (field : String) : Value := (d field).getD .none

/-- The field that holds a document's identifier. -/
def mongoIdField : String := "_id"

/-! ## Dictionaries -/

section Dict

variable {α : Type}

/-- `d[key] = value`. -/
def dictSet (d : List (String × α)) (key : String) (value : α) : List (String × α) :=
  if d.any fun e => e.1 = key then d.map fun e => if e.1 = key then (key, value) else e
  else d ++ [(key, value)]

/-- A dictionary literal: of a repeated key the later value stays. -/
def pyDict (items : List (String × α)) : List (String × α) :=
  items.foldl (fun d e => dictSet d e.1 e.2) []

theorem pyDict_pair_of_ne {k l : String} (h : k ≠ l) (a b : α) :
    pyDict [(k, a), (l, b)] = [(k, a), (l, b)] := by
  simp [pyDict, dictSet, h]

theorem pyDict_pair_self (k : String) (a b : α) : pyDict [(k, a), (k, b)] = [(k, b)] := by
  simp [pyDict, dictSet]

end Dict

/-! ## Queries -/

/-- A test of one field. `regex` is `$regex` with the option `i`. -/
inductive FieldTest where
  | eq (value : Value)
  | ne (value : Value)
  | order (op : OrderOp) (value : Value)
  | regex (pattern : List Char)
  | isIn (values : List Value)

/-- A query document. -/
inductive MongoQuery where
  | fields (tests : List (String × FieldTest))
  | and (queries : List MongoQuery)
  | or (queries : List MongoQuery)
  | nor (queries : List MongoQuery)

/-- The query a dictionary literal builds. -/
def MongoQuery.dict (tests : List (String × FieldTest)) : MongoQuery := .fields (pyDict tests)

/-- The characters `re.escape` escapes. -/
def isMetachar (c : Char) : Bool :=
  c.toNat ∈ [40, 41, 91, 93, 123, 125, 63, 42, 43, 45, 124, 94, 36, 92, 46, 38, 126, 35, 32, 9, 10,
    13, 11, 12]

/-- `re.escape`. -/
def reEscape (s : List Char) : List Char :=
  s.flatMap fun c => if isMetachar c then ['\\', c] else [c]

/-- The text a pattern stands for when each of its metacharacters is escaped. -/
def regexLiteral : List Char → Option (List Char)
  | [] => some []
  | '\\' :: c :: cs => (regexLiteral cs).map (c :: ·)
  | c :: cs => if isMetachar c then none else (regexLiteral cs).map (c :: ·)

/-- Whether a test of a scalar operand holds of a value that is not an array. -/
def orderMatches (op : OrderOp) : Value → Value → Bool
  | .scalar s, .scalar operand => s.kind = operand.kind && op.holds s operand
  | .none, .none => op = .ge || op = .le
  | _, _ => false

/-- A test holds of an array when it holds of the array or of one of its items. -/
def anyItem (test : Value → Bool) : Value → Bool
  | .list items => test (.list items) || items.any fun s => test (.scalar s)
  | v => test v

/-- A test passes a value that is not an array on its own. -/
theorem anyItem_of_ofKind {k : Kind} {v : Value} (h : v.OfKind k) (test : Value → Bool) :
    anyItem test v = test v := by
  cases v with
  | none | scalar _ => rfl
  | list _ => cases h

/-- On values of one type an ordering is the store's, and never matches null. -/
theorem orderMatches_ofKind {k : Kind} {v : Value} {s : Scalar} (op : OrderOp) (hv : v.OfKind k)
    (hs : s.kind = k) : orderMatches op v (.scalar s) = true ↔
      v ≠ .none ∧ op.holds v (.scalar s) = true := by
  cases v with
  | none => simp [orderMatches]
  | scalar t =>
      have h : t.kind = s.kind := hv.trans hs.symm
      simp [orderMatches, h, OrderOp.holds_map Value.strictMono_scalar]
  | list _ => cases hv

variable [TextRules]

/-- `$regex` with the option `i`, for the patterns that stand for a text. -/
def regexMatches (pattern : List Char) : Value → Bool
  | .scalar (.str s) =>
    match regexLiteral pattern with
    | some text => decide (text.flatMap TextRules.lower <:+: lower s)
    | none => false
  | _ => false

/-- Whether a field's value passes a test. -/
def FieldTest.matches : FieldTest → Value → Bool
  | .eq w, v => anyItem (· = w) v
  | .ne w, v => !anyItem (· = w) v
  | .order op w, v => anyItem (orderMatches op · w) v
  | .regex p, v => anyItem (regexMatches p) v
  | .isIn ws, v => anyItem (· ∈ ws) v

mutual

/-- Whether a document matches a query. -/
def MongoQuery.matches : MongoQuery → MongoDoc → Bool
  | .fields tests, d => tests.all fun e => e.2.matches (d.get e.1)
  | .and qs, d => matchesEvery qs d
  | .or qs, d => matchesSome qs d
  | .nor qs, d => !matchesSome qs d

/-- Whether a document matches every query of a list. -/
def matchesEvery : List MongoQuery → MongoDoc → Bool
  | [], _ => true
  | q :: qs, d => q.matches d && matchesEvery qs d

/-- Whether a document matches some query of a list. -/
def matchesSome : List MongoQuery → MongoDoc → Bool
  | [], _ => false
  | q :: qs, d => q.matches d || matchesSome qs d

end

/-- `_merge_query`: two queries under an `$and`, an absent one being no restriction. -/
def mergeQuery : Option MongoQuery → Option MongoQuery → Option MongoQuery
  | none, extra => extra
  | base, none => base
  | some base, some extra => some (.and [base, extra])

/-- Whether `find` returns the document: an absent query restricts nothing. -/
def finds (q : Option MongoQuery) (d : MongoDoc) : Bool := q.elim true fun q => q.matches d

attribute [local simp] MongoQuery.matches matchesEvery MongoQuery.dict FieldTest.matches

theorem finds_mergeQuery (p q : Option MongoQuery) (d : MongoDoc) :
    finds (mergeQuery p q) d = (finds p d && finds q d) := by
  cases p <;> cases q <;> simp [mergeQuery, finds]

/-! ## Dictionaries and the tests of a field -/

section Tests

variable {d : MongoDoc}

/-- A dictionary with one key is its one test. -/
theorem dict_single (f : String) (test : FieldTest) :
    (MongoQuery.dict [(f, test)]).matches d = test.matches (d.get f) := by
  simp [pyDict, dictSet]

/-- A dictionary with two different keys is both of its tests. -/
theorem dict_pair_of_ne {f g : String} (h : f ≠ g) (test test' : FieldTest) :
    (MongoQuery.dict [(f, test), (g, test')]).matches d
      = (test.matches (d.get f) && test'.matches (d.get g)) := by
  simp [pyDict_pair_of_ne h]

/-- A dictionary literal that repeats its key is the later of its tests. -/
theorem dict_pair_self (f : String) (test test' : FieldTest) :
    (MongoQuery.dict [(f, test), (f, test')]).matches d = test'.matches (d.get f) := by
  simp [pyDict_pair_self]

/-- The tests of a field whose values are of one type. -/
theorem eq_matches {k : Kind} {v : Value} (hv : v.OfKind k) (w : Value) :
    (FieldTest.eq w).matches v = true ↔ v = w := by
  simp [anyItem_of_ofKind hv]

theorem ne_matches {k : Kind} {v : Value} (hv : v.OfKind k) (w : Value) :
    (FieldTest.ne w).matches v = true ↔ v ≠ w := by
  simp [anyItem_of_ofKind hv]

theorem order_matches {k : Kind} {v w : Value} (op : OrderOp) (hv : v.OfKind k) (hw : w.OfKind k)
    (hnull : w ≠ .none) :
    (FieldTest.order op w).matches v = true ↔ v ≠ .none ∧ op.holds v w = true := by
  cases w with
  | none => exact absurd rfl hnull
  | scalar s => simpa [anyItem_of_ofKind hv] using orderMatches_ofKind op hv hw
  | list _ => cases hw

end Tests

end Resourcey
