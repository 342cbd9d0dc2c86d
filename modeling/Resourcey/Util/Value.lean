import Mathlib

/-!
# Attribute values

A column, a field of an entity and the operand of a filter hold a `Value`: nothing, a scalar, or a
list of scalars. Two comparisons live on values and they are kept apart. `pyEq` and
`OrderOp.compare` are Python's, which mixes booleans with integers and raises on a pair that has
no order. The linear order is the store's, total, with the null first. On two scalars of one kind
the two agree (`Scalar.pyEq_iff`, `OrderOp.compareScalar_eq`), and that is the only place where a
store and Python are ever asked the same question.
-/

namespace Resourcey

/-- A scalar value. An aware datetime is its instant in microseconds and a UUID its integer. -/
inductive Scalar where
  | bool (b : Bool)
  | int (i : Int)
  | str (s : String)
  | uuid (n : ℕ)
  | datetime (t : Int)
  deriving Repr

/-- The type of a scalar, which is what a column declares. -/
inductive Kind where
  | bool
  | int
  | str
  | uuid
  | datetime
  deriving DecidableEq, Repr

namespace Scalar

/-- The type of a scalar. -/
def kind : Scalar → Kind
  | .bool _ => .bool
  | .int _ => .int
  | .str _ => .str
  | .uuid _ => .uuid
  | .datetime _ => .datetime

/-- The name of the scalar's Python type. -/
def typeName : Scalar → String
  | .bool _ => "bool"
  | .int _ => "int"
  | .str _ => "str"
  | .uuid _ => "UUID"
  | .datetime _ => "datetime"

/-- The sort key of a scalar: kinds one after the other, each in its own order. -/
def key : Scalar → ℕ ×ₗ ℤ ×ₗ String
  | .bool b => toLex (0, toLex (b.toInt, ""))
  | .int i => toLex (1, toLex (i, ""))
  | .str s => toLex (2, toLex (0, s))
  | .uuid n => toLex (3, toLex (n, ""))
  | .datetime t => toLex (4, toLex (t, ""))

theorem key_injective : Function.Injective key := by
  intro a b h
  have hbool : ∀ b c : Bool, b.toInt = c.toInt → b = c := by decide
  cases a <;> cases b <;>
    simp only [key, EmbeddingLike.apply_eq_iff_eq, Prod.mk.injEq, reduceCtorEq] at h ⊢ <;> grind

/-- The store's order of scalars. -/
instance : LinearOrder Scalar := LinearOrder.lift' key key_injective

theorem strictMono_int : StrictMono Scalar.int := fun i j h => by
  show key (.int i) < key (.int j)
  simp [key, Prod.Lex.toLex_lt_toLex, h]

theorem strictMono_str : StrictMono Scalar.str := fun s t h => by
  show key (.str s) < key (.str t)
  simp [key, Prod.Lex.toLex_lt_toLex, h]

theorem strictMono_uuid : StrictMono Scalar.uuid := fun m n h => by
  show key (.uuid m) < key (.uuid n)
  simp [key, Prod.Lex.toLex_lt_toLex, h]

theorem strictMono_datetime : StrictMono Scalar.datetime := fun s t h => by
  show key (.datetime s) < key (.datetime t)
  simp [key, Prod.Lex.toLex_lt_toLex, h]

/-- The number a scalar is to Python's `==` and `<`: a boolean is an integer. -/
def number? : Scalar → Option Int
  | .bool b => some b.toInt
  | .int i => some i
  | _ => none

/-- Python's `a == b`. -/
def pyEq (a b : Scalar) : Bool :=
  match a.number?, b.number? with
  | some i, some j => i = j
  | none, none => a = b
  | _, _ => false

/-- On scalars of one kind Python's equality is identity. -/
theorem pyEq_iff {a b : Scalar} (h : a.kind = b.kind) : pyEq a b = true ↔ a = b := by
  cases a <;> cases b <;> simp [kind, pyEq, number?] at h ⊢
  case bool.bool a b => cases a <;> cases b <;> simp

theorem pyEq_self (a : Scalar) : pyEq a a = true := (pyEq_iff rfl).mpr rfl

end Scalar

/-- A value: null, a scalar, or a list of scalars (a JSON column). -/
inductive Value where
  | none
  | scalar (s : Scalar)
  | list (items : List Scalar)
  deriving Repr

namespace Value

/-- The name of the value's Python type. -/
def typeName : Value → String
  | .none => "NoneType"
  | .scalar s => s.typeName
  | .list _ => "list"

/-- The sort key of a value, null first. -/
def key : Value → ℕ ×ₗ List Scalar
  | .none => toLex (0, [])
  | .scalar s => toLex (1, [s])
  | .list items => toLex (2, items)

theorem key_injective : Function.Injective key := by
  intro a b h
  cases a <;> cases b <;> simp_all [key]

/-- The store's order of values: null before every other. -/
instance : LinearOrder Value := LinearOrder.lift' key key_injective

instance : Inhabited Value := ⟨.none⟩

/-- Python's `[a, …] == [b, …]`. -/
def pyEqItems : List Scalar → List Scalar → Bool
  | [], [] => true
  | a :: as, b :: bs => Scalar.pyEq a b && pyEqItems as bs
  | _, _ => false

/-- Python's `a == b`. -/
def pyEq : Value → Value → Bool
  | .none, .none => true
  | .scalar a, .scalar b => Scalar.pyEq a b
  | .list as, .list bs => pyEqItems as bs
  | _, _ => false

/-- `v` is null or a scalar of the given kind: a value a column of that type may hold. -/
def OfKind (k : Kind) : Value → Prop
  | .none => True
  | .scalar s => s.kind = k
  | .list _ => False

instance (k : Kind) (v : Value) : Decidable (v.OfKind k) := by
  cases v <;> unfold OfKind <;> infer_instance

/-- On values a column of one type may hold, Python's equality is identity, the null included. -/
theorem pyEq_iff {k : Kind} {v w : Value} (hv : v.OfKind k) (hw : w.OfKind k) :
    v.pyEq w = true ↔ v = w := by
  cases v <;> cases w <;> simp_all [OfKind, pyEq]
  case scalar.scalar a b => exact Scalar.pyEq_iff (hv.trans hw.symm)

/-- Null is before every other value. -/
theorem none_lt_iff {v : Value} : Value.none < v ↔ v ≠ .none := by
  cases v with
  | none => simp
  | scalar s =>
      have : key .none < key (.scalar s) := by simp [key, Prod.Lex.toLex_lt_toLex]
      exact ⟨fun _ => by simp, fun _ => this⟩
  | list items =>
      have : key .none < key (.list items) := by simp [key, Prod.Lex.toLex_lt_toLex]
      exact ⟨fun _ => by simp, fun _ => this⟩

/-- No value is before null. -/
theorem not_lt_none (v : Value) : ¬ v < .none := by
  by_cases h : v = .none
  · exact h ▸ lt_irrefl _
  · exact (none_lt_iff.mpr h).not_gt

theorem strictMono_scalar : StrictMono Value.scalar := fun s t h => by
  show key (.scalar s) < key (.scalar t)
  simpa [key, Prod.Lex.toLex_lt_toLex] using List.Lex.rel h

end Value

/-- The four ordering comparisons. -/
inductive OrderOp where
  | gt
  | ge
  | lt
  | le
  deriving DecidableEq, Repr

/-- Python's `TypeError` of an ordering comparison: `'<op>' not supported between instances of
'<left>' and '<right>'`, with the names of the two types. -/
structure TypeError where
  op : OrderOp
  left : String
  right : String
  deriving DecidableEq, Repr

namespace OrderOp

/-- The comparison in a linear order. -/
def holds {α : Type*} [LinearOrder α] (op : OrderOp) (a b : α) : Bool :=
  match op with
  | .gt => b < a
  | .ge => b ≤ a
  | .lt => a < b
  | .le => a ≤ b

/-- The comparison that holds exactly where this one fails. -/
def complement : OrderOp → OrderOp
  | .gt => .le
  | .ge => .lt
  | .lt => .ge
  | .le => .gt

theorem holds_complement {α : Type*} [LinearOrder α] (op : OrderOp) (a b : α) :
    op.complement.holds a b = !op.holds a b := by
  cases op <;> simp [holds, complement, ← decide_not]

/-- A strictly monotone map keeps the comparison. -/
theorem holds_map {α β : Type*} [LinearOrder α] [LinearOrder β] {f : α → β} (hf : StrictMono f)
    (op : OrderOp) (a b : α) : op.holds (f a) (f b) = op.holds a b := by
  cases op <;> simp [holds, hf.lt_iff_lt, hf.le_iff_le]

/-- Python's `a <op> b` on scalars. -/
def compareScalar (op : OrderOp) : Scalar → Scalar → Except TypeError Bool
  | .str a, .str b => .ok (op.holds a b)
  | .uuid a, .uuid b => .ok (op.holds a b)
  | .datetime a, .datetime b => .ok (op.holds a b)
  | a, b =>
    match a.number?, b.number? with
    | some i, some j => .ok (op.holds i j)
    | _, _ => .error ⟨op, a.typeName, b.typeName⟩

/-- Python's `[a, …] <op> [b, …]`: the first pair of unequal items decides, then the lengths. -/
def compareItems (op : OrderOp) : List Scalar → List Scalar → Except TypeError Bool
  | a :: as, b :: bs => if Scalar.pyEq a b then compareItems op as bs else compareScalar op a b
  | as, bs => .ok (op.holds as.length bs.length)

/-- Python's `a <op> b`. -/
def compare (op : OrderOp) : Value → Value → Except TypeError Bool
  | .scalar a, .scalar b => compareScalar op a b
  | .list as, .list bs => compareItems op as bs
  | a, b => .error ⟨op, a.typeName, b.typeName⟩

/-- On scalars of one kind Python's comparison is the store's. -/
theorem compareScalar_eq {a b : Scalar} (op : OrderOp) (h : a.kind = b.kind) :
    compareScalar op a b = .ok (op.holds a b) := by
  cases a <;> cases b <;> simp only [Scalar.kind, reduceCtorEq] at h
  case bool a b => cases op <;> cases a <;> cases b <;> rfl
  case int a b => exact congrArg Except.ok (holds_map Scalar.strictMono_int op a b).symm
  case str a b => exact congrArg Except.ok (holds_map Scalar.strictMono_str op a b).symm
  case uuid a b => exact congrArg Except.ok (holds_map Scalar.strictMono_uuid op a b).symm
  case datetime a b =>
    exact congrArg Except.ok (holds_map Scalar.strictMono_datetime op a b).symm

/-- On values a column of one type may hold, neither of them null, Python's comparison is the
store's. -/
theorem compare_eq {k : Kind} {v w : Value} (op : OrderOp) (hv : v.OfKind k) (hw : w.OfKind k)
    (hvn : v ≠ .none) (hwn : w ≠ .none) : op.compare v w = .ok (op.holds v w) := by
  cases v with
  | none => exact absurd rfl hvn
  | list _ => cases hv
  | scalar a =>
      cases w with
      | none => exact absurd rfl hwn
      | list _ => cases hw
      | scalar b =>
          have h : a.kind = b.kind := hv.trans hw.symm
          rw [compare, compareScalar_eq op h, holds_map Value.strictMono_scalar]

/-- On a value a column of the scalar's type may hold, Python's comparison with the scalar is the
store's, except that it has no answer for null. -/
theorem compare_ofKind {k : Kind} {op : OrderOp} {v : Value} {s : Scalar} (hv : v.OfKind k)
    (hs : s.kind = k) : (op.compare v (.scalar s)).toOption.getD false
      = (decide (v ≠ .none) && op.holds v (.scalar s)) := by
  cases v with
  | none => simp [compare, Except.toOption]
  | scalar t =>
      have h : t.kind = s.kind := hv.trans hs.symm
      simp [compare, compareScalar_eq op h, Except.toOption, holds_map Value.strictMono_scalar]
  | list _ => cases hv

end OrderOp

end Resourcey
