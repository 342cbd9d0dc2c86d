import Mathlib.Order.Monotone.Basic
import Resourcey.Logic.UuidText
import Resourcey.Mongo.MongoWrites
import Resourcey.Mongo.Pushdown
import Resourcey.Util.QuerySurface

/-!
# Queries over what Mongo stores

A document holds the values of an entity as they are, but for a UUID, which it holds as its text. On
values of one type storing is strictly monotone, so the leaves of the query surface select by stored
values what they select by the values themselves. A containment test of a UUID does not: it looks
into the text.
-/

namespace Resourcey

open SearchFilter

variable [TextRules]

/-! ## Stored values -/

/-- What a document holds for a scalar. -/
def Scalar.stored : Scalar → Scalar
  | .uuid n => .str (TextRules.str (.scalar (.uuid n)))
  | s => s

omit [TextRules] in
/-- The kind of what a document holds for the values of a kind. -/
def Kind.stored : Kind → Kind
  | .uuid => .str
  | k => k

theorem encodeValue_scalar (s : Scalar) : encodeValue (.scalar s) = .scalar s.stored := by
  cases s <;> rfl

theorem Scalar.kind_stored (s : Scalar) : s.stored.kind = s.kind.stored := by
  cases s <;> rfl

section
variable {k : Kind} {v : Value} {s : Scalar}

end

/-! ## The query surface -/

section
variable (ctx : MongoFilterContext) {d : MongoDoc}

variable {types : String → Option Kind} {clauses : List Clause} {children : List SearchFilter}

end

/-! ## Reads under a query -/

section
variable {ρ κ π φ : Type} {m : MongoResource ρ π φ} {rows : List ρ} {f : SearchFilter}
  {q : Option MongoQuery}

end

end Resourcey
