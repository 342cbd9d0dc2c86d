import Mathlib.Data.Prod.Basic
import Mathlib.Order.Compare
import Resourcey.Util.Value

/-!
# The order of a listing

Every backend lists its entities by one sort value in one of two directions and then by the
identifier, ascending. `sortsBefore` is that order on positions: a sort value, null being before
all others, and an identifier. A backend's own comparison sorts by it when it compares the sort
values in the direction and then the identifiers (`cmp_then_ne_gt`).
-/

namespace Resourcey

/-- The order of sort values in a direction. -/
def sortValueBefore (descending : Bool) (v w : Value) : Prop := if descending then w < v else v < w

instance (d : Bool) : IsStrictOrder Value (sortValueBefore d) where
  irrefl v := by cases d <;> simp [sortValueBefore]
  trans u v w := by
    cases d
    · exact lt_trans
    · exact fun h h' => lt_trans h' h

instance (d : Bool) (v w : Value) : Decidable (sortValueBefore d v w) := by
  unfold sortValueBefore
  infer_instance

/-- The order of a listing: sort value in the direction, then identifier, always ascending. -/
def sortsBefore (descending : Bool) : Value × Value → Value × Value → Prop :=
  Prod.Lex (sortValueBefore descending) (· < ·)

instance (d : Bool) : IsStrictOrder (Value × Value) (sortsBefore d) where
  irrefl := Std.Irrefl.irrefl (r := Prod.Lex (sortValueBefore d) (· < ·))
  trans := IsTrans.trans (r := Prod.Lex (sortValueBefore d) (· < ·))

theorem sortsBefore_iff {d : Bool} {p q : Value × Value} :
    sortsBefore d p q ↔ sortValueBefore d p.1 q.1 ∨ p.1 = q.1 ∧ p.2 < q.2 :=
  Prod.lex_def

instance (d : Bool) (p q : Value × Value) : Decidable (sortsBefore d p q) :=
  decidable_of_iff _ sortsBefore_iff.symm

/-- Two positions are equal, or one sorts before the other. -/
theorem sortsBefore_trichotomy (d : Bool) (p q : Value × Value) :
    sortsBefore d p q ∨ p = q ∨ sortsBefore d q p := by
  simp only [sortsBefore_iff, Prod.ext_iff]
  rcases lt_trichotomy p.1 q.1 with h | h | h
  · cases d <;> simp [sortValueBefore, h]
  · rcases lt_trichotomy p.2 q.2 with h' | h' | h' <;> simp [h, h']
  · cases d <;> simp [sortValueBefore, h]

/-- The position of an entity: the value of its sort field, and its identifier. -/
def positionOf (sortField idField : String) (entity : String → Value) : Value × Value :=
  (entity sortField, entity idField)

/-- Comparing the identifiers alone sorts by the position the identifier has as its own sort
value. -/
theorem cmp_ne_gt (v w : Value) :
    cmp v w ≠ .gt ↔ sortsBefore false (v, v) (w, w) ∨ (v, v) = (w, w) := by
  rw [Ne, cmp_eq_gt_iff, not_lt, le_iff_lt_or_eq, sortsBefore_iff]
  simp only [sortValueBefore, Bool.false_eq_true, if_false, Prod.mk.injEq, and_self]
  constructor
  · rintro (h | h)
    · exact .inl (.inl h)
    · exact .inr h
  · rintro ((h | ⟨h, -⟩) | h)
    · exact .inl h
    · exact .inr h
    · exact .inr h

/-- Comparing the sort values in the direction and then the identifiers sorts by position. -/
theorem cmp_then_ne_gt (d : Bool) (p q : Value × Value) :
    ((if d then cmp q.1 p.1 else cmp p.1 q.1).then (cmp p.2 q.2)) ≠ .gt ↔
      sortsBefore d p q ∨ p = q := by
  simp only [sortsBefore_iff, sortValueBefore, Prod.ext_iff]
  -- Equal sort values leave the decision to the identifier.
  rcases lt_trichotomy p.1 q.1 with h | h | h
  · cases d
    · rw [if_neg Bool.false_ne_true, (cmp_eq_lt_iff _ _).mpr h]
      simp [h]
    · rw [if_pos rfl, (cmp_eq_gt_iff _ _).mpr h]
      simp [h.not_gt, h.ne]
  · have : cmp p.2 q.2 ≠ .gt ↔ p.2 < q.2 ∨ p.2 = q.2 := by
      rw [Ne, cmp_eq_gt_iff, not_lt, le_iff_lt_or_eq]
    cases d <;> simpa [h] using this
  · cases d
    · rw [if_neg Bool.false_ne_true, (cmp_eq_gt_iff _ _).mpr h]
      simp [h.not_gt, h.ne']
    · rw [if_pos rfl, (cmp_eq_lt_iff _ _).mpr h]
      simp [h]

end Resourcey
