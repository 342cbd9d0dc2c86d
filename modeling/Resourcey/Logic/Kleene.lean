import Mathlib.Data.List.Basic

/-!
# Three-valued truth

The strong Kleene connectives on `Truth`, over lists of any length. A predicate that keeps
exactly the rows whose condition is `true` reads a list connective through one of two
observations, `true` and `false`, so each connective has one characterisation for each; the
third value is whatever neither of them says.
-/

namespace Kleene

/-- A truth value of three-valued logic. -/
inductive Truth where
  | true
  | false
  | unknown
  deriving DecidableEq, Repr

namespace Truth

/-- The two-valued truth `b`. -/
def ofBool (b : Bool) : Truth := if b then .true else .false

/-- Negation leaves `unknown` where it is. -/
def not : Truth → Truth
  | .true => .false
  | .false => .true
  | .unknown => .unknown

/-- The conjunction of two truth values. -/
def and : Truth → Truth → Truth
  | .false, _ | _, .false => .false
  | .true, .true => .true
  | _, _ => .unknown

/-- The disjunction of two truth values. -/
def or : Truth → Truth → Truth
  | .true, _ | _, .true => .true
  | .false, .false => .false
  | _, _ => .unknown

/-- The conjunction of a list, `true` when it is empty. -/
def all (ts : List Truth) : Truth := ts.foldr and .true

/-- The disjunction of a list, `false` when it is empty. -/
def any (ts : List Truth) : Truth := ts.foldr or .false

@[simp] theorem ofBool_eq_true (b : Bool) : ofBool b = .true ↔ b = Bool.true := by
  cases b <;> decide

@[simp] theorem ofBool_eq_false (b : Bool) : ofBool b = .false ↔ b = Bool.false := by
  cases b <;> decide

@[simp] theorem not_eq_true (t : Truth) : t.not = .true ↔ t = .false := by
  cases t <;> decide

@[simp] theorem not_eq_false (t : Truth) : t.not = .false ↔ t = .true := by
  cases t <;> decide

@[simp] theorem and_eq_true (s t : Truth) : s.and t = .true ↔ s = .true ∧ t = .true := by
  cases s <;> cases t <;> decide

@[simp] theorem and_eq_false (s t : Truth) : s.and t = .false ↔ s = .false ∨ t = .false := by
  cases s <;> cases t <;> decide

@[simp] theorem or_eq_true (s t : Truth) : s.or t = .true ↔ s = .true ∨ t = .true := by
  cases s <;> cases t <;> decide

@[simp] theorem or_eq_false (s t : Truth) : s.or t = .false ↔ s = .false ∧ t = .false := by
  cases s <;> cases t <;> decide

/-- A conjunction is true when every conjunct is. -/
@[simp] theorem all_eq_true (ts : List Truth) : all ts = .true ↔ ∀ t ∈ ts, t = .true := by
  induction ts with
  | nil => simp [all]
  | cons t ts ih => simp only [all, List.foldr_cons] at ih ⊢; simp [ih]

/-- A conjunction is false when some conjunct is. -/
@[simp] theorem all_eq_false (ts : List Truth) : all ts = .false ↔ .false ∈ ts := by
  induction ts with
  | nil => simp [all]
  | cons t ts ih =>
      simp only [all, List.foldr_cons, and_eq_false, List.mem_cons] at ih ⊢
      rw [ih, eq_comm]

/-- A disjunction is true when some disjunct is. -/
@[simp] theorem any_eq_true (ts : List Truth) : any ts = .true ↔ .true ∈ ts := by
  induction ts with
  | nil => simp [any]
  | cons t ts ih =>
      simp only [any, List.foldr_cons, or_eq_true, List.mem_cons] at ih ⊢
      rw [ih, eq_comm]

/-- A disjunction is false when every disjunct is. -/
@[simp] theorem any_eq_false (ts : List Truth) : any ts = .false ↔ ∀ t ∈ ts, t = .false := by
  induction ts with
  | nil => simp [any]
  | cons t ts ih => simp only [any, List.foldr_cons] at ih ⊢; simp [ih]

end Truth

end Kleene
