import Resourcey.Util.Value
import Mathlib.Data.List.Infix

/-!
# Search filters

A `SearchFilter` is a predicate over an entity. Its only behaviour is `matches`, which runs as
Python runs it: a conjunction stops at the first false child, a disjunction at the first true one,
and an ordering of two values that have no order raises. `holds` is the truth value the tree
stands for when an ordering that has no answer counts as false, and `holds_of_matches` says that
`matches` never answers anything else.

The factories `and_`, `or_`, `not_` and `attr` build the simplest equivalent node. `holds_and_`
and its siblings say that they keep the truth value, and `matches_and_of_false` and
`matches_or_of_false` are the two facts about `matches` itself on which the scoping of reads and
writes rests: a false first conjunct is never overruled, and false disjuncts stay false.
-/

namespace Resourcey

/-- What the language and the store do with text, and agree on. `lower` is lowercasing, one
character at a time, as `str.lower` and `ILIKE` both do it; the three pattern characters of `LIKE`
have no case, so they lower to themselves and nothing else lowers to text that has one. `str` is
the text of a value, which is itself for a string. -/
class TextRules where
  lower : Char → List Char
  str : Value → String
  lower_wildcard : ∀ c, c = '%' ∨ c = '_' ∨ c = '\\' → lower c = [c]
  wildcard_of_mem_lower : ∀ c d, d ∈ lower c → d = '%' ∨ d = '_' ∨ d = '\\' → c = d
  str_str : ∀ s, str (.scalar (.str s)) = s

/-- An ASCII letter lowers to a letter, and no pattern character is one. -/
theorem toLower_wildcard (c : Char)
    (h : c.toLower = '%' ∨ c.toLower = '_' ∨ c.toLower = '\\') : c = c.toLower := by
  by_cases hc : c.val ≥ 'A'.val ∧ c.val ≤ 'Z'.val
  · have h1 : 65 ≤ c.val.toNat := hc.1
    have h2 : c.val.toNat ≤ 90 := hc.2
    have h3 : 97 ≤ c.toLower.val.toNat := by
      unfold Char.toLower
      rw [dif_pos hc, UInt32.toNat_add, show ('a'.val - 'A'.val).toNat = 32 from rfl]
      omega
    rcases h with h | h | h
    all_goals
      rw [h] at h3
      exact absurd h3 (by decide)
  · unfold Char.toLower
    rw [dif_neg hc]

/-- ASCII text: only `A` to `Z` have a lower case. `str` is given for the values of a pattern. -/
@[reducible] def TextRules.ascii : TextRules where
  lower c := [c.toLower]
  str
    | .scalar (.str s) => s
    | .scalar (.int i) => toString i
    | .scalar (.bool b) => if b then "True" else "False"
    | v => v.typeName
  lower_wildcard c hc := by rcases hc with rfl | rfl | rfl <;> rfl
  wildcard_of_mem_lower c d hd hw := by
    rw [List.mem_singleton] at hd
    subst hd
    exact toLower_wildcard c hw
  str_str s := rfl

/-- `s.lower()`. -/
def lower [TextRules] (s : String) : List Char := s.toList.flatMap TextRules.lower

/-- What a filter is asked about: an object with attributes, or the value of one attribute. An
absent attribute reads as `None`. -/
inductive Subject where
  | object (fields : String → Value)
  | value (v : Value)

namespace Subject

/-- `AttrFilter._get`: the attribute of an object, by key or by `getattr`, `None` when absent. -/
def get : Subject → String → Value
  | .object fields, name => fields name
  | .value _, _ => .none

/-- `value == other`. An object is equal to no value. -/
def pyEq : Subject → Value → Bool
  | .object _, _ => false
  | .value v, other => v.pyEq other

/-- `value <op> other`. An object has no order. -/
def compare (op : OrderOp) : Subject → Value → Except TypeError Bool
  | .object _, other => .error ⟨op, "object", other.typeName⟩
  | .value v, other => op.compare v other

end Subject

/-- `_mem_contains`: in-memory `needle in stored`, case-insensitive on two strings. A stored value
that is no container answers `False`. -/
def memContains [TextRules] : Subject → Value → Bool
  | .value (.scalar (.str s)), .scalar (.str needle) => decide (lower needle <:+: lower s)
  | .value (.list items), .scalar needle => items.any fun item => item.pyEq needle
  | _, _ => false

/-- A search filter. The four ordering leaves are one node with the operator; `object` carries the
tree it lowers to, which the source caches when the filter is built; `custom` is an application's
own node, which has a `matches` and no standard form. -/
inductive SearchFilter where
  | all
  | noMatch
  | and (filters : List SearchFilter)
  | or (filters : List SearchFilter)
  | not (filter : SearchFilter)
  | attr (name : String) (filter : SearchFilter)
  | eq (value : Value)
  | order (op : OrderOp) (value : Value)
  | contains (value : Value)
  | isIn (values : List Value)
  | object (fields : List (String × Value)) (standard : SearchFilter)
  | custom (kind : String) (test : Subject → Bool)

namespace SearchFilter

/-- `GtFilter`. -/
abbrev gt (value : Value) : SearchFilter := .order .gt value

/-- `GeFilter`. -/
abbrev ge (value : Value) : SearchFilter := .order .ge value

/-- `LtFilter`. -/
abbrev lt (value : Value) : SearchFilter := .order .lt value

/-- `LeFilter`. -/
abbrev le (value : Value) : SearchFilter := .order .le value

/-- The class name of an ordering leaf. -/
def kindOfOrder : OrderOp → String
  | .gt => "GtFilter"
  | .ge => "GeFilter"
  | .lt => "LtFilter"
  | .le => "LeFilter"

/-- Induction over a filter tree, with the hypothesis for every child of a node. -/
@[elab_as_elim] theorem induction {motive : SearchFilter → Prop}
    (all : motive .all) (noMatch : motive .noMatch)
    (and : ∀ fs, (∀ f ∈ fs, motive f) → motive (.and fs))
    (or : ∀ fs, (∀ f ∈ fs, motive f) → motive (.or fs))
    (not : ∀ f, motive f → motive (.not f))
    (attr : ∀ a f, motive f → motive (.attr a f))
    (eq : ∀ v, motive (.eq v)) (order : ∀ op v, motive (.order op v))
    (contains : ∀ v, motive (.contains v)) (isIn : ∀ vs, motive (.isIn vs))
    (object : ∀ fields f, motive f → motive (.object fields f))
    (custom : ∀ k t, motive (.custom k t)) (f : SearchFilter) : motive f :=
  @SearchFilter.rec motive (fun fs => ∀ f ∈ fs, motive f)
    all noMatch and or not attr eq order contains isIn object custom
    (by simp) (fun f fs hf hfs g hg => by
      rcases List.mem_cons.mp hg with rfl | hg
      · exact hf
      · exact hfs g hg) f

section Matches

variable [TextRules]

mutual

/-- `SearchFilter.matches`. -/
def «matches» : SearchFilter → Subject → Except TypeError Bool
  | .all, _ => .ok true
  | .noMatch, _ => .ok false
  | .and filters, x => matchesAll filters x
  | .or filters, x => matchesAny filters x
  | .not filter, x => return !(← filter.matches x)
  | .attr name filter, x => filter.matches (.value (x.get name))
  | .eq v, x => .ok (x.pyEq v)
  | .order op v, x => x.compare op v
  | .contains v, x => .ok (memContains x v)
  | .isIn values, x => .ok (values.any fun v => x.pyEq v)
  | .object _ standard, x => standard.matches x
  | .custom _ test, x => .ok (test x)

/-- `all(child.matches(value) for child in filters)`. -/
def matchesAll : List SearchFilter → Subject → Except TypeError Bool
  | [], _ => .ok true
  | f :: fs, x => do if ← f.matches x then matchesAll fs x else return false

/-- `any(child.matches(value) for child in filters)`. -/
def matchesAny : List SearchFilter → Subject → Except TypeError Bool
  | [], _ => .ok false
  | f :: fs, x => do if ← f.matches x then return true else matchesAny fs x

end

mutual

/-- The truth value of the tree, an ordering without an answer being false. -/
def holds : SearchFilter → Subject → Bool
  | .all, _ => true
  | .noMatch, _ => false
  | .and filters, x => holdsAll filters x
  | .or filters, x => holdsAny filters x
  | .not filter, x => !filter.holds x
  | .attr name filter, x => filter.holds (.value (x.get name))
  | .eq v, x => x.pyEq v
  | .order op v, x => (x.compare op v).toOption.getD false
  | .contains v, x => memContains x v
  | .isIn values, x => values.any fun v => x.pyEq v
  | .object _ standard, x => standard.holds x
  | .custom _ test, x => test x

/-- Whether every tree of a list holds. -/
def holdsAll : List SearchFilter → Subject → Bool
  | [], _ => true
  | f :: fs, x => f.holds x && holdsAll fs x

/-- Whether some tree of a list holds. -/
def holdsAny : List SearchFilter → Subject → Bool
  | [], _ => false
  | f :: fs, x => f.holds x || holdsAny fs x

end

theorem holdsAll_eq (fs : List SearchFilter) (x : Subject) :
    holdsAll fs x = fs.all fun f => f.holds x := by
  induction fs with
  | nil => rfl
  | cons f fs ih => exact congrArg (f.holds x && ·) ih

theorem holdsAny_eq (fs : List SearchFilter) (x : Subject) :
    holdsAny fs x = fs.any fun f => f.holds x := by
  induction fs with
  | nil => rfl
  | cons f fs ih => exact congrArg (f.holds x || ·) ih

@[simp] theorem holds_all (x : Subject) : holds .all x = true := rfl

@[simp] theorem holds_noMatch (x : Subject) : holds .noMatch x = false := rfl

@[simp] theorem holds_and (fs : List SearchFilter) (x : Subject) :
    holds (.and fs) x = fs.all fun f => f.holds x := holdsAll_eq fs x

@[simp] theorem holds_or (fs : List SearchFilter) (x : Subject) :
    holds (.or fs) x = fs.any fun f => f.holds x := holdsAny_eq fs x

@[simp] theorem holds_not (f : SearchFilter) (x : Subject) :
    holds (.not f) x = !f.holds x := rfl

@[simp] theorem holds_attr (a : String) (f : SearchFilter) (x : Subject) :
    holds (.attr a f) x = f.holds (.value (x.get a)) := rfl

@[simp] theorem holds_object (fields : List (String × Value)) (f : SearchFilter) (x : Subject) :
    holds (.object fields f) x = f.holds x := rfl

/-- What `matches` answers is the truth value of the tree: it differs only in that it may raise. -/
theorem holds_of_matches (f : SearchFilter) (x : Subject) (b : Bool)
    (h : f.matches x = .ok b) : f.holds x = b := by
  induction f using SearchFilter.induction generalizing x b with
  | all | noMatch | eq | contains | isIn | custom => simpa [«matches», holds] using h
  | and fs ih =>
      simp only [«matches»] at h
      rw [holds_and]
      induction fs generalizing b with
      | nil => simpa [matchesAll] using h
      | cons f fs ihl =>
          simp only [List.mem_cons, forall_eq_or_imp] at ih
          cases hf : f.matches x with
          | error e => simp [matchesAll, hf, bind, Except.bind] at h
          | ok c =>
              rw [List.all_cons, ih.1 x c hf]
              cases c with
              | true => simpa using ihl ih.2 b (by simpa [matchesAll, hf, bind, Except.bind] using h)
              | false => simpa [matchesAll, hf, bind, Except.bind, pure, Except.pure] using h
  | or fs ih =>
      simp only [«matches»] at h
      rw [holds_or]
      induction fs generalizing b with
      | nil => simpa [matchesAny] using h
      | cons f fs ihl =>
          simp only [List.mem_cons, forall_eq_or_imp] at ih
          cases hf : f.matches x with
          | error e => simp [matchesAny, hf, bind, Except.bind] at h
          | ok c =>
              rw [List.any_cons, ih.1 x c hf]
              cases c with
              | true => simpa [matchesAny, hf, bind, Except.bind, pure, Except.pure] using h
              | false => simpa using ihl ih.2 b (by simpa [matchesAny, hf, bind, Except.bind] using h)
  | not f ih =>
      cases hf : f.matches x with
      | error e => simp [«matches», hf, bind, Except.bind] at h
      | ok c =>
          rw [holds_not, ih x c hf]
          simpa [«matches», hf, bind, Except.bind, pure, Except.pure] using h
  | attr a f ih => exact holds_attr a f x ▸ ih _ b (by simpa [«matches»] using h)
  | order op v =>
      simp only [«matches»] at h
      simp [holds, h, Except.toOption]
  | object fields f ih => exact holds_object fields f x ▸ ih x b (by simpa [«matches»] using h)

end Matches

/-! ## The factories -/

/-- The two composite node types. -/
inductive Composite where
  | and
  | or
  deriving DecidableEq

mutual

/-- One child's contribution to `_flatten`: its own children when it is of the node type. -/
def flattenChild (nodeType : Composite) : SearchFilter → List SearchFilter
  | .and filters => if nodeType = .and then flatten nodeType filters else [.and filters]
  | .or filters => if nodeType = .or then flatten nodeType filters else [.or filters]
  | f => [f]

/-- `_flatten`: nested composites of one node type, flattened recursively. -/
def flatten (nodeType : Composite) : List SearchFilter → List SearchFilter
  | [] => []
  | f :: fs => flattenChild nodeType f ++ flatten nodeType fs

end

/-- The loop of `and_`: the children without `All`, or nothing when one of them is `NoMatch`. -/
def conjuncts : List SearchFilter → Option (List SearchFilter)
  | [] => some []
  | .noMatch :: _ => none
  | .all :: fs => conjuncts fs
  | f :: fs => (conjuncts fs).map (f :: ·)

/-- The loop of `or_`: the children without `NoMatch`, or nothing when one of them is `All`. -/
def disjuncts : List SearchFilter → Option (List SearchFilter)
  | [] => some []
  | .all :: _ => none
  | .noMatch :: fs => disjuncts fs
  | f :: fs => (disjuncts fs).map (f :: ·)

/-- `and_`: the normalised conjunction. -/
def and_ (filters : List SearchFilter) : SearchFilter :=
  match conjuncts (flatten .and filters) with
  | none => .noMatch
  | some [] => .all
  | some [f] => f
  | some fs => .and fs

/-- `or_`: the normalised disjunction. -/
def or_ (filters : List SearchFilter) : SearchFilter :=
  match disjuncts (flatten .or filters) with
  | none => .all
  | some [] => .noMatch
  | some [f] => f
  | some fs => .or fs

/-- `not_`: the normalised inversion. -/
def not_ : SearchFilter → SearchFilter
  | .not f => f
  | .all => .noMatch
  | .noMatch => .all
  | f => .not f

/-- `attr`: the normalised attribute binding, which a constant does not need. -/
def attr_ (name : String) : SearchFilter → SearchFilter
  | .all => .all
  | .noMatch => .noMatch
  | f => .attr name f

/-- The flattened children come from the arguments. -/
theorem mem_flatten {t : Composite} {fs : List SearchFilter} {g : SearchFilter} :
    g ∈ flatten t fs ↔ ∃ f ∈ fs, g ∈ flattenChild t f := by
  induction fs with
  | nil => simp [flatten]
  | cons f fs ih => simp [flatten, ih]

/-- A property of the arguments that a conjunction passes to its children holds of every
flattened child. -/
theorem forall_mem_flatten_and {P : SearchFilter → Prop}
    (hP : ∀ fs, P (.and fs) → ∀ f ∈ fs, P f) {fs : List SearchFilter} (h : ∀ f ∈ fs, P f) :
    ∀ g ∈ flatten .and fs, P g := by
  have child : ∀ f, P f → ∀ g ∈ flattenChild .and f, P g := by
    intro f
    induction f using SearchFilter.induction with
    | and fs ih =>
        intro hf g hg
        rw [flattenChild, if_pos rfl] at hg
        obtain ⟨f, hfs, hg⟩ := mem_flatten.mp hg
        exact ih f hfs (hP fs hf f hfs) g hg
    | _ =>
        intro hf g hg
        simp only [flattenChild, reduceCtorEq, if_false, List.mem_singleton] at hg
        exact hg ▸ hf
  intro g hg
  obtain ⟨f, hfs, hg⟩ := mem_flatten.mp hg
  exact child f (h f hfs) g hg

/-- A property that a conjunction has when its flattened children do, the arguments have. -/
theorem forall_of_forall_mem_flatten_and {P : SearchFilter → Prop}
    (hP : ∀ fs, (∀ f ∈ fs, P f) → P (.and fs)) {fs : List SearchFilter}
    (h : ∀ g ∈ flatten .and fs, P g) : ∀ f ∈ fs, P f := by
  have child : ∀ f, (∀ g ∈ flattenChild .and f, P g) → P f := by
    intro f
    induction f using SearchFilter.induction with
    | and fs ih =>
        intro h
        rw [flattenChild, if_pos rfl] at h
        exact hP fs fun f hf => ih f hf fun g hg => h g (mem_flatten.mpr ⟨f, hf, hg⟩)
    | _ =>
        intro h
        exact h _ (by simp [flattenChild])
  exact fun f hf => child f fun g hg => h g (mem_flatten.mpr ⟨f, hf, hg⟩)

/-- What survives the loop of `and_` is among the flattened children. -/
theorem mem_of_conjuncts {fs gs : List SearchFilter} (h : conjuncts fs = some gs) :
    ∀ g ∈ gs, g ∈ fs := by
  induction fs generalizing gs with
  | nil =>
      cases h
      simp
  | cons f fs ih =>
      intro g hg
      cases f with
      | all => exact List.mem_cons_of_mem _ (ih h g hg)
      | noMatch => cases h
      | _ =>
          obtain ⟨gs, hgs, rfl⟩ := Option.map_eq_some_iff.mp h
          rcases List.mem_cons.mp hg with rfl | hg
          · exact List.mem_cons_self
          · exact List.mem_cons_of_mem _ (ih hgs g hg)

/-- What the loop of `and_` drops is `All`. -/
theorem mem_or_all_of_conjuncts {fs gs : List SearchFilter} (h : conjuncts fs = some gs) :
    ∀ f ∈ fs, f ∈ gs ∨ f = .all := by
  induction fs generalizing gs with
  | nil => simp
  | cons f fs ih =>
      intro g hg
      rcases List.mem_cons.mp hg with rfl | hg'
      · cases g with
        | all => exact .inr rfl
        | noMatch => cases h
        | _ =>
            obtain ⟨gs, -, rfl⟩ := Option.map_eq_some_iff.mp h
            exact .inl List.mem_cons_self
      · cases f with
        | all => exact ih h g hg'
        | noMatch => cases h
        | _ =>
            obtain ⟨gs, hgs, rfl⟩ := Option.map_eq_some_iff.mp h
            exact (ih hgs g hg').imp_left (List.mem_cons_of_mem _)

/-- **Induction over `and_`.** A property of the arguments that conjunctions pass on and that the
constants have is one of what `and_` builds. -/
theorem and_induction {P : SearchFilter → Prop} (all : P .all) (noMatch : P .noMatch)
    (and : ∀ fs, P (.and fs) ↔ ∀ f ∈ fs, P f) {fs : List SearchFilter} (h : ∀ f ∈ fs, P f) :
    P (and_ fs) := by
  have hflat := forall_mem_flatten_and (fun fs => (and fs).mp) h
  rw [and_]
  split
  · exact noMatch
  · exact all
  · rename_i f hc
    exact hflat f (mem_of_conjuncts hc f List.mem_cons_self)
  · rename_i gs _ _ hc
    exact (and gs).mpr fun g hg => hflat g (mem_of_conjuncts hc g hg)

/-- A property that conjunctions and `All` have passes from what `and_` builds to its arguments,
unless one of them annihilates the others. -/
theorem eq_noMatch_or_forall_of_and_ {P : SearchFilter → Prop} (all : P .all)
    (and : ∀ fs, P (.and fs) ↔ ∀ f ∈ fs, P f) {fs : List SearchFilter} (h : P (and_ fs)) :
    and_ fs = .noMatch ∨ ∀ f ∈ fs, P f := by
  rw [and_] at h ⊢
  split at h
  · exact .inl rfl
  all_goals refine .inr (forall_of_forall_mem_flatten_and (fun fs => (and fs).mpr) fun g hg => ?_)
  · rename_i hc
    rcases mem_or_all_of_conjuncts hc g hg with hg' | rfl
    · cases hg'
    · exact all
  · rename_i hc
    rcases mem_or_all_of_conjuncts hc g hg with hg' | rfl
    · exact List.mem_singleton.mp hg' ▸ h
    · exact all
  · rename_i hc
    rcases mem_or_all_of_conjuncts hc g hg with hg' | rfl
    · exact (and _).mp h g hg'
    · exact all

/-- A property that conjunctions and `All` have, and `NoMatch` lacks, passes from what `and_`
builds to its arguments. -/
theorem forall_of_and_ {P : SearchFilter → Prop} (all : P .all) (noMatch : ¬ P .noMatch)
    (and : ∀ fs, P (.and fs) ↔ ∀ f ∈ fs, P f) {fs : List SearchFilter} (h : P (and_ fs)) :
    ∀ f ∈ fs, P f := by
  rcases eq_noMatch_or_forall_of_and_ all and h with hnone | hall
  · exact absurd (hnone ▸ h) noMatch
  · exact hall

/-- A `NoMatch` child is what stops the loop of `and_`. -/
theorem noMatch_mem_of_conjuncts {fs : List SearchFilter} (h : conjuncts fs = none) :
    .noMatch ∈ fs := by
  induction fs with
  | nil => cases h
  | cons f fs ih =>
      cases f with
      | noMatch => exact List.mem_cons_self
      | all => exact List.mem_cons_of_mem _ (ih h)
      | _ => exact List.mem_cons_of_mem _ (ih (Option.map_eq_none_iff.mp h))

/-- **A property that conjunctions and `All` have, and `NoMatch` lacks, is one of what `and_` builds
when it is one of the arguments.** -/
theorem and_iff_forall {P : SearchFilter → Prop} (all : P .all) (noMatch : ¬ P .noMatch)
    (and : ∀ fs, P (.and fs) ↔ ∀ f ∈ fs, P f) {fs : List SearchFilter} :
    P (and_ fs) ↔ ∀ f ∈ fs, P f := by
  refine ⟨forall_of_and_ all noMatch and, fun h => ?_⟩
  have hflat := forall_mem_flatten_and (fun fs => (and fs).mp) h
  rw [and_]
  split
  · rename_i hc
    exact absurd (hflat _ (noMatch_mem_of_conjuncts hc)) noMatch
  · exact all
  · rename_i f hc
    exact hflat f (mem_of_conjuncts hc f List.mem_cons_self)
  · rename_i gs _ _ hc
    exact (and gs).mpr fun g hg => hflat g (mem_of_conjuncts hc g hg)

section Factories

variable [TextRules]

/-- Flattening conjunctions keeps the conjunction of the children. -/
theorem holds_flatten_and (fs : List SearchFilter) (x : Subject) :
    (flatten .and fs).all (fun f => f.holds x) = fs.all fun f => f.holds x := by
  have child : ∀ f : SearchFilter,
      (flattenChild .and f).all (fun f => f.holds x) = f.holds x := by
    intro f
    induction f using SearchFilter.induction with
    | and fs ih =>
        rw [flattenChild, if_pos rfl, holds_and]
        induction fs with
        | nil => rfl
        | cons f fs ihl =>
            simp only [List.mem_cons, forall_eq_or_imp] at ih
            rw [flatten, List.all_append, ih.1, ihl ih.2, List.all_cons]
    | _ => simp [flattenChild]
  induction fs with
  | nil => rfl
  | cons f fs ih => rw [flatten, List.all_append, child, ih, List.all_cons]

/-- Flattening disjunctions keeps the disjunction of the children. -/
theorem holds_flatten_or (fs : List SearchFilter) (x : Subject) :
    (flatten .or fs).any (fun f => f.holds x) = fs.any fun f => f.holds x := by
  have child : ∀ f : SearchFilter,
      (flattenChild .or f).any (fun f => f.holds x) = f.holds x := by
    intro f
    induction f using SearchFilter.induction with
    | or fs ih =>
        rw [flattenChild, if_pos rfl, holds_or]
        induction fs with
        | nil => rfl
        | cons f fs ihl =>
            simp only [List.mem_cons, forall_eq_or_imp] at ih
            rw [flatten, List.any_append, ih.1, ihl ih.2, List.any_cons]
    | _ => simp [flattenChild]
  induction fs with
  | nil => rfl
  | cons f fs ih => rw [flatten, List.any_append, child, ih, List.any_cons]

theorem holds_conjuncts (fs : List SearchFilter) (x : Subject) :
    ((conjuncts fs).elim false fun gs => gs.all fun f => f.holds x)
      = fs.all fun f => f.holds x := by
  induction fs with
  | nil => rfl
  | cons f fs ih =>
      cases f <;> simp only [conjuncts, List.all_cons, ← ih] <;> cases conjuncts fs <;> simp

theorem holds_disjuncts (fs : List SearchFilter) (x : Subject) :
    ((disjuncts fs).elim true fun gs => gs.any fun f => f.holds x)
      = fs.any fun f => f.holds x := by
  induction fs with
  | nil => rfl
  | cons f fs ih =>
      cases f <;> simp only [disjuncts, List.any_cons, ← ih] <;> cases disjuncts fs <;> simp

/-- `and_` is the conjunction of its arguments. -/
@[simp] theorem holds_and_ (fs : List SearchFilter) (x : Subject) :
    (and_ fs).holds x = fs.all fun f => f.holds x := by
  rw [← holds_flatten_and, ← holds_conjuncts, and_]
  split <;> simp [*]

/-- `or_` is the disjunction of its arguments. -/
@[simp] theorem holds_or_ (fs : List SearchFilter) (x : Subject) :
    (or_ fs).holds x = fs.any fun f => f.holds x := by
  rw [← holds_flatten_or, ← holds_disjuncts, or_]
  split <;> simp [*]

/-- `not_` is the negation of its argument. -/
@[simp] theorem holds_not_ (f : SearchFilter) (x : Subject) : (not_ f).holds x = !f.holds x := by
  cases f <;> simp [not_]

/-- `attr` asks its argument about the attribute. -/
@[simp] theorem holds_attr_ (name : String) (f : SearchFilter) (x : Subject) :
    (attr_ name f).holds x = f.holds (.value (x.get name)) := by
  cases f <;> simp [attr_]

/-! ## The factories and `matches` -/

theorem matchesAll_append (fs gs : List SearchFilter) (x : Subject) :
    matchesAll (fs ++ gs) x
      = (do if ← matchesAll fs x then matchesAll gs x else return false) := by
  induction fs with
  | nil => rfl
  | cons f fs ih =>
      rw [List.cons_append, matchesAll, matchesAll, ih]
      cases f.matches x with
      | error e => rfl
      | ok b => cases b <;> rfl

/-- A conjunction of one child raises and answers as the child does. -/
theorem matchesAll_singleton (f : SearchFilter) (x : Subject) : matchesAll [f] x = f.matches x := by
  rw [matchesAll]
  cases f.matches x with
  | error e => rfl
  | ok b => cases b <;> rfl

/-- Flattening keeps the order of the children, so it keeps the answer and the error. -/
theorem matchesAll_flatten (fs : List SearchFilter) (x : Subject) :
    matchesAll (flatten .and fs) x = matchesAll fs x := by
  have child : ∀ f : SearchFilter, matchesAll (flattenChild .and f) x = f.matches x := by
    intro f
    induction f using SearchFilter.induction with
    | and fs ih =>
        rw [flattenChild, if_pos rfl, «matches»]
        induction fs with
        | nil => rfl
        | cons f fs ihl =>
            simp only [List.mem_cons, forall_eq_or_imp] at ih
            rw [flatten, matchesAll_append, ih.1, ihl ih.2, matchesAll]
    | _ => simp only [flattenChild, matchesAll_singleton, reduceCtorEq, if_false]
  induction fs with
  | nil => rfl
  | cons f fs ih => rw [flatten, matchesAll_append, child, ih, matchesAll]

/-- Dropping the identities keeps the answer and the error, unless a `NoMatch` annihilates the
whole conjunction. -/
theorem matchesAll_conjuncts {fs gs : List SearchFilter} (x : Subject)
    (h : conjuncts fs = some gs) : matchesAll gs x = matchesAll fs x := by
  induction fs generalizing gs with
  | nil =>
      cases h
      rfl
  | cons f fs ih =>
      cases f with
      | all => rw [ih h, matchesAll, «matches»]; rfl
      | noMatch => cases h
      | _ =>
          obtain ⟨gs, hgs, rfl⟩ := Option.map_eq_some_iff.mp h
          rw [matchesAll, matchesAll, ih hgs]

/-- A conjunction with a `NoMatch` child is not true. -/
theorem matchesAll_ne_true {fs : List SearchFilter} (x : Subject) (h : conjuncts fs = none) :
    matchesAll fs x ≠ .ok true := by
  induction fs with
  | nil => cases h
  | cons f fs ih =>
      rw [matchesAll]
      cases hf : f.matches x with
      | error e => simp [bind, Except.bind]
      | ok b =>
          cases b with
          | false => simp [bind, Except.bind, pure, Except.pure]
          | true =>
              refine ih ?_
              cases f with
              | all => exact h
              | noMatch => cases hf
              | _ => exact Option.map_eq_none_iff.mp h

/-- What `and_` builds answers what its arguments do, left to right. -/
theorem matches_and_ {fs : List SearchFilter} {x : Subject} {b : Bool}
    (h : matchesAll fs x = .ok b) : (and_ fs).matches x = .ok b := by
  rw [← matchesAll_flatten] at h
  rw [and_]
  cases hc : conjuncts (flatten .and fs) with
  | none =>
      cases b with
      | false => simp [«matches»]
      | true => exact absurd h (matchesAll_ne_true x hc)
  | some gs =>
      rw [← matchesAll_conjuncts x hc] at h
      match gs, h with
      | [], h => exact h
      | [f], h => exact matchesAll_singleton f x ▸ h
      | _ :: _ :: _, h => simpa [«matches»] using h

/-- A conjunction is true where each of its children is. -/
theorem matchesAll_eq_true {fs : List SearchFilter} {x : Subject} :
    matchesAll fs x = .ok true ↔ ∀ f ∈ fs, f.matches x = .ok true := by
  induction fs with
  | nil => simp [matchesAll]
  | cons f fs ih =>
      rw [matchesAll, List.forall_mem_cons, ← ih]
      cases f.matches x with
      | error e => simp [bind, Except.bind]
      | ok b => cases b <;> simp [bind, Except.bind, pure, Except.pure]

/-- What `and_` builds is true where each of its arguments is. -/
theorem matches_and_eq_true {fs : List SearchFilter} {x : Subject} :
    (and_ fs).matches x = .ok true ↔ ∀ f ∈ fs, f.matches x = .ok true := by
  rw [← matchesAll_eq_true]
  refine ⟨fun h => ?_, matches_and_⟩
  rw [← matchesAll_flatten]
  rw [and_] at h
  cases hc : conjuncts (flatten .and fs) with
  | none =>
      rw [hc] at h
      cases h
  | some gs =>
      rw [← matchesAll_conjuncts x hc]
      rw [hc] at h
      match gs, h with
      | [], h => exact h
      | [f], h => exact matchesAll_singleton f x ▸ h
      | _ :: _ :: _, h => simpa [«matches»] using h

end Factories

end SearchFilter

end Resourcey
