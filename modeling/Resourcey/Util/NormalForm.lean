import Resourcey.Util.SearchFilter

/-!
# Normal forms

What the four factories build, from whatever trees they are given, means what they were asked for
(`Evaluates.matches_eq` and the `holds` lemmas of `Util.SearchFilter`), and a tree that only they have
built is a constant, or has no constant in it, no node directly under one of its own kind, and no
composite of fewer than two children (`Built.normal`). The two composites are treated as one: each
flattens its arguments, and then drops its unit and stops at its zero (`Composite.build_eq`), so what
it builds from a list is settled by what survives of it, and building is associative
(`Composite.build_build`).
-/

namespace Resourcey

namespace SearchFilter

/-! ## Trees that evaluate -/

/-- Every leaf of the tree evaluates on the subject: no ordering raises. -/
inductive Evaluates : SearchFilter → Subject → Prop
  | all {x} : Evaluates .all x
  | noMatch {x} : Evaluates .noMatch x
  | and {fs x} : (∀ f ∈ fs, Evaluates f x) → Evaluates (.and fs) x
  | or {fs x} : (∀ f ∈ fs, Evaluates f x) → Evaluates (.or fs) x
  | not {f x} : Evaluates f x → Evaluates (.not f) x
  | attr {name f x} : Evaluates f (.value (x.get name)) → Evaluates (.attr name f) x
  | eq {v x} : Evaluates (.eq v) x
  | order {op v x b} : x.compare op v = .ok b → Evaluates (.order op v) x
  | contains {v x} : Evaluates (.contains v) x
  | isIn {vs x} : Evaluates (.isIn vs) x
  | object {fields f x} : Evaluates f x → Evaluates (.object fields f) x
  | custom {kind test x} : Evaluates (.custom kind test) x

/-- A tree whose leaves evaluate answers its truth value. -/
theorem Evaluates.matches_eq [TextRules] {f : SearchFilter} {x : Subject} (h : Evaluates f x) :
    f.matches x = .ok (f.holds x) := by
  induction h with
  | all | noMatch | eq | contains | isIn | custom => rfl
  | @and fs x hfs ih =>
      rw [«matches», holds_and]
      clear hfs
      induction fs with
      | nil => rfl
      | cons f fs ihl =>
          obtain ⟨hf, hfs⟩ := List.forall_mem_cons.mp ih
          rw [matchesAll, hf, List.all_cons]
          cases f.holds x with
          | true => exact ihl hfs
          | false => rfl
  | @or fs x hfs ih =>
      rw [«matches», holds_or]
      clear hfs
      induction fs with
      | nil => rfl
      | cons f fs ihl =>
          obtain ⟨hf, hfs⟩ := List.forall_mem_cons.mp ih
          rw [matchesAny, hf, List.any_cons]
          cases f.holds x with
          | true => rfl
          | false => exact ihl hfs
  | not _ ih =>
      rw [«matches», ih]
      rfl
  | attr _ ih => exact ih
  | order h => simp [«matches», holds, h, Except.toOption]
  | object _ ih => exact ih

/-! ## The two composites as one -/

namespace Composite

/-- The raw node of the type. -/
def node : Composite → List SearchFilter → SearchFilter
  | .and => .and
  | .or => .or

/-- The constant that the type drops. -/
def unit : Composite → SearchFilter
  | .and => .all
  | .or => .noMatch

/-- The constant that the type stops at. -/
def zero : Composite → SearchFilter
  | .and => .noMatch
  | .or => .all

/-- The loop of the factory. -/
def survivors : Composite → List SearchFilter → Option (List SearchFilter)
  | .and => conjuncts
  | .or => disjuncts

/-- The factory. -/
def build : Composite → List SearchFilter → SearchFilter
  | .and => and_
  | .or => or_

end Composite

/-- The tree is a node of the type. -/
def IsNode : Composite → SearchFilter → Prop
  | .and, .and _ => True
  | .or, .or _ => True
  | _, _ => False

/-- The tree is a constant. -/
def IsConstant : SearchFilter → Prop
  | .all | .noMatch => True
  | _ => False

/-- The tree is an inversion. -/
def IsNot : SearchFilter → Prop
  | .not _ => True
  | _ => False

namespace Composite

variable (t : Composite)

theorem build_eq (fs : List SearchFilter) : t.build fs =
    match t.survivors (flatten t fs) with
    | none => t.zero
    | some [] => t.unit
    | some [f] => f
    | some fs => t.node fs := by
  cases t with
  | and => rfl
  | or => rfl

variable {t}

theorem flatten_append (fs gs : List SearchFilter) :
    flatten t (fs ++ gs) = flatten t fs ++ flatten t gs := by
  induction fs with
  | nil => rfl
  | cons f fs ih => rw [List.cons_append, flatten, flatten, ih, List.append_assoc]

theorem flattenChild_node (fs : List SearchFilter) :
    flattenChild t (t.node fs) = flatten t fs := by
  cases t with
  | and => simp [node, flattenChild]
  | or => simp [node, flattenChild]

theorem flattenChild_of_not_isNode {f : SearchFilter} (h : ¬ IsNode t f) :
    flattenChild t f = [f] := by
  cases t with
  | and =>
      cases f with
      | and fs => exact absurd trivial h
      | _ => rfl
  | or =>
      cases f with
      | or fs => exact absurd trivial h
      | _ => rfl

/-- What flattening leaves is no node of the type. -/
theorem not_isNode_of_mem_flatten {fs : List SearchFilter} {g : SearchFilter}
    (h : g ∈ flatten t fs) : ¬ IsNode t g := by
  have child : ∀ f, ∀ g ∈ flattenChild t f, ¬ IsNode t g := by
    intro f
    induction f using SearchFilter.induction with
    | and fs ih =>
        cases t with
        | and =>
            intro g hg
            rw [flattenChild, if_pos rfl, mem_flatten] at hg
            obtain ⟨f, hf, hg⟩ := hg
            exact ih f hf g hg
        | or =>
            intro g hg
            cases List.mem_singleton.mp hg
            exact fun h => h
    | or fs ih =>
        cases t with
        | or =>
            intro g hg
            rw [flattenChild, if_pos rfl, mem_flatten] at hg
            obtain ⟨f, hf, hg⟩ := hg
            exact ih f hf g hg
        | and =>
            intro g hg
            cases List.mem_singleton.mp hg
            exact fun h => h
    | _ =>
        intro g hg
        cases List.mem_singleton.mp hg
        cases t <;> exact fun h => h
  obtain ⟨f, -, hg⟩ := mem_flatten.mp h
  exact child f g hg

/-- Trees that are no node of the type are flat. -/
theorem flatten_of_not_isNode {fs : List SearchFilter} (h : ∀ f ∈ fs, ¬ IsNode t f) :
    flatten t fs = fs := by
  induction fs with
  | nil => rfl
  | cons f fs ih =>
      obtain ⟨hf, hfs⟩ := List.forall_mem_cons.mp h
      rw [flatten, flattenChild_of_not_isNode hf, ih hfs]
      rfl

/-- A property of the arguments that a node of the type passes to its children holds of every
flattened child. -/
theorem forall_mem_flatten {P : SearchFilter → Prop} (hP : ∀ fs, P (t.node fs) → ∀ f ∈ fs, P f)
    {fs : List SearchFilter} (h : ∀ f ∈ fs, P f) : ∀ g ∈ flatten t fs, P g := by
  have child : ∀ f, P f → ∀ g ∈ flattenChild t f, P g := by
    intro f
    induction f using SearchFilter.induction with
    | and fs ih =>
        cases t with
        | and =>
            intro hf g hg
            rw [flattenChild, if_pos rfl, mem_flatten] at hg
            obtain ⟨f, hfs, hg⟩ := hg
            exact ih f hfs (hP fs hf f hfs) g hg
        | or =>
            intro hf g hg
            cases List.mem_singleton.mp hg
            exact hf
    | or fs ih =>
        cases t with
        | or =>
            intro hf g hg
            rw [flattenChild, if_pos rfl, mem_flatten] at hg
            obtain ⟨f, hfs, hg⟩ := hg
            exact ih f hfs (hP fs hf f hfs) g hg
        | and =>
            intro hf g hg
            cases List.mem_singleton.mp hg
            exact hf
    | _ =>
        intro hf g hg
        cases List.mem_singleton.mp hg
        exact hf
  intro g hg
  obtain ⟨f, hfs, hg⟩ := mem_flatten.mp hg
  exact child f (h f hfs) g hg

/-! ## What survives -/

/-- What survives of trees that are no constants is all of them. -/
theorem survivors_of_not_isConstant {fs : List SearchFilter} (h : ∀ f ∈ fs, ¬ IsConstant f) :
    t.survivors fs = some fs := by
  induction fs with
  | nil => cases t <;> rfl
  | cons f fs ih =>
      obtain ⟨hf, hfs⟩ := List.forall_mem_cons.mp h
      have ih := ih hfs
      cases f with
      | all | noMatch => exact absurd trivial hf
      | _ =>
          cases t with
          | and => exact congrArg (Option.map _) ih
          | or => exact congrArg (Option.map _) ih

/-- What survives was there, and is no constant. -/
theorem mem_survivors {fs gs : List SearchFilter} (h : t.survivors fs = some gs) :
    ∀ g ∈ gs, g ∈ fs ∧ ¬ IsConstant g := by
  induction fs generalizing gs with
  | nil =>
      cases t with
      | and =>
          cases h
          nofun
      | or =>
          cases h
          nofun
  | cons f fs ih =>
      have hdropped (h : t.survivors fs = some gs) : ∀ g ∈ gs, g ∈ f :: fs ∧ ¬ IsConstant g :=
        fun g hg => (ih h g hg).imp_left (List.mem_cons_of_mem f)
      have hkept (hf : ¬ IsConstant f) (h : (t.survivors fs).map (f :: ·) = some gs) :
          ∀ g ∈ gs, g ∈ f :: fs ∧ ¬ IsConstant g := by
        obtain ⟨gs, hgs, rfl⟩ := Option.map_eq_some_iff.mp h
        refine List.forall_mem_cons.mpr ⟨⟨List.mem_cons_self, hf⟩, fun g hg => ?_⟩
        exact (ih hgs g hg).imp_left (List.mem_cons_of_mem f)
      cases t with
      | and =>
          cases f with
          | all => exact hdropped h
          | noMatch => cases h
          | _ => exact hkept (fun h => h) h
      | or =>
          cases f with
          | noMatch => exact hdropped h
          | all => cases h
          | _ => exact hkept (fun h => h) h

theorem survivors_append (fs gs : List SearchFilter) : t.survivors (fs ++ gs) =
    (t.survivors fs).bind fun fs => (t.survivors gs).map (fs ++ ·) := by
  induction fs with
  | nil =>
      cases t with
      | and => exact Option.map_id'.symm
      | or => exact Option.map_id'.symm
  | cons f fs ih =>
      have hkept : (t.survivors (fs ++ gs)).map (f :: ·) =
          ((t.survivors fs).map (f :: ·)).bind fun fs => (t.survivors gs).map (fs ++ ·) := by
        rw [ih]
        cases t.survivors fs with
        | none => rfl
        | some fs =>
            cases t.survivors gs with
            | none => rfl
            | some gs => rfl
      cases t with
      | and =>
          cases f with
          | all => exact ih
          | noMatch => rfl
          | _ => exact hkept
      | or =>
          cases f with
          | noMatch => exact ih
          | all => rfl
          | _ => exact hkept

/-- What survives of the arguments survives of what is built from them. -/
theorem survivors_build (fs : List SearchFilter) :
    t.survivors (flatten t [t.build fs]) = t.survivors (flatten t fs) := by
  have hone {f : SearchFilter} (hf : ¬ IsNode t f) : flatten t [f] = [f] :=
    flatten_of_not_isNode (List.forall_mem_singleton.mpr hf)
  rw [t.build_eq fs]
  split
  · rename_i h
    rw [h, hone (by cases t <;> exact fun h => h)]
    cases t <;> rfl
  · rename_i h
    rw [h, hone (by cases t <;> exact fun h => h)]
    cases t <;> rfl
  · rename_i f h
    obtain ⟨hmem, hconst⟩ := mem_survivors h f List.mem_cons_self
    rw [h, hone (not_isNode_of_mem_flatten hmem),
      survivors_of_not_isConstant (List.forall_mem_singleton.mpr hconst)]
  · rename_i gs _ _ h
    have hnode : ∀ g ∈ gs, ¬ IsNode t g :=
      fun g hg => not_isNode_of_mem_flatten (mem_survivors h g hg).1
    rw [h, flatten, flattenChild_node, flatten_of_not_isNode hnode, flatten, List.append_nil,
      survivors_of_not_isConstant fun g hg => (mem_survivors h g hg).2]

/-- A property that the constants have and that nodes of the type pass both ways is one of what is
built. -/
theorem build_induction {P : SearchFilter → Prop} (all : P .all) (noMatch : P .noMatch)
    (node : ∀ fs, P (t.node fs) ↔ ∀ f ∈ fs, P f) {fs : List SearchFilter} (h : ∀ f ∈ fs, P f) :
    P (t.build fs) := by
  have hflat := forall_mem_flatten (fun fs => (node fs).mp) h
  rw [build_eq]
  split
  · cases t with
    | and => exact noMatch
    | or => exact all
  · cases t with
    | and => exact all
    | or => exact noMatch
  · rename_i f hc
    exact hflat f (mem_survivors hc f List.mem_cons_self).1
  · rename_i gs _ _ hc
    exact (node gs).mpr fun g hg => hflat g (mem_survivors hc g hg).1

/-- **Building is associative.** What was built from some of the arguments may stand for them. -/
theorem build_build (fs gs hs : List SearchFilter) :
    t.build (fs ++ t.build gs :: hs) = t.build (fs ++ gs ++ hs) := by
  have hsurvivors : t.survivors (flatten t (fs ++ t.build gs :: hs)) =
      t.survivors (flatten t (fs ++ gs ++ hs)) := by
    rw [← List.singleton_append, ← List.append_assoc]
    simp only [flatten_append, survivors_append, survivors_build]
  rw [build_eq t (fs ++ _), build_eq t (fs ++ gs ++ hs), hsurvivors]

end Composite

/-! ## Normal forms -/

/-- A tree occurs in another: as itself, or in a child. -/
inductive Occurs (g : SearchFilter) : SearchFilter → Prop
  | refl : Occurs g g
  | and {f fs} : f ∈ fs → Occurs g f → Occurs g (.and fs)
  | or {f fs} : f ∈ fs → Occurs g f → Occurs g (.or fs)
  | not {f} : Occurs g f → Occurs g (.not f)
  | attr {name f} : Occurs g f → Occurs g (.attr name f)

/-- No constant, no composite with fewer than two children or with one of its own kind, and no
inversion of an inversion. -/
def NodeOk : SearchFilter → Prop
  | .all | .noMatch => False
  | .and fs => 2 ≤ fs.length ∧ ∀ f ∈ fs, ¬ IsNode .and f
  | .or fs => 2 ≤ fs.length ∧ ∀ f ∈ fs, ¬ IsNode .or f
  | .not f => ¬ IsNot f
  | _ => True

/-- A constant, or a tree in which every node is as it should be. -/
def Normal (f : SearchFilter) : Prop :=
  f = .all ∨ f = .noMatch ∨ ∀ g, Occurs g f → NodeOk g

/-- A tree that only the factories have built, from value leaves and constants. -/
inductive Built : SearchFilter → Prop
  | all : Built .all
  | noMatch : Built .noMatch
  | eq (v) : Built (.eq v)
  | order (op v) : Built (.order op v)
  | contains (v) : Built (.contains v)
  | isIn (vs) : Built (.isIn vs)
  | and_ {fs} : (∀ f ∈ fs, Built f) → Built (and_ fs)
  | or_ {fs} : (∀ f ∈ fs, Built f) → Built (or_ fs)
  | not_ {f} : Built f → Built (not_ f)
  | attr_ {name f} : Built f → Built (attr_ name f)

/-- Every node of the tree is as it should be. -/
def Tidy (f : SearchFilter) : Prop := ∀ g, Occurs g f → NodeOk g

theorem Tidy.nodeOk {f : SearchFilter} (h : Tidy f) : NodeOk f := h f .refl

/-- A composite is tidy when it is as it should be and its children are tidy. -/
theorem tidy_node {t : Composite} {fs : List SearchFilter} :
    Tidy (t.node fs) ↔ NodeOk (t.node fs) ∧ ∀ f ∈ fs, Tidy f := by
  constructor
  · intro h
    refine ⟨h.nodeOk, fun f hf g hg => h g ?_⟩
    cases t with
    | and => exact .and hf hg
    | or => exact .or hf hg
  · rintro ⟨hnode, hfs⟩ g hg
    cases t with
    | and =>
        cases hg with
        | refl => exact hnode
        | and hf hg => exact hfs _ hf g hg
    | or =>
        cases hg with
        | refl => exact hnode
        | or hf hg => exact hfs _ hf g hg

theorem tidy_not {f : SearchFilter} : Tidy (.not f) ↔ ¬ IsNot f ∧ Tidy f := by
  constructor
  · exact fun h => ⟨h.nodeOk, fun g hg => h g (.not hg)⟩
  · rintro ⟨hnode, hf⟩ g hg
    cases hg with
    | refl => exact hnode
    | not hg => exact hf g hg

theorem tidy_attr {name : String} {f : SearchFilter} : Tidy (.attr name f) ↔ Tidy f := by
  constructor
  · exact fun h g hg => h g (.attr hg)
  · intro hf g hg
    cases hg with
    | refl => trivial
    | attr hg => exact hf g hg

/-- A normal tree that is no constant is tidy. -/
theorem Normal.tidy {f : SearchFilter} (h : Normal f) (hf : ¬ IsConstant f) : Tidy f := by
  rcases h with rfl | rfl | h
  · exact absurd trivial hf
  · exact absurd trivial hf
  · exact h

/-- A composite that is built from normal trees is normal. -/
theorem Composite.build_normal {t : Composite} {fs : List SearchFilter} (h : ∀ f ∈ fs, Normal f) :
    Normal (t.build fs) := by
  -- The children of a normal composite are normal, so what is flattened is.
  have hpass : ∀ fs, Normal (t.node fs) → ∀ f ∈ fs, Normal f := by
    intro fs hfs f hf
    have htidy : Tidy (t.node fs) := hfs.tidy (by cases t <;> exact fun h => h)
    exact .inr (.inr ((tidy_node.mp htidy).2 f hf))
  have hflat := forall_mem_flatten hpass h
  rw [build_eq]
  split
  · cases t with
    | and => exact .inr (.inl rfl)
    | or => exact .inl rfl
  · cases t with
    | and => exact .inl rfl
    | or => exact .inr (.inl rfl)
  · rename_i f hc
    exact hflat f (mem_survivors hc f List.mem_cons_self).1
  · rename_i gs hne hnone hc
    have hgs : ∀ g ∈ gs, Tidy g := by
      intro g hg
      obtain ⟨hmem, hconst⟩ := mem_survivors hc g hg
      exact (hflat g hmem).tidy hconst
    have hkind : ∀ g ∈ gs, ¬ IsNode t g :=
      fun g hg => not_isNode_of_mem_flatten (mem_survivors hc g hg).1
    have hlength : 2 ≤ gs.length := by
      match gs with
      | [] => exact absurd rfl hne
      | [f] => exact absurd rfl (hnone f)
      | _ :: _ :: gs => simp
    refine .inr (.inr (tidy_node.mpr ⟨?_, hgs⟩))
    cases t with
    | and => exact ⟨hlength, hkind⟩
    | or => exact ⟨hlength, hkind⟩

/-- **What only the factories have built is in normal form.** -/
theorem Built.normal {f : SearchFilter} (h : Built f) : Normal f := by
  have hleaf {f : SearchFilter} (hchildren : ∀ g, Occurs g f → g = f) (hf : NodeOk f) :
      Normal f := .inr (.inr fun g hg => hchildren g hg ▸ hf)
  induction h with
  | all => exact .inl rfl
  | noMatch => exact .inr (.inl rfl)
  | eq | order | contains | isIn =>
      refine hleaf (fun g hg => ?_) trivial
      cases hg
      rfl
  | and_ _ ih => exact Composite.build_normal (t := .and) ih
  | or_ _ ih => exact Composite.build_normal (t := .or) ih
  | @not_ f _ ih =>
      cases f with
      | all => exact .inr (.inl rfl)
      | noMatch => exact .inl rfl
      | not f => exact .inr (.inr (tidy_not.mp (ih.tidy fun h => h)).2)
      | _ => exact .inr (.inr (tidy_not.mpr ⟨fun h => h, ih.tidy fun h => h⟩))
  | @attr_ name f _ ih =>
      cases f with
      | all => exact .inl rfl
      | noMatch => exact .inr (.inl rfl)
      | _ => exact .inr (.inr (tidy_attr.mpr (ih.tidy fun h => h)))

/-! ## Meaning -/

/-- What is built from trees that evaluate evaluates. -/
theorem Evaluates.build {t : Composite} {fs : List SearchFilter} {x : Subject}
    (h : ∀ f ∈ fs, Evaluates f x) : Evaluates (t.build fs) x := by
  refine Composite.build_induction (P := fun f => Evaluates f x) .all .noMatch (fun fs => ?_) h
  cases t with
  | and =>
      refine ⟨fun h => ?_, .and⟩
      cases h
      assumption
  | or =>
      refine ⟨fun h => ?_, .or⟩
      cases h
      assumption

theorem Evaluates.not_ {f : SearchFilter} {x : Subject} (h : Evaluates f x) :
    Evaluates (not_ f) x := by
  cases f with
  | all => exact .noMatch
  | noMatch => exact .all
  | not f =>
      cases h
      assumption
  | _ => exact .not h

theorem Evaluates.attr_ {name : String} {f : SearchFilter} {x : Subject}
    (h : Evaluates f (.value (x.get name))) : Evaluates (attr_ name f) x := by
  cases f with
  | all => exact .all
  | noMatch => exact .noMatch
  | _ => exact .attr h

/-- **The factories preserve meaning and build normal forms.** On a subject on which the leaves
evaluate, what they build matches exactly when the conjunction, the disjunction, the complement or
the attribute application of the arguments does. What only they have built is in normal form, and
the two composites are idempotent on what they build and associative. -/
theorem factories_normalise [TextRules] :
    (∀ {f x}, Evaluates f x → f.matches x = .ok (f.holds x)) ∧
    (∀ {fs x}, (∀ f ∈ fs, Evaluates f x) →
      (and_ fs).matches x = .ok (fs.all fun f => f.holds x) ∧
        (or_ fs).matches x = .ok (fs.any fun f => f.holds x)) ∧
    (∀ {f x}, Evaluates f x → (not_ f).matches x = .ok (!f.holds x)) ∧
    (∀ {name f x}, Evaluates f (.value (x.get name)) →
      (attr_ name f).matches x = .ok (f.holds (.value (x.get name)))) ∧
    (∀ {f}, Built f → Normal f) ∧
    (∀ fs, and_ [and_ fs] = and_ fs ∧ or_ [or_ fs] = or_ fs) ∧
    ∀ f g h, and_ [and_ [f, g], h] = and_ [f, and_ [g, h]] ∧
      or_ [or_ [f, g], h] = or_ [f, or_ [g, h]] := by
  have hassoc (t : Composite) (f g h : SearchFilter) :
      t.build [t.build [f, g], h] = t.build [f, t.build [g, h]] :=
    (t.build_build [] [f, g] [h]).trans (t.build_build [f] [g, h] []).symm
  refine ⟨Evaluates.matches_eq, ?_, ?_, ?_, Built.normal, ?_, ?_⟩
  · intro fs x h
    have hand := (Evaluates.build (t := .and) h).matches_eq
    have hor := (Evaluates.build (t := .or) h).matches_eq
    exact ⟨hand.trans (congrArg _ (holds_and_ fs x)), hor.trans (congrArg _ (holds_or_ fs x))⟩
  · intro f x h
    rw [h.not_.matches_eq, holds_not_]
  · intro name f x h
    rw [Evaluates.matches_eq h.attr_, holds_attr_]
  · intro fs
    have hself (t : Composite) : t.build [t.build fs] = t.build fs := by
      simpa using t.build_build [] fs []
    exact ⟨hself .and, hself .or⟩
  · intro f g h
    exact ⟨hassoc .and f g h, hassoc .or f g h⟩

/-- A raw conjunction with constants in it, inverted and joined with another. -/
theorem factories_normalise_nested :
    let _ := TextRules.ascii
    let raw : SearchFilter := .and [.all, .and [.eq .none], .noMatch]
    (and_ [not_ raw, raw]).matches (.value .none) = .ok false ∧
      Normal (and_ [.eq .none, or_ [and_ [.eq .none], .noMatch]]) := by
  intro _ raw
  have heq : Evaluates (.eq .none) (.value .none) := .eq
  have hraw : Evaluates raw (.value .none) := by
    refine .and fun f hf => ?_
    simp only [List.mem_cons, List.not_mem_nil, or_false] at hf
    rcases hf with rfl | rfl | rfl
    · exact .all
    · exact .and (List.forall_mem_singleton.mpr heq)
    · exact .noMatch
  have hbuilt : Built (and_ [.eq .none, or_ [and_ [.eq .none], .noMatch]]) := by
    refine .and_ fun f hf => ?_
    simp only [List.mem_cons, List.not_mem_nil, or_false] at hf
    rcases hf with rfl | rfl
    · exact .eq _
    · refine .or_ fun f hf => ?_
      simp only [List.mem_cons, List.not_mem_nil, or_false] at hf
      rcases hf with rfl | rfl
      · exact .and_ (List.forall_mem_singleton.mpr (.eq _))
      · exact .noMatch
  have hargs : ∀ f ∈ [not_ raw, raw], Evaluates f (.value .none) := by
    intro f hf
    simp only [List.mem_cons, List.not_mem_nil, or_false] at hf
    rcases hf with rfl | rfl
    · exact hraw.not_
    · exact hraw
  obtain ⟨-, hcomposites, -, -, hnormal, -⟩ := factories_normalise
  exact ⟨(hcomposites hargs).1.trans rfl, hnormal hbuilt⟩

end SearchFilter

end Resourcey
