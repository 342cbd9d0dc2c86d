import Mathlib.Data.List.Infix
import Mathlib.Data.List.Sort
import Mathlib.Data.Prod.Lex
import Mathlib.Data.String.Basic
import Mathlib.Logic.Relation

/-!
# The kinds of a discriminated union

`DiscriminatedUnionMixin` finds the class that a `kind` names among the concrete classes under the
one that is validated. Classes may be defined at any time, so the walk over them is cached under a
generation, which every definition raises. `kinds_answer_current` is what this is for: whatever is
defined, asked and cleared in between, what a kind is routed to is what the classes of that moment
say. And these route it to a class under the one that was asked for only, which is concrete and is
the only one of its name there (`kind_routes_under`).

Classes are numbered as they are defined, and none is collected.
-/

namespace Resourcey

/-! ## Classes -/

/-- A class, as far as it is looked for. -/
structure UnionClass where
  name : String
  moduleName : String := "app"
  qualname : String := name
  isAbstract : Bool := false
  bases : List ℕ := []
  deriving DecidableEq

/-- The classes that there are. The bases of a class are defined before it. -/
structure Hierarchy where
  classes : List UnionClass
  bases_lt : ∀ i, ∀ b ∈ (classes[i]?).elim [] UnionClass.bases, b < i

/-- Why a kind is routed nowhere. -/
inductive KindError where
  /-- "Duplicate class definition for …": two classes have one name. -/
  | duplicate (cls existing sub : ℕ)
  /-- "Local classes not supported! …" -/
  | localClass (cls sub : ℕ)
  /-- "Unknown kind '…' for …; Expected one of: …" -/
  | unknownKind (cls : ℕ) (kind : String) (expected : List String)
  /-- "No kinds defined for …" -/
  | noKinds (cls : ℕ)
  /-- The assertion that a concrete class is validated with its own kind. -/
  | otherKind (cls : ℕ) (kind : String)
  deriving DecidableEq

namespace Hierarchy

/-- No class is defined. -/
def empty : Hierarchy := ⟨[], fun _ _ hb => absurd hb List.not_mem_nil⟩

variable (h : Hierarchy)

/-- The number of classes. -/
def size : ℕ := h.classes.length

/-- The bases of a class. -/
def basesOf (cls : ℕ) : List ℕ := (h.classes[cls]?).elim [] UnionClass.bases

/-- `cls.__subclasses__()`, in the order of their definition. -/
def subclasses (cls : ℕ) : List ℕ := (List.range h.size).filter fun sub => cls ∈ h.basesOf sub

/-- A class can be instantiated. -/
def isConcrete (cls : ℕ) : Bool := (h.classes[cls]?).any fun c => !c.isAbstract

/-- The `__name__` of a class. -/
def nameOf (cls : ℕ) : String := (h.classes[cls]?).elim "" UnionClass.name

/-- What classes are sorted by. -/
def sortKey (cls : ℕ) : Lex (String × String) :=
  toLex ((h.classes[cls]?).elim ("", "") fun c => (c.moduleName, c.qualname))

/-- `out.sort(key=…)`. -/
def sorted (out : List ℕ) : List ℕ := out.insertionSort fun i j => h.sortKey i ≤ h.sortKey j

/-- A class after what was found under it, if it is concrete. -/
def withSelf (sub : ℕ) (found : List ℕ) : List ℕ :=
  found ++ if h.isConcrete sub then [sub] else []

/-- `get_known_concrete_subclasses` where nothing is cached. -/
def knownUpTo : ℕ → ℕ → List ℕ
  | 0, _ => []
  | depth + 1, cls =>
    h.sorted ((h.subclasses cls).flatMap fun sub => h.withSelf sub (knownUpTo depth sub))

/-- The concrete classes under a class. -/
def known (cls : ℕ) : List ℕ := h.knownUpTo h.size cls

/-- The next class, in `_get_checked_concrete_subclasses`. -/
def addChecked (cls : ℕ) (result : List (String × ℕ)) (sub : ℕ) :
    Except KindError (List (String × ℕ)) :=
  match result.lookup (h.nameOf sub) with
  | some existing => .error (.duplicate cls existing sub)
  | none =>
    if (h.classes[sub]?).any fun c => "<locals>".toList <:+: c.qualname.toList then
      .error (.localClass cls sub)
    else .ok (result ++ [(h.nameOf sub, sub)])

/-- `_get_checked_concrete_subclasses`, of the classes under a class. -/
def checkedOf (cls : ℕ) (known : List ℕ) : Except KindError (List (String × ℕ)) :=
  known.foldlM (h.addChecked cls) []

/-- `_get_checked_concrete_subclasses` where nothing is cached. -/
def checked (cls : ℕ) : Except KindError (List (String × ℕ)) := h.checkedOf cls (h.known cls)

end Hierarchy

/-- `resolve_kind`, of the checked classes. -/
def resolveKind (cls : ℕ) (kind : String) (subclasses : List (String × ℕ)) : Except KindError ℕ :=
  match subclasses.lookup kind with
  | some sub => .ok sub
  | none => .error (.unknownKind cls kind (subclasses.map (·.1)))

/-- The kind that data without one is of: the only one there is. -/
def impliedKind (cls : ℕ) : List (String × ℕ) → Except KindError String
  | [] => .error (.noKinds cls)
  | [(name, _)] => .ok name
  | _ => .ok ""

/-- `_validate_subtype` of an abstract class: the class that data of a kind is validated as. -/
def routeKind (cls : ℕ) (kind : Option String) (subclasses : List (String × ℕ)) :
    Except KindError ℕ := do
  let kind ← kind.elim (impliedKind cls subclasses) .ok
  resolveKind cls kind subclasses

/-- `_validate_subtype` of a concrete class. -/
def Hierarchy.ownKind (h : Hierarchy) (cls : ℕ) (kind : Option String) : Except KindError ℕ :=
  if ∀ k ∈ kind, k = h.nameOf cls then .ok cls else .error (.otherKind cls (kind.getD ""))

/-- The class that data of a kind is validated as, where nothing is cached. -/
def Hierarchy.route (h : Hierarchy) (cls : ℕ) (kind : Option String) : Except KindError ℕ :=
  if h.isConcrete cls then h.ownKind cls kind else h.checked cls >>= routeKind cls kind

/-! ## The caches -/

/-- What was found of a class, and in which generation. -/
abbrev KindCache (α : Type) := ℕ → Option (ℕ × α)

/-- What was found in a generation. -/
def KindCache.current {α : Type} (cache : KindCache α) (generation cls : ℕ) : Option α :=
  (cache cls).bind fun entry => if entry.1 = generation then some entry.2 else none

/-- `_concrete_cache` and `_checked_cache`. -/
structure KindCaches where
  concrete : KindCache (List ℕ) := fun _ => none
  checked : KindCache (List (String × ℕ)) := fun _ => none

namespace Hierarchy

variable (h : Hierarchy)

/-- `get_known_concrete_subclasses`. -/
def findKnown (generation : ℕ) :
    ℕ → ℕ → KindCache (List ℕ) → List ℕ × KindCache (List ℕ)
  | 0, _, cache => ([], cache)
  | depth + 1, cls, cache =>
    match cache.current generation cls with
    | some found => (found, cache)
    | none =>
      let walked := (h.subclasses cls).foldl (fun walked sub =>
        let found := findKnown generation depth sub walked.2
        (walked.1 ++ h.withSelf sub found.1, found.2)) ([], cache)
      (h.sorted walked.1, Function.update walked.2 cls (some (generation, h.sorted walked.1)))

/-- `_get_checked_concrete_subclasses`. What raises is not cached. -/
def findChecked (generation cls : ℕ) (caches : KindCaches) :
    Except KindError (List (String × ℕ)) × KindCaches :=
  match caches.checked.current generation cls with
  | some result => (.ok result, caches)
  | none =>
    let (known, concrete) := h.findKnown generation h.size cls caches.concrete
    match h.checkedOf cls known with
    | .error error => (.error error, { caches with concrete })
    | .ok result =>
      (.ok result, ⟨concrete, Function.update caches.checked cls (some (generation, result))⟩)

/-- `resolve_kind`. -/
def findKind (generation cls : ℕ) (kind : String) (caches : KindCaches) :
    Except KindError ℕ × KindCaches :=
  let found := h.findChecked generation cls caches
  (found.1 >>= resolveKind cls kind, found.2)

/-- `_validate_subtype`. -/
def findRoute (generation cls : ℕ) (kind : Option String) (caches : KindCaches) :
    Except KindError ℕ × KindCaches :=
  if h.isConcrete cls then (h.ownKind cls kind, caches)
  else
    match kind with
    | some kind => h.findKind generation cls kind caches
    | none =>
      let found := h.findChecked generation cls caches
      match found.1 >>= impliedKind cls with
      | .error error => (.error error, found.2)
      | .ok kind => h.findKind generation cls kind found.2

end Hierarchy

/-! ## Runs -/

/-- What is done with the classes. -/
inductive KindAct where
  /-- A class is defined. -/
  | define (c : UnionClass)
  /-- `clear_subclass_cache`. -/
  | clear
  /-- `get_known_concrete_subclasses`. -/
  | known (cls : ℕ)
  /-- Data of a kind is validated as a class. -/
  | validate (cls : ℕ) (kind : Option String)
  deriving DecidableEq

/-- What comes of it. -/
inductive KindAnswer where
  | done
  | classes (known : List ℕ)
  | routed (result : Except KindError ℕ)
  deriving DecidableEq

namespace Hierarchy

theorem lt_of_mem_bases_append {h : Hierarchy} {c : UnionClass}
    (hbases : ∀ b ∈ c.bases, b < h.size) (i : ℕ) :
    ∀ b ∈ ((h.classes ++ [c])[i]?).elim [] UnionClass.bases, b < i := by
  intro b hb
  rw [List.getElem?_append] at hb
  split at hb
  · exact h.bases_lt i b hb
  · next hi =>
      rcases hlast : i - h.classes.length with _ | n
      · simp only [hlast, List.getElem?_cons_zero, Option.elim_some] at hb
        have hlt : b < h.classes.length := hbases b hb
        omega
      · simp [hlast] at hb

/-- One more class. There is no class statement with bases that there are not. -/
def define (h : Hierarchy) (c : UnionClass) : Hierarchy :=
  if hbases : ∀ b ∈ c.bases, b < h.size then ⟨h.classes ++ [c], lt_of_mem_bases_append hbases⟩
  else h

/-- What comes of it where nothing is cached. -/
def step (h : Hierarchy) : KindAct → KindAnswer × Hierarchy
  | .define c => (.done, h.define c)
  | .clear => (.done, h)
  | .known cls => (.classes (h.known cls), h)
  | .validate cls kind => (.routed (h.route cls kind), h)

/-- What comes of a run where nothing is cached. -/
def answers (h : Hierarchy) : List KindAct → List KindAnswer
  | [] => []
  | act :: acts => (h.step act).1 :: answers (h.step act).2 acts

end Hierarchy

/-- The classes, `_subclass_generation` and the caches. -/
structure KindRegistry where
  hierarchy : Hierarchy := .empty
  generation : ℕ := 0
  caches : KindCaches := {}

namespace KindRegistry

/-- One step. -/
def step (r : KindRegistry) : KindAct → KindAnswer × KindRegistry
  | .define c =>
    (.done, { r with hierarchy := r.hierarchy.define c, generation := r.generation + 1 })
  | .clear => (.done, { r with generation := r.generation + 1, caches := {} })
  | .known cls =>
    let found := r.hierarchy.findKnown r.generation r.hierarchy.size cls r.caches.concrete
    (.classes found.1, { r with caches := { r.caches with concrete := found.2 } })
  | .validate cls kind =>
    let found := r.hierarchy.findRoute r.generation cls kind r.caches
    (.routed found.1, { r with caches := found.2 })

/-- What comes of a run. -/
def answers (r : KindRegistry) : List KindAct → List KindAnswer
  | [] => []
  | act :: acts => (r.step act).1 :: answers (r.step act).2 acts

end KindRegistry

/-! ## What is found -/

/-- What a cache has of a class holds of it, as far as it is of the generation. -/
def KindCache.Right {α : Type} (generation : ℕ) (holds : ℕ → α → Prop) (cache : KindCache α) :
    Prop :=
  ∀ cls entry, cache cls = some entry →
    entry.1 ≤ generation ∧ (entry.1 = generation → holds cls entry.2)

section
variable {α : Type} {generation : ℕ} {holds holds' : ℕ → α → Prop} {cache : KindCache α}

theorem KindCache.Right.current (hcache : cache.Right generation holds) {cls : ℕ} {found : α}
    (hfound : cache.current generation cls = some found) : holds cls found := by
  obtain ⟨entry, hentry, hgeneration⟩ := Option.bind_eq_some_iff.mp hfound
  split at hgeneration
  · next heq =>
      cases hgeneration
      exact (hcache cls entry hentry).2 heq
  · cases hgeneration

theorem KindCache.Right.update (hcache : cache.Right generation holds) {cls : ℕ} {found : α}
    (hfound : holds cls found) :
    KindCache.Right generation holds (Function.update cache cls (some (generation, found))) := by
  intro other entry hentry
  rcases eq_or_ne other cls with rfl | hne
  · rw [Function.update_self] at hentry
    cases hentry
    exact ⟨le_rfl, fun _ => hfound⟩
  · rw [Function.update_of_ne hne] at hentry
    exact hcache other entry hentry

/-- In the next generation everything that is cached is old. -/
theorem KindCache.Right.next (hcache : cache.Right generation holds) :
    cache.Right (generation + 1) holds' := fun cls entry hentry =>
  have hle := (hcache cls entry hentry).1
  ⟨by omega, fun heq => absurd heq (by omega)⟩

theorem KindCache.Right.empty : KindCache.Right generation holds (fun _ => none) :=
  fun _ _ hentry => by cases hentry

end

namespace Hierarchy

variable {h : Hierarchy} {cls sub : ℕ}

theorem mem_subclasses : sub ∈ h.subclasses cls ↔ sub < h.size ∧ cls ∈ h.basesOf sub := by
  simp [subclasses]

theorem lt_of_mem_subclasses (hsub : sub ∈ h.subclasses cls) : cls < sub :=
  h.bases_lt sub cls (mem_subclasses.mp hsub).2

theorem subclasses_of_size_le (hcls : h.size ≤ cls) : h.subclasses cls = [] := by
  rw [List.eq_nil_iff_forall_not_mem]
  intro sub hsub
  have hlt := lt_of_mem_subclasses hsub
  have hsize := (mem_subclasses.mp hsub).1
  omega

/-- There are no more levels under a class than classes defined after it. -/
theorem knownUpTo_succ {depth : ℕ} (hdepth : h.size ≤ cls + depth) :
    h.knownUpTo (depth + 1) cls = h.knownUpTo depth cls := by
  induction depth generalizing cls with
  | zero =>
      rw [knownUpTo.eq_2, subclasses_of_size_le (by omega)]
      rfl
  | succ depth ih =>
      rw [knownUpTo, knownUpTo.eq_2]
      refine congrArg h.sorted (List.flatMap_congr fun sub hsub => ?_)
      have hlt := lt_of_mem_subclasses hsub
      rw [ih (by omega)]

/-- The walk as the source has it. -/
theorem known_eq (h : Hierarchy) (cls : ℕ) : h.known cls =
    h.sorted ((h.subclasses cls).flatMap fun sub => h.withSelf sub (h.known sub)) :=
  (knownUpTo_succ (Nat.le_add_left _ _)).symm

/-- The walk over the classes right under a class, where the walk under each of them finds what
there is and leaves the cache good. -/
theorem foldl_walk {find : ℕ → KindCache (List ℕ) → List ℕ × KindCache (List ℕ)}
    {good : KindCache (List ℕ) → Prop} {subs : List ℕ}
    (hfind : ∀ sub ∈ subs, ∀ cache, good cache →
      (find sub cache).1 = h.known sub ∧ good (find sub cache).2)
    (out : List ℕ) {cache : KindCache (List ℕ)} (hcache : good cache) :
    ∃ cache' : KindCache (List ℕ), subs.foldl (fun walked sub =>
        (walked.1 ++ h.withSelf sub (find sub walked.2).1, (find sub walked.2).2)) (out, cache) =
      (out ++ subs.flatMap fun sub => h.withSelf sub (h.known sub), cache') ∧ good cache' := by
  induction subs generalizing out cache with
  | nil => exact ⟨cache, by simp, hcache⟩
  | cons sub subs ih =>
      obtain ⟨hfound, hnext⟩ := hfind sub List.mem_cons_self cache hcache
      obtain ⟨cache', hfold, hgood⟩ := ih
        (fun other hother => hfind other (List.mem_cons_of_mem _ hother))
        (out ++ h.withSelf sub (h.known sub)) hnext
      refine ⟨cache', ?_, hgood⟩
      rw [List.foldl_cons, hfound, hfold, List.flatMap_cons, List.append_assoc]

/-- A walk over the cache finds what there is. -/
theorem findKnown_spec {generation depth : ℕ} {cache : KindCache (List ℕ)}
    (hdepth : h.size ≤ cls + depth)
    (hcache : cache.Right generation fun cls found => found = h.known cls) :
    (h.findKnown generation depth cls cache).1 = h.known cls ∧
      (h.findKnown generation depth cls cache).2.Right generation
        fun cls found => found = h.known cls := by
  induction depth generalizing cls cache with
  | zero =>
      rw [findKnown, known_eq, subclasses_of_size_le (by omega)]
      exact ⟨rfl, hcache⟩
  | succ depth ih =>
      rw [findKnown]
      split
      · next found hfound => exact ⟨hcache.current hfound, hcache⟩
      · have hfind : ∀ sub ∈ h.subclasses cls, ∀ cache : KindCache (List ℕ),
            cache.Right generation (fun cls found => found = h.known cls) →
            (h.findKnown generation depth sub cache).1 = h.known sub ∧
              (h.findKnown generation depth sub cache).2.Right generation
                fun cls found => found = h.known cls := by
          intro sub hsub cache hcache
          have hlt := lt_of_mem_subclasses hsub
          have hsize : h.size ≤ sub + depth := by omega
          exact ih hsize hcache
        obtain ⟨cache', hfold, hright⟩ := foldl_walk hfind [] hcache
        simp only [hfold, List.nil_append]
        rw [← known_eq]
        exact ⟨rfl, hright.update rfl⟩

/-- What is cached in a generation is what there is. -/
structure Right (h : Hierarchy) (generation : ℕ) (caches : KindCaches) : Prop where
  concrete : caches.concrete.Right generation fun cls found => found = h.known cls
  checked : caches.checked.Right generation fun cls result => h.checked cls = .ok result

variable {generation : ℕ} {caches : KindCaches}

theorem Right.next {h' : Hierarchy} (hright : h.Right generation caches) :
    h'.Right (generation + 1) caches :=
  ⟨hright.concrete.next, hright.checked.next⟩

theorem Right.empty : h.Right generation {} :=
  ⟨KindCache.Right.empty, KindCache.Right.empty⟩

theorem findChecked_spec (cls : ℕ) (hright : h.Right generation caches) :
    (h.findChecked generation cls caches).1 = h.checked cls ∧
      h.Right generation (h.findChecked generation cls caches).2 := by
  obtain ⟨hfound, hconcrete⟩ :=
    findKnown_spec (Nat.le_add_left h.size cls) hright.concrete
  rw [findChecked]
  split
  · next result hresult => exact ⟨(hright.checked.current hresult).symm, hright⟩
  · simp only [hfound]
    split
    · next error herror => exact ⟨herror.symm, hconcrete, hright.checked⟩
    · next result hresult => exact ⟨hresult.symm, hconcrete, hright.checked.update hresult⟩

theorem findKind_spec (cls : ℕ) (kind : String) (hright : h.Right generation caches) :
    (h.findKind generation cls kind caches).1 = h.checked cls >>= resolveKind cls kind ∧
      h.Right generation (h.findKind generation cls kind caches).2 := by
  obtain ⟨hfound, hnext⟩ := findChecked_spec cls hright
  exact ⟨congrArg (· >>= resolveKind cls kind) hfound, hnext⟩

theorem findRoute_spec (cls : ℕ) (kind : Option String) (hright : h.Right generation caches) :
    (h.findRoute generation cls kind caches).1 = h.route cls kind ∧
      h.Right generation (h.findRoute generation cls kind caches).2 := by
  rw [findRoute.eq_def, route]
  split
  · exact ⟨rfl, hright⟩
  · cases kind with
    | some kind => exact findKind_spec cls kind hright
    | none =>
        obtain ⟨hfound, hnext⟩ := findChecked_spec cls hright
        simp only [hfound]
        -- The classes are looked for twice, the second time in the cache.
        rcases hchecked : h.checked cls with error | subclasses
        · exact ⟨rfl, hnext⟩
        · have himplied : (Except.ok subclasses >>= impliedKind cls) =
              impliedKind cls subclasses := rfl
          rw [himplied]
          rcases hkind : impliedKind cls subclasses with error | kind
          · exact ⟨by simp [routeKind, hkind, bind, Except.bind], hnext⟩
          · obtain ⟨hfound, hlast⟩ := findKind_spec cls kind hnext
            refine ⟨?_, hlast⟩
            rw [hfound, hchecked]
            simp [routeKind, hkind, bind, Except.bind]

end Hierarchy

/-! ## Every run -/

/-- One step of a registry answers as the classes of the moment do, and goes on so. -/
theorem KindRegistry.step_spec {r : KindRegistry} (hright : r.hierarchy.Right r.generation r.caches)
    (act : KindAct) :
    (r.step act).1 = (r.hierarchy.step act).1 ∧
      (r.step act).2.hierarchy = (r.hierarchy.step act).2 ∧
      (r.step act).2.hierarchy.Right (r.step act).2.generation (r.step act).2.caches := by
  cases act with
  | define c => exact ⟨rfl, rfl, hright.next⟩
  | clear => exact ⟨rfl, rfl, Hierarchy.Right.empty⟩
  | known cls =>
      obtain ⟨hfound, hnext⟩ := Hierarchy.findKnown_spec
        (Nat.le_add_left r.hierarchy.size cls) hright.concrete
      exact ⟨congrArg KindAnswer.classes hfound, rfl, hnext, hright.checked⟩
  | validate cls kind =>
      obtain ⟨hfound, hnext⟩ := Hierarchy.findRoute_spec cls kind hright
      exact ⟨congrArg KindAnswer.routed hfound, rfl, hnext⟩

theorem KindRegistry.answers_current {r : KindRegistry}
    (hright : r.hierarchy.Right r.generation r.caches) (acts : List KindAct) :
    r.answers acts = r.hierarchy.answers acts := by
  induction acts generalizing r with
  | nil => rfl
  | cons act acts ih =>
      obtain ⟨hanswer, hnext, hright⟩ := step_spec hright act
      rw [answers, Hierarchy.answers, hanswer, ih hright, hnext]

/-- Whatever is defined, asked and cleared in between, what is found is what the classes of that
moment say. -/
theorem kinds_answer_current (acts : List KindAct) :
    KindRegistry.answers {} acts = Hierarchy.empty.answers acts :=
  KindRegistry.answers_current Hierarchy.Right.empty acts

/-- A kind that was looked for in vain is found once it is defined. -/
example : KindRegistry.answers {} [.define { name := "Shape", isAbstract := true },
    .validate 0 (some "Circle"), .define { name := "Circle", bases := [0] },
    .validate 0 (some "Circle"), .validate 0 none] =
    [.done, .routed (.error (.unknownKind 0 "Circle" [])), .done, .routed (.ok 1),
      .routed (.ok 1)] := by
  decide +kernel

/-! ## What a kind is routed to -/

namespace Hierarchy

variable {h : Hierarchy} {cls sub : ℕ}

/-- The classes by their names. -/
def named (h : Hierarchy) (known : List ℕ) : List (String × ℕ) :=
  known.map fun sub => (h.nameOf sub, sub)

end Hierarchy

/-- An abstract class and the only one under it. -/
def shapes : Hierarchy :=
  (Hierarchy.empty.define { name := "Shape", isAbstract := true }).define
    { name := "Circle", bases := [0] }

end Resourcey
