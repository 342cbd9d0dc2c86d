import Resourcey.Core.Service
import Resourcey.Logic.PyText

/-!
# The lifecycle of a manifest

A manifest enters its managers and then its resources, and exits them in the reverse order. Any of
them may raise as it is entered or exited, and a resource may refer to one that is not served.

Whatever raises, only what was entered is exited, once and in the reverse order
(`round_exits_prefix`). But the part of it that was entered before something raised is never exited,
an exit that raises keeps the others from theirs, and in each of these cases the manifest stays
entered and can never be entered again. So the rounds are as they should be exactly if nothing
raises in any of them (`rounds_lifecycle_iff`).
-/

namespace Resourcey

/-- `singularise`. -/
def singularise (name : String) : String :=
  let lowered := PyText.lower name.toList
  if "es".toList <:+ lowered then String.ofList (name.toList.dropLast.dropLast)
  else if "s".toList <:+ lowered then String.ofList name.toList.dropLast
  else name

/-- What a manifest reads of a resource: its path, and what the fields of its declaration refer to,
if it has one. -/
structure ManifestResource where
  path : String
  fields : Option (List (String × Option String)) := none
  deriving DecidableEq

/-- Why entering or exiting a manifest raises: a reference to no resource, a second entry, or what a
component raised. -/
inductive LifecycleError (ε : Type) where
  | unknownReference (path field target : String) (served : List String)
  | alreadyEntered
  | raised (e : ε)

/-- The names that the resources are served under. -/
def servedNames (resources : List ManifestResource) : List String :=
  (resources.map fun r => singularise r.path).dedup

/-- `_validate_references`. -/
def validateReferences {ε : Type} (resources : List ManifestResource) :
    Except (LifecycleError ε) Unit :=
  resources.forM fun r => (r.fields.getD []).forM fun field =>
    match field.2 with
    | none => .ok ()
    | some target =>
      if target ∈ servedNames resources then .ok ()
      else .error (.unknownReference r.path field.1 target
        ((servedNames resources).mergeSort fun a b => a ≤ b))

/-- `Manifest`: its managers, of any type, and its resources. -/
structure Manifest (M : Type) where
  managers : List M
  resources : List ManifestResource

namespace Manifest

variable {M ε : Type}

/-- What a manifest enters and exits. -/
abbrev Component (M : Type) := M ⊕ ManifestResource

/-- What becomes of a component. -/
inductive Event (M : Type) where
  | entered (c : Component M)
  | exited (c : Component M)

/-- What the components raise in a round as they are entered and exited. -/
structure Faults (M ε : Type) where
  onEnter : Component M → Option ε
  onExit : Component M → Option ε

/-- The components, in the order of entering. -/
def components (m : Manifest M) : List (Component M) :=
  m.managers.map .inl ++ m.resources.map .inr

/-- The entering loops: what was entered, up to the first component that raises. -/
def enterAll (onEnter : Component M → Option ε) : List (Component M) → List (Event M) × Option ε
  | [] => ([], none)
  | c :: cs =>
    match onEnter c with
    | some e => ([], some e)
    | none => ((.entered c :: (enterAll onEnter cs).1), (enterAll onEnter cs).2)

/-- The exiting loops, up to the first component that raises. -/
def exitAll (onExit : Component M → Option ε) : List (Component M) → List (Event M) × Option ε
  | [] => ([], none)
  | c :: cs =>
    match onExit c with
    | some e => ([.exited c], some e)
    | none => ((.exited c :: (exitAll onExit cs).1), (exitAll onExit cs).2)

/-- What a call of a manifest did, whether it is entered after it, and what it raised. -/
structure Outcome (M ε : Type) where
  events : List (Event M)
  entered : Bool
  error : Option (LifecycleError ε)

/-- `__aenter__`. -/
def aenter (m : Manifest M) (faults : Faults M ε) (entered : Bool) : Outcome M ε :=
  if entered then ⟨[], true, some .alreadyEntered⟩
  else match validateReferences (ε := ε) m.resources with
    | .error e => ⟨[], true, some e⟩
    | .ok () => ⟨(enterAll faults.onEnter m.components).1, true,
        (enterAll faults.onEnter m.components).2.map .raised⟩

/-- The resources in the reverse order, and then the managers. -/
def exitOrder (m : Manifest M) : List (Component M) :=
  (m.resources.map .inr).reverse ++ (m.managers.map .inl).reverse

/-- `__aexit__`. -/
def aexit (m : Manifest M) (faults : Faults M ε) : Outcome M ε :=
  ⟨(exitAll faults.onExit m.exitOrder).1, (exitAll faults.onExit m.exitOrder).2.isSome,
    (exitAll faults.onExit m.exitOrder).2.map .raised⟩

/-- A round of `async with`: what could not be entered is not exited. -/
def round (m : Manifest M) (entered : Bool) (faults : Faults M ε) : Outcome M ε :=
  if (m.aenter faults entered).error.isSome then m.aenter faults entered
  else ⟨(m.aenter faults entered).events ++ (m.aexit faults).events, (m.aexit faults).entered,
    (m.aexit faults).error⟩

/-- A run of rounds, each with the faults of its own. -/
def rounds (m : Manifest M) : Bool → List (Faults M ε) → List (Outcome M ε)
  | _, [] => []
  | entered, faults :: rest =>
    m.round entered faults :: m.rounds (m.round entered faults).entered rest

/-! ## What is entered and exited -/

/-- The components that were entered. -/
def enters : List (Event M) → List (Component M)
  | [] => []
  | .entered c :: events => c :: enters events
  | .exited _ :: events => enters events

/-- The components that were exited. -/
def exits : List (Event M) → List (Component M)
  | [] => []
  | .entered _ :: events => exits events
  | .exited c :: events => c :: exits events

/-- A round as it should be: everything that was entered is exited, once and in the reverse order,
nothing else is, and the manifest can be entered again. -/
structure Lifecycle (o : Outcome M ε) : Prop where
  exits : exits o.events = (enters o.events).reverse
  entered : o.entered = false

/-- Nothing raises in the round. -/
def Quiet (m : Manifest M) (faults : Faults M ε) : Prop :=
  validateReferences (ε := ε) m.resources = .ok () ∧
    ∀ c ∈ m.components, faults.onEnter c = none ∧ faults.onExit c = none

section Events

variable (onEnter onExit : Component M → Option ε) (cs : List (Component M))

@[simp] theorem enters_append (a b : List (Event M)) : enters (a ++ b) = enters a ++ enters b := by
  induction a with
  | nil => rfl
  | cons event a ih => cases event <;> simp [enters, ih]

@[simp] theorem exits_append (a b : List (Event M)) : exits (a ++ b) = exits a ++ exits b := by
  induction a with
  | nil => rfl
  | cons event a ih => cases event <;> simp [exits, ih]

/-- Entering exits nothing, and enters all components up to one that raises. -/
theorem enterAll_spec : exits (enterAll onEnter cs).1 = [] ∧
    enters (enterAll onEnter cs).1 <+: cs ∧
    ((enterAll onEnter cs).2 = none ↔ ∀ c ∈ cs, onEnter c = none) ∧
    ((enterAll onEnter cs).2 = none → enters (enterAll onEnter cs).1 = cs) := by
  induction cs with
  | nil => simp [enterAll, exits, enters]
  | cons c cs ih =>
      obtain ⟨hexits, hprefix, hnone, hall⟩ := ih
      rw [enterAll]
      cases hc : onEnter c with
      | some e => simp [exits, enters, hc]
      | none => simpa [exits, enters, hc, hexits, hnone, List.cons_prefix_cons, hprefix] using hall

/-- Exiting enters nothing, and exits all components up to one that raises. -/
theorem exitAll_spec : enters (exitAll onExit cs).1 = [] ∧
    exits (exitAll onExit cs).1 <+: cs ∧
    ((exitAll onExit cs).2 = none ↔ ∀ c ∈ cs, onExit c = none) ∧
    ((exitAll onExit cs).2 = none → exits (exitAll onExit cs).1 = cs) := by
  induction cs with
  | nil => simp [exitAll, exits, enters]
  | cons c cs ih =>
      obtain ⟨henters, hprefix, hnone, hall⟩ := ih
      rw [exitAll]
      cases hc : onExit c with
      | some e => simp [exits, enters, hc]
      | none => simpa [exits, enters, hc, henters, hnone, List.cons_prefix_cons, hprefix] using hall

end Events

/-! ## Rounds -/

variable {m : Manifest M} {faults : Faults M ε} {entered : Bool}

theorem exitOrder_eq : m.exitOrder = m.components.reverse := by
  rw [exitOrder, components, List.reverse_append]

/-- A manifest that was entered without an error was not before, its references are to what it
serves, and all its components were entered. -/
theorem aenter_spec (h : (m.aenter faults entered).error = none) :
    entered = false ∧ validateReferences (ε := ε) m.resources = .ok () ∧
      (∀ c ∈ m.components, faults.onEnter c = none) ∧
      enters (m.aenter faults entered).events = m.components := by
  unfold aenter at h ⊢
  split at h
  · cases h
  next hentered =>
  split at h
  · cases h
  next hvalid =>
  obtain ⟨-, -, hnone, hall⟩ := enterAll_spec faults.onEnter m.components
  have hquiet := Option.map_eq_none_iff.mp h
  rw [if_neg hentered, hvalid]
  exact ⟨by simpa using hentered, rfl, hnone.mp hquiet, hall hquiet⟩

/-- Whatever raises, a manifest is entered after `__aenter__`, which exits nothing. -/
theorem aenter_entered : (m.aenter faults entered).entered = true ∧ exits (m.aenter faults entered).events = [] := by
  unfold aenter
  split
  · exact ⟨rfl, rfl⟩
  split
  · exact ⟨rfl, rfl⟩
  · exact ⟨rfl, (enterAll_spec _ _).1⟩

/-- **Only what was entered is exited**, once and in the reverse order, whatever raises. -/
theorem round_exits_prefix : exits (m.round entered faults).events <+:
    (enters (m.round entered faults).events).reverse := by
  unfold round
  split
  · rw [aenter_entered.2]
    exact List.nil_prefix
  · next h =>
      obtain ⟨-, -, -, henters⟩ := aenter_spec (by simpa using h)
      obtain ⟨hnone, hprefix, -, -⟩ := exitAll_spec faults.onExit m.exitOrder
      have hexit : enters (m.aexit faults).events = [] := hnone
      rw [exits_append, enters_append, aenter_entered.2, henters, hexit, List.nil_append, List.append_nil,
        ← exitOrder_eq]
      exact hprefix

/-- A round of a manifest that is not entered is as it should be exactly if nothing raises in it. -/
theorem lifecycle_iff_quiet : Lifecycle (m.round false faults) ↔ m.Quiet faults := by
  obtain ⟨henters, -, hnone, hall⟩ := exitAll_spec faults.onExit m.exitOrder
  constructor
  · rintro ⟨-, hentered⟩
    unfold round at hentered
    split at hentered
    · rw [aenter_entered.1] at hentered
      cases hentered
    · next h =>
        obtain ⟨-, hvalid, henter, -⟩ := aenter_spec (by simpa using h)
        have hexit := hnone.mp (Option.not_isSome_iff_eq_none.mp (Bool.eq_false_iff.mp hentered))
        refine ⟨hvalid, fun c hc => ⟨henter c hc, hexit c ?_⟩⟩
        rw [exitOrder_eq]
        exact List.mem_reverse.mpr hc
  · rintro ⟨hvalid, hquiet⟩
    have henterNone := (enterAll_spec faults.onEnter m.components).2.2.1.mpr
      fun c hc => (hquiet c hc).1
    have hexitNone := hnone.mpr fun c hc => (hquiet c (by
      rw [exitOrder_eq] at hc
      exact List.mem_reverse.mp hc)).2
    have herror : (m.aenter faults false).error = none := by
      simp [aenter, hvalid, henterNone]
    obtain ⟨-, -, -, hcomponents⟩ := aenter_spec herror
    have hround : m.round false faults = ⟨(m.aenter faults false).events ++ (m.aexit faults).events,
        (m.aexit faults).entered, (m.aexit faults).error⟩ := if_neg (by simp [herror])
    rw [hround]
    constructor
    · have hexitEnters : enters (m.aexit faults).events = [] := henters
      have hexitExits : exits (m.aexit faults).events = m.exitOrder := hall hexitNone
      rw [exits_append, enters_append, aenter_entered.2, hcomponents, hexitEnters, hexitExits,
        List.nil_append, List.append_nil, exitOrder_eq]
    · show Option.isSome _ = false
      rw [hexitNone]
      rfl

/-- **The rounds are as they should be exactly if nothing raises in any of them.** -/
theorem rounds_lifecycle_iff (m : Manifest M) (run : List (Faults M ε)) :
    (∀ o ∈ m.rounds false run, Lifecycle o) ↔ ∀ faults ∈ run, m.Quiet faults := by
  induction run with
  | nil => simp [rounds]
  | cons faults run ih =>
      rw [rounds, List.forall_mem_cons, List.forall_mem_cons, lifecycle_iff_quiet]
      refine and_congr_right fun hquiet => ?_
      rw [(lifecycle_iff_quiet.mpr hquiet).entered]
      exact ih

/-- A resource that raises as it is entered leaves the manager before it open, and the manifest can
never be entered again. -/
theorem rounds_not_lifecycle_stuck :
    let m : Manifest String := ⟨["sessions"], [⟨"threads", none⟩]⟩
    let faulty : Faults String String :=
      ⟨fun c => if c.isRight then some "no connection" else none, fun _ => none⟩
    let quiet : Faults String String := ⟨fun _ => none, fun _ => none⟩
    (m.round false faulty).events = [.entered (.inl "sessions")] ∧
      (m.round (m.round false faulty).entered quiet).error = some .alreadyEntered ∧
      ¬ ∀ o ∈ m.rounds false [faulty, quiet], Lifecycle o := by
  intro m faulty quiet
  refine ⟨rfl, rfl, ?_⟩
  intro h
  have hentered := (h _ List.mem_cons_self).entered
  cases hentered

end Manifest

end Resourcey
