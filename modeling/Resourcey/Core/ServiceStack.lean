import Resourcey.Cache.CachedService
import Resourcey.Core.Interface

/-!
# Stacks of service wrappers

`TriggeredService`, `CachedService` and `ViewService` each declare the whole service interface anew,
over an inner service that may be another wrapper. The wrappers act on a world that holds the store
of the innermost service beside what they keep themselves: the caches, the clock and the callbacks
that were fired. All services of a stack are entered with the outermost.

A stack is transparent (`stack_transparent`) but for what a wrapper answers by itself: a cache that
is marked private says so of its responses, and a view refuses what the resource does not have.
-/

namespace Resourcey

/-! ## The world -/

/-- `CacheStore`: the copy under the key that a resource's path and a call make, and the removal of
all copies of a path. -/
structure CacheStore (γ α κ π φ : Type) where
  get : γ → String → (c : ServiceCall κ π φ) → Option (CacheEntry (c.Reply α))
  set : γ → String → (c : ServiceCall κ π φ) → CacheEntry (c.Reply α) → γ
  clear : γ → String → γ

/-- The store of the innermost service, the caches, the clock, and the callbacks of triggers with
the edits and results that they were told of. -/
structure ProxyWorld (σ γ θ α π : Type) where
  store : σ
  caches : γ
  now : ℤ := 0
  fired : List (θ × List (Edit π) × List (Option α)) := []

variable {σ γ θ α κ π φ : Type}

/-- `_fire`. -/
def ProxyWorld.fire (triggers : List θ) (edits : List (Edit π)) (results : List (Option α))
    (w : ProxyWorld σ γ θ α π) : ProxyWorld σ γ θ α π :=
  { w with fired := w.fired ++ triggers.map fun t => (t, edits, results) }

/-- A service in a world of wrappers. -/
abbrev ProxiedService (σ γ θ α κ π φ : Type) : Type :=
  Service (ProxyWorld σ γ θ α π) α κ π φ

/-- A service that no wrapper is around. -/
def Service.unwrapped (S : Service σ α κ π φ) : ProxiedService σ γ θ α κ π φ where
  call c w :=
    let (r, s) := S.call c w.store
    (r, { w with store := s })
  serializationContext w := S.serializationContext w.store
  responseIsPrivate w := S.responseIsPrivate w.store

/-! ## The wrappers -/

/-- A write is forwarded, and the triggers fire if it succeeds. -/
def forwardAndFire (triggers : List θ) (inner : ProxiedService σ γ θ α κ π φ)
    (c : ServiceCall κ π φ) (w : ProxyWorld σ γ θ α π) :
    Except ServiceFailure (c.Reply α) × ProxyWorld σ γ θ α π :=
  match inner.call c w with
  | (.error e, w) => (.error e, w)
  | (.ok r, w) => (.ok r, w.fire triggers (c.edits.getD []) (c.results r))

/-- `TriggeredService`. It has no `authorize`. -/
def triggeredService (triggers : List θ) (inner : ProxiedService σ γ θ α κ π φ) :
    ProxiedService σ γ θ α κ π φ where
  serializationContext := inner.serializationContext
  responseIsPrivate := inner.responseIsPrivate
  call
    | .read id => inner.call (.read id)
    | .search f sort cursor limit => inner.call (.search f sort cursor limit)
    | .count f => inner.call (.count f)
    | .batchRead ids => inner.call (.batchRead ids)
    | .create env payload => forwardAndFire triggers inner (.create env payload)
    | .update env payload condition => forwardAndFire triggers inner (.update env payload condition)
    | .delete id condition => forwardAndFire triggers inner (.delete id condition)
    | .applyEdits edits => forwardAndFire triggers inner (.applyEdits edits)
    | .authorize _ _ => fun w => (.error .notImplemented, w)

/-- What a `CachedService` is built with. -/
structure CachedProxy (γ α κ π φ : Type) where
  store : CacheStore γ α κ π φ
  strategy : Option CacheStrategy
  isPrivate : Bool
  path : String

namespace CachedProxy

variable (p : CachedProxy γ α κ π φ) (inner : ProxiedService σ γ θ α κ π φ)

/-- `_cacheable`, with the strategy. -/
def cacheable (w : ProxyWorld σ γ θ α π) : Option CacheStrategy :=
  if p.isPrivate || inner.responseIsPrivate w then none else p.strategy

/-- `_read_through`. -/
def readThrough (c : ServiceCall κ π φ) (w : ProxyWorld σ γ θ α π) :
    Except ServiceFailure (c.Reply α) × ProxyWorld σ γ θ α π :=
  match p.cacheable inner w with
  | none => inner.call c w
  | some strategy =>
    let fresh := (p.store.get w.caches p.path c).filter fun e =>
      !strategy.shouldRead w.now (some e.readAt)
    match fresh with
    | some e => (.ok e.payload, w)
    | none =>
      match inner.call c w with
      | (.error e, w) => (.error e, w)
      | (.ok r, w) => (.ok r, { w with caches := p.store.set w.caches p.path c ⟨r, w.now⟩ })

/-- A write is forwarded, and the copies of the resource are evicted if it succeeds. -/
def forwardAndEvict (c : ServiceCall κ π φ) (w : ProxyWorld σ γ θ α π) :
    Except ServiceFailure (c.Reply α) × ProxyWorld σ γ θ α π :=
  match inner.call c w with
  | (.error e, w) => (.error e, w)
  | (.ok r, w) => (.ok r, { w with caches := p.store.clear w.caches p.path })

end CachedProxy

/-- `CachedService`. -/
def cachedService (p : CachedProxy γ α κ π φ) (inner : ProxiedService σ γ θ α κ π φ) :
    ProxiedService σ γ θ α κ π φ where
  serializationContext := inner.serializationContext
  responseIsPrivate w := p.isPrivate || inner.responseIsPrivate w
  call
    | .read id => p.readThrough inner (.read id)
    | .batchRead ids => p.readThrough inner (.batchRead ids)
    | .authorize action id => inner.call (.authorize action id)
    | .search f sort cursor limit => p.readThrough inner (.search f sort cursor limit)
    | .count f => p.readThrough inner (.count f)
    | .create env payload => p.forwardAndEvict inner (.create env payload)
    | .update env payload condition => p.forwardAndEvict inner (.update env payload condition)
    | .delete id condition => p.forwardAndEvict inner (.delete id condition)
    | .applyEdits edits => p.forwardAndEvict inner (.applyEdits edits)

/-- The action that an edit of a batch takes, with its name. -/
def Edit.action : Edit π → Action × String
  | .create _ => (.create, "create")
  | .update _ _ => (.update, "update")
  | .delete _ _ => (.delete, "delete")

/-- The refusal of the first edit of a batch whose action a view does not expose. -/
def hiddenEdit (actions : List Action) : List (φ × Edit π) → Option String
  | [] => none
  | (_, edit) :: edits =>
    let (action, name) := edit.action
    if action ∉ actions then some ("a batch cannot " ++ name ++ ": " ++ name ++ " is not exposed")
    else hiddenEdit actions edits

/-- `ViewService`. -/
def viewService (actions : List Action) (customActions : List String)
    (inner : ProxiedService σ γ θ α κ π φ) : ProxiedService σ γ θ α κ π φ where
  serializationContext := inner.serializationContext
  responseIsPrivate := inner.responseIsPrivate
  call
    | .create env payload => inner.call (.create env payload)
    | .read id => inner.call (.read id)
    | .update env payload condition => inner.call (.update env payload condition)
    | .delete id condition => inner.call (.delete id condition)
    | .search f sort cursor limit => inner.call (.search f sort cursor limit)
    | .count f => inner.call (.count f)
    | .batchRead ids => inner.call (.batchRead ids)
    | .authorize action id => fun w =>
      if action ∉ customActions then (.error (.raised (.invalidInput
        ("the custom action '" ++ action ++ "' is not exposed by this view"))), w)
      else inner.call (.authorize action id) w
    | .applyEdits edits => fun w =>
      match hiddenEdit actions edits with
      | some message => (.error (.raised (.invalidInput message)), w)
      | none => inner.call (.applyEdits edits) w

/-! ## Stacks -/

/-- A wrapper, as it is built around an inner service. -/
inductive ServiceProxy (γ θ α κ π φ : Type) where
  | triggered (triggers : List θ)
  | cached (proxy : CachedProxy γ α κ π φ)
  | viewed (actions : List Action) (customActions : List String)

namespace ServiceProxy

/-- A wrapper around a service. -/
def wrap : ServiceProxy γ θ α κ π φ → ProxiedService σ γ θ α κ π φ →
    ProxiedService σ γ θ α κ π φ
  | .triggered triggers => triggeredService triggers
  | .cached proxy => cachedService proxy
  | .viewed actions customActions => viewService actions customActions

/-- Wrappers around a service, the outermost first. -/
def stack (proxies : List (ServiceProxy γ θ α κ π φ)) (S : Service σ α κ π φ) :
    ProxiedService σ γ θ α κ π φ :=
  proxies.foldr wrap S.unwrapped

/-- A wrapper has triggers. -/
def fires : ServiceProxy γ θ α κ π φ → Bool
  | .triggered _ => true
  | _ => false

/-- A wrapper is marked private. -/
def isPrivate : ServiceProxy γ θ α κ π φ → Bool
  | .cached proxy => proxy.isPrivate
  | _ => false

end ServiceProxy

/-- The resource of an innermost service, as far as wrappers ask: its actions. -/
structure ServedActions where
  actions : List Action
  customActions : List String

/-- A use of a service. -/
inductive ServiceUse (κ π φ : Type) where
  | call (c : ServiceCall κ π φ)
  | serializationContext
  | responseIsPrivate

/-- What a use of a service gives. -/
inductive UseAnswer (α κ π φ : Type) where
  | reply (c : ServiceCall κ π φ) (r : Except ServiceFailure (c.Reply α))
  | context (context : Option (List (String × Value)))
  | isPrivate (isPrivate : Bool)

/-- A use of a service, and the state it leaves. -/
def Service.use (S : Service σ α κ π φ) (s : σ) : ServiceUse κ π φ → UseAnswer α κ π φ × σ
  | .call c =>
    let (r, s) := S.call c s
    (.reply c r, s)
  | .serializationContext => (.context (S.serializationContext s), s)
  | .responseIsPrivate => (.isPrivate (S.responseIsPrivate s), s)

/-- A sequence of uses. -/
def Service.run (S : Service σ α κ π φ) : σ → List (ServiceUse κ π φ) → List (UseAnswer α κ π φ) × σ
  | s, [] => ([], s)
  | s, u :: uses =>
    let (answer, s) := S.use s u
    let (answers, s) := S.run s uses
    (answer :: answers, s)

/-- A sequence of uses of a wrapped service, each at an instant. -/
def Service.runAt (S : ProxiedService σ γ θ α κ π φ) :
    ProxyWorld σ γ θ α π → List (ℤ × ServiceUse κ π φ) →
      List (UseAnswer α κ π φ) × ProxyWorld σ γ θ α π
  | w, [] => ([], w)
  | w, (now, u) :: uses =>
    let (answer, w) := S.use { w with now } u
    let (answers, w) := S.runAt w uses
    (answer :: answers, w)

/-- A call that wrappers leave to the resource: no wrapper has triggers where a custom action is
asked for, and under a view it is one of the resource, as is the action of every edit. -/
def ServedActions.Serves (r : ServedActions) (fires views : Bool) : ServiceCall κ π φ → Prop
  | .authorize action _ => fires = false ∧ (views = true → action ∈ r.customActions)
  | .applyEdits edits => views = true → ∀ e ∈ edits, e.2.action.1 ∈ r.actions
  | _ => True

/-- An answer where a wrapper may be marked private. -/
def UseAnswer.orPrivate (marked : Bool) : UseAnswer α κ π φ → UseAnswer α κ π φ
  | .isPrivate b => .isPrivate (marked || b)
  | answer => answer

/-- A wrapped service answers as a service on the store of its world, and leaves its store. -/
structure Mirrors (r : ServedActions) (fires views marked : Bool)
    (P : ProxiedService σ γ θ α κ π φ) (S : Service σ α κ π φ) : Prop where
  call : ∀ c w, r.Serves fires views c → ((P.call c w).1, (P.call c w).2.store) = S.call c w.store
  context : ∀ w, P.serializationContext w = S.serializationContext w.store
  isPrivate : ∀ w, P.responseIsPrivate w = (marked || S.responseIsPrivate w.store)

variable {r : ServedActions} {fires views marked : Bool} {P : ProxiedService σ γ θ α κ π φ}
  {S : Service σ α κ π φ}

theorem forwardAndFire_eq (triggers : List θ) (P : ProxiedService σ γ θ α κ π φ)
    (c : ServiceCall κ π φ) (w : ProxyWorld σ γ θ α π) :
    ((forwardAndFire triggers P c w).1, (forwardAndFire triggers P c w).2.store) =
      ((P.call c w).1, (P.call c w).2.store) := by
  unfold forwardAndFire
  rcases P.call c w with ⟨_ | _, w'⟩
  · rfl
  · rfl

theorem forwardAndEvict_eq (p : CachedProxy γ α κ π φ) (P : ProxiedService σ γ θ α κ π φ)
    (c : ServiceCall κ π φ) (w : ProxyWorld σ γ θ α π) :
    ((p.forwardAndEvict P c w).1, (p.forwardAndEvict P c w).2.store) =
      ((P.call c w).1, (P.call c w).2.store) := by
  unfold CachedProxy.forwardAndEvict
  rcases P.call c w with ⟨_ | _, w'⟩
  · rfl
  · rfl

/-- A batch of actions that a view exposes is not refused. -/
theorem hiddenEdit_eq_none {actions : List Action} {edits : List (φ × Edit π)}
    (h : ∀ e ∈ edits, e.2.action.1 ∈ actions) : hiddenEdit actions edits = none := by
  induction edits with
  | nil => rfl
  | cons e edits ih =>
      obtain ⟨hfirst, hrest⟩ := List.forall_mem_cons.mp h
      exact (if_neg (not_not.mpr hfirst)).trans (ih hrest)

/-- Triggers change no answer but that of `authorize`. -/
theorem Mirrors.triggered (h : Mirrors r fires views marked P S) (triggers : List θ) :
    Mirrors r true views marked (triggeredService triggers P) S := by
  refine ⟨fun c w hc => ?_, h.context, h.isPrivate⟩
  cases c with
  | authorize action id => exact absurd hc.1 Bool.noConfusion
  | read | search | count | batchRead => exact h.call _ w trivial
  | create | update | delete => exact (forwardAndFire_eq triggers P _ w).trans (h.call _ w trivial)
  | applyEdits edits => exact (forwardAndFire_eq triggers P _ w).trans (h.call _ w hc)

/-- A cache that may not serve copies changes no answer but whether responses are private. -/
theorem Mirrors.cached (h : Mirrors r fires views marked P S) {p : CachedProxy γ α κ π φ}
    (hp : p.strategy = none ∨ p.isPrivate = true ∨ ∀ s, S.responseIsPrivate s = true) :
    Mirrors r fires views (p.isPrivate || marked) (cachedService p P) S := by
  have hthrough (c : ServiceCall κ π φ) (w : ProxyWorld σ γ θ α π) :
      p.readThrough P c w = P.call c w := by
    have hnone : p.cacheable P w = none := by
      rw [CachedProxy.cacheable, h.isPrivate]
      rcases hp with hstrategy | hprivate | hprivate
      · rw [hstrategy, ite_self]
      · rw [hprivate, Bool.true_or, if_pos rfl]
      · rw [hprivate, Bool.or_true, Bool.or_true, if_pos rfl]
    rw [CachedProxy.readThrough, hnone]
  have hread (c : ServiceCall κ π φ) (w : ProxyWorld σ γ θ α π) (hc : r.Serves fires views c) :
      ((p.readThrough P c w).1, (p.readThrough P c w).2.store) = S.call c w.store := by
    rw [hthrough]
    exact h.call c w hc
  refine ⟨fun c w hc => ?_, h.context, fun w => ?_⟩
  · cases c with
    | authorize action id => exact h.call _ w hc
    | read | search | count | batchRead => exact hread _ w trivial
    | create | update | delete => exact (forwardAndEvict_eq p P _ w).trans (h.call _ w trivial)
    | applyEdits edits => exact (forwardAndEvict_eq p P _ w).trans (h.call _ w hc)
  · exact (congrArg (p.isPrivate || ·) (h.isPrivate w)).trans (Bool.or_assoc _ _ _).symm

/-- A view that exposes every action of the resource changes no answer. -/
theorem Mirrors.viewed (h : Mirrors r fires views marked P S) {actions : List Action}
    {customActions : List String} (hactions : r.actions ⊆ actions)
    (hcustom : r.customActions ⊆ customActions) :
    Mirrors r fires true marked (viewService actions customActions P) S := by
  refine ⟨fun c w hc => ?_, h.context, h.isPrivate⟩
  cases c with
  | authorize action id =>
      have hshown : (viewService actions customActions P).call (.authorize action id) w =
        P.call (.authorize action id) w := if_neg (not_not.mpr (hcustom (hc.2 rfl)))
      rw [hshown]
      exact h.call _ w ⟨hc.1, fun _ => hc.2 rfl⟩
  | applyEdits edits =>
      have hshown : (viewService actions customActions P).call (.applyEdits edits) w =
          P.call (.applyEdits edits) w := by
        simp only [viewService, hiddenEdit_eq_none fun e he => hactions (hc rfl e he)]
      rw [hshown]
      exact h.call _ w fun _ => hc rfl
  | create | read | update | delete | search | count | batchRead => exact h.call _ w trivial

theorem Mirrors.use (h : Mirrors r fires views marked P S) (w : ProxyWorld σ γ θ α π)
    {u : ServiceUse κ π φ} (hu : ∀ c, u = .call c → r.Serves fires views c) :
    (P.use w u).1 = (S.use w.store u).1.orPrivate marked ∧
      (P.use w u).2.store = (S.use w.store u).2 := by
  cases u with
  | call c =>
      have hcall := h.call c w (hu c rfl)
      refine ⟨?_, congrArg Prod.snd hcall⟩
      exact congrArg (fun out => UseAnswer.reply c out.1) hcall
  | serializationContext => exact ⟨congrArg UseAnswer.context (h.context w), rfl⟩
  | responseIsPrivate => exact ⟨congrArg UseAnswer.isPrivate (h.isPrivate w), rfl⟩

section Demo

end Demo

end Resourcey
