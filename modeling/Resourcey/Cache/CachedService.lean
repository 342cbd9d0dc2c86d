import Resourcey.Cache.CacheStrategy
import Resourcey.Logic.Trace
import Resourcey.Sql.SqlService

/-!
# The read-through cache

One cache shared by any number of services over one transactional store, each service with a
session of its own: it sees what is committed under its own writes, and what it writes is committed
when it exits. A read looks its key up, fetches from the session when there is no fresh copy, and
then fills the cache; a write goes to the session and then evicts every copy. Between any two of
these steps the other services may take theirs.

A write evicts before it is committed, and a fetch fills after it, so a copy of what the table held
before a write may be put back after the eviction and outlive the commit (`read_after_commit_stale`),
and a transaction may cache what it has itself written. `reads_truthful` is the run theorem for the
runs in which a commit changes nothing that is cached or about to be.

The ghosts are `past`, the states committed earlier, and the answers that were given, each with the
states committed between the start of its read and its end.
-/

namespace Resourcey

/-- A cached copy. Under an optimistic strategy it has no validator. -/
structure CacheEntry (α : Type) where
  payload : α
  readAt : ℤ
  deriving DecidableEq

/-- A caching resource: its strategy, which services answer for one caller only, and what the inner
service answers to a read of a key when it sees a state of the store. -/
structure CachedResource (π σ κ α : Type) where
  strategy : CacheStrategy
  isPrivate : π → Bool
  fetch : κ → σ → Except ResourceyError α

/-- Where a service is between two awaits; a read remembers how many commits there were when it
started. -/
inductive CachedTask (κ α : Type) where
  | closed
  | entered
  | fetching (key : κ) (start : ℕ)
  | filling (key : κ) (start : ℕ) (payload : α)
  | evicting
  deriving DecidableEq

/-- The key that a read is about to fill. -/
def CachedTask.fills {κ α : Type} : CachedTask κ α → Option κ
  | .filling key _ _ => some key
  | _ => none

/-- The key that a read is about to fetch. -/
def CachedTask.fetches {κ α : Type} : CachedTask κ α → Option κ
  | .fetching key _ => some key
  | _ => none

/-- An answer to a read: what its reader had itself written by then, and the states that were
committed from the start of the read to its end. -/
structure CachedAnswer (σ κ α : Type) where
  key : κ
  value : Except ResourceyError α
  own : σ → σ
  versions : List σ

/-- The store, the sessions, the cache and the services. -/
structure CachedState (π σ κ α : Type) where
  committed : σ
  past : List σ := []
  session : π → σ → σ := fun _ => id
  task : π → CachedTask κ α := fun _ => .closed
  cache : κ → Option (CacheEntry α) := fun _ => none
  answers : List (CachedAnswer σ κ α) := []

/-- What a service may do next. `abandon` is an exception that leaves an action of the service. -/
inductive CachedAction (π σ κ : Type) where
  | enter (p : π)
  | lookup (p : π) (key : κ) (now : ℤ)
  | fetch (p : π)
  | fill (p : π) (now : ℤ)
  | write (p : π) (change : σ → σ)
  | evict (p : π)
  | abandon (p : π)
  | exit (p : π) (succeeds : Bool)

variable {π σ κ α : Type} [DecidableEq π] [DecidableEq κ]

namespace CachedState

/-- The states committed since a number of commits, the current one first. -/
def since (s : CachedState π σ κ α) (start : ℕ) : List σ :=
  (s.committed :: s.past).take (s.past.length + 1 - start)

/-- What a session sees. -/
def view (s : CachedState π σ κ α) (p : π) : σ := s.session p s.committed

def setTask (s : CachedState π σ κ α) (p : π) (x : CachedTask κ α) : CachedState π σ κ α :=
  { s with task := Function.update s.task p x }

def setSession (s : CachedState π σ κ α) (p : π) (f : σ → σ) : CachedState π σ κ α :=
  { s with session := Function.update s.session p f }

omit [DecidableEq κ] in
theorem setTask_task (s : CachedState π σ κ α) (p q : π) (x : CachedTask κ α) :
    (s.setTask p x).task q = if q = p then x else s.task q :=
  Function.update_apply _ _ _ _

/-- An answer is given to a read. -/
def give (s : CachedState π σ κ α) (p : π) (key : κ) (start : ℕ)
    (value : Except ResourceyError α) : CachedState π σ κ α :=
  { s with answers := ⟨key, value, s.session p, s.since start⟩ :: s.answers }

end CachedState

/-- The copy a lookup serves. -/
def CachedResource.served (r : CachedResource π σ κ α) (s : CachedState π σ κ α) (p : π) (key : κ)
    (now : ℤ) : Option α :=
  match s.cache key with
  | none => none
  | some e =>
    if r.isPrivate p ∨ r.strategy.shouldRead now (some e.readAt) then none else some e.payload

/-- The next state. -/
def cachedStep (r : CachedResource π σ κ α) (s : CachedState π σ κ α) :
    CachedAction π σ κ → Option (CachedState π σ κ α)
  | .enter p =>
    match s.task p with
    | .closed => s.setTask p .entered
    | _ => none
  | .lookup p key now =>
    match s.task p with
    | .entered =>
      match r.served s p key now with
      | some payload => s.give p key s.past.length (.ok payload)
      | none => s.setTask p (.fetching key s.past.length)
    | _ => none
  | .fetch p =>
    match s.task p with
    | .fetching key start =>
      match r.fetch key (s.view p) with
      | .ok payload => s.setTask p (.filling key start payload)
      | .error e => (s.give p key start (.error e)).setTask p .entered
    | _ => none
  | .fill p now =>
    match s.task p with
    | .filling key start payload =>
      let s' := if r.isPrivate p then s
        else { s with cache := Function.update s.cache key (some ⟨payload, now⟩) }
      (s'.give p key start (.ok payload)).setTask p .entered
    | _ => none
  | .write p change =>
    match s.task p with
    | .entered | .evicting => (s.setSession p (change ∘ s.session p)).setTask p .evicting
    | _ => none
  | .evict p =>
    match s.task p with
    | .evicting => ({ s with cache := fun _ => none } : CachedState π σ κ α).setTask p .entered
    | _ => none
  | .abandon p =>
    match s.task p with
    | .closed => none
    | _ => s.setTask p .entered
  | .exit p succeeds =>
    match s.task p, succeeds with
    | .closed, _ => none
    | .entered, true =>
      (({ s with committed := s.view p, past := s.committed :: s.past } :
        CachedState π σ κ α).setSession p id).setTask p .closed
    | _, true => none
    | _, false => (s.setSession p id).setTask p .closed

/-! ## What a step does -/

/-- What a step does, branch by branch. -/
inductive CachedEffect (r : CachedResource π σ κ α) (s : CachedState π σ κ α) :
    CachedAction π σ κ → CachedState π σ κ α → Prop
  | enter {p} : CachedEffect r s (.enter p) (s.setTask p .entered)
  | hit {p key now e} : s.cache key = some e →
      CachedEffect r s (.lookup p key now) (s.give p key s.past.length (.ok e.payload))
  | miss {p key now} :
      CachedEffect r s (.lookup p key now) (s.setTask p (.fetching key s.past.length))
  | fetched {p key start payload} : s.task p = .fetching key start →
      r.fetch key (s.view p) = .ok payload →
      CachedEffect r s (.fetch p) (s.setTask p (.filling key start payload))
  | failed {p key start e} : s.task p = .fetching key start →
      r.fetch key (s.view p) = .error e →
      CachedEffect r s (.fetch p) ((s.give p key start (.error e)).setTask p .entered)
  | filled {p now key start payload} : s.task p = .filling key start payload →
      r.isPrivate p = false → CachedEffect r s (.fill p now)
        ((({ s with cache := Function.update s.cache key (some ⟨payload, now⟩) } :
          CachedState π σ κ α).give p key start (.ok payload)).setTask p .entered)
  | passed {p now key start payload} : s.task p = .filling key start payload →
      CachedEffect r s (.fill p now) ((s.give p key start (.ok payload)).setTask p .entered)
  | write {p change} : (s.task p).fills = none →
      CachedEffect r s (.write p change)
        ((s.setSession p (change ∘ s.session p)).setTask p .evicting)
  | evict {p} : CachedEffect r s (.evict p)
      (({ s with cache := fun _ => none } : CachedState π σ κ α).setTask p .entered)
  | abandon {p} : CachedEffect r s (.abandon p) (s.setTask p .entered)
  | commit {p} : (s.task p).fills = none → CachedEffect r s (.exit p true)
      ((({ s with committed := s.view p, past := s.committed :: s.past } :
        CachedState π σ κ α).setSession p id).setTask p .closed)
  | rollback {p} : CachedEffect r s (.exit p false) ((s.setSession p id).setTask p .closed)

section Effect

variable {r : CachedResource π σ κ α} {s t : CachedState π σ κ α} {a : CachedAction π σ κ}

omit [DecidableEq π] [DecidableEq κ] in
/-- What a lookup serves is a copy. -/
theorem CachedResource.served_eq {p : π} {key : κ} {now : ℤ} {payload : α}
    (h : r.served s p key now = some payload) : ∃ e, s.cache key = some e ∧ e.payload = payload := by
  unfold CachedResource.served at h
  split at h
  · cases h
  · next e he =>
      split at h
      · cases h
      · cases h
        exact ⟨e, he, rfl⟩

/-- **What a step does.** -/
theorem cached_effect (h : cachedStep r s a = some t) : CachedEffect r s a t := by
  cases a with
  | enter p =>
      simp only [cachedStep] at h
      split at h
      · cases h
        exact .enter
      · cases h
  | lookup p key now =>
      simp only [cachedStep] at h
      split at h
      · split at h
        · next payload hserved =>
            obtain ⟨e, he, rfl⟩ := CachedResource.served_eq hserved
            cases h
            exact .hit he
        · cases h
          exact .miss
      · cases h
  | fetch p =>
      simp only [cachedStep] at h
      split at h
      · next hfetching =>
          split at h
          · next hpayload =>
              cases h
              exact .fetched hfetching hpayload
          · next herror =>
              cases h
              exact .failed hfetching herror
      · cases h
  | fill p now =>
      simp only [cachedStep] at h
      split at h
      · next hfilling =>
          cases hprivate : r.isPrivate p with
          | true =>
              rw [hprivate, if_pos rfl] at h
              cases h
              exact .passed hfilling
          | false =>
              rw [hprivate, if_neg Bool.false_ne_true] at h
              cases h
              exact .filled hfilling hprivate
      · cases h
  | write p change =>
      simp only [cachedStep] at h
      split at h
      · next hentered =>
          cases h
          exact .write (by rw [hentered]; rfl)
      · next hevicting =>
          cases h
          exact .write (by rw [hevicting]; rfl)
      · cases h
  | evict p =>
      simp only [cachedStep] at h
      split at h
      · cases h
        exact .evict
      · cases h
  | abandon p =>
      simp only [cachedStep] at h
      split at h
      · cases h
      · cases h
        exact .abandon
  | exit p succeeds =>
      simp only [cachedStep] at h
      split at h
      · cases h
      · next hentered =>
          cases h
          exact .commit (by rw [hentered]; rfl)
      · cases h
      · cases h
        exact .rollback

end Effect

/-! ## Truthful answers -/

namespace CachedAction

omit [DecidableEq π] [DecidableEq κ] in
/-- The service that commits. -/
def commits : CachedAction π σ κ → Option π
  | .exit p true => some p
  | _ => none

omit [DecidableEq π] [DecidableEq κ] in
/-- The service that fetches. -/
def fetches : CachedAction π σ κ → Option π
  | .fetch p => some p
  | _ => none

end CachedAction

section Conditions

omit [DecidableEq π] [DecidableEq κ]

/-- Every answer reflects what was committed before its read started and nothing that was not
committed by its end: it is the answer under a state of that time, or under the reader's own writes
to one. -/
def Truthful (r : CachedResource π σ κ α) (s : CachedState π σ κ α) : Prop :=
  ∀ a ∈ s.answers, ∃ v ∈ a.versions,
    a.value = r.fetch a.key v ∨ a.value = r.fetch a.key (a.own v)

/-- The answer to a key is cached, or about to be. -/
def Copied (r : CachedResource π σ κ α) (s : CachedState π σ κ α) (key : κ) : Prop :=
  (s.cache key).isSome ∨ ∃ p, r.isPrivate p = false ∧ key ∈ (s.task p).fills

/-- A commit changes the answer to no key that is copied, and what is fetched to be cached is not
changed by the reader's own writes. -/
def KeepsCopies (r : CachedResource π σ κ α) (s : CachedState π σ κ α)
    (a : CachedAction π σ κ) : Prop :=
  (∀ p ∈ a.commits, ∀ key, Copied r s key → r.fetch key (s.view p) = r.fetch key s.committed) ∧
    ∀ p ∈ a.fetches, r.isPrivate p = false →
      ∀ key ∈ (s.task p).fetches, r.fetch key (s.view p) = r.fetch key s.committed

end Conditions

omit [DecidableEq π] [DecidableEq κ] in
instance [DecidableEq α] (r : CachedResource π σ κ α) (s : CachedState π σ κ α) :
    Decidable (Truthful r s) :=
  inferInstanceAs (Decidable (∀ a ∈ s.answers, ∃ v ∈ a.versions, _ ∨ _))

omit [DecidableEq π] in
instance [Fintype π] (r : CachedResource π σ κ α) (s : CachedState π σ κ α) (key : κ) :
    Decidable (Copied r s key) :=
  inferInstanceAs (Decidable (_ ∨ ∃ p, r.isPrivate p = false ∧ key ∈ (s.task p).fills))

omit [DecidableEq π] in
instance [Fintype π] [Fintype κ] [DecidableEq α] (r : CachedResource π σ κ α)
    (s : CachedState π σ κ α) (a : CachedAction π σ κ) : Decidable (KeepsCopies r s a) :=
  inferInstanceAs (Decidable ((∀ p ∈ a.commits, ∀ key, Copied r s key → _) ∧
    ∀ p ∈ a.fetches, r.isPrivate p = false → ∀ key ∈ (s.task p).fetches, _))

/-- The copies are what is committed, and so is what a read is about to cache. -/
structure Copies (r : CachedResource π σ κ α) (s : CachedState π σ κ α) : Prop where
  cached : ∀ key e, s.cache key = some e → r.fetch key s.committed = .ok e.payload
  started : ∀ p key start, s.task p = .fetching key start → start ≤ s.past.length
  fetched : ∀ p key start payload, s.task p = .filling key start payload →
    ∃ v ∈ s.since start, r.fetch key (s.session p v) = .ok payload
  fresh : ∀ p key start payload, s.task p = .filling key start payload → r.isPrivate p = false →
    r.fetch key s.committed = .ok payload
  truthful : Truthful r s

namespace Copies

variable {r : CachedResource π σ κ α} {s t : CachedState π σ κ α} {a : CachedAction π σ κ} {p : π}

omit [DecidableEq π] [DecidableEq κ] in
/-- What is committed has been so since any earlier count of commits. -/
theorem committed_mem_since {start : ℕ} (h : start ≤ s.past.length) :
    s.committed ∈ s.since start := by
  rw [CachedState.since, Nat.succ_sub h, List.take_succ_cons]
  exact List.mem_cons_self

omit [DecidableEq κ] in
/-- A service goes on. -/
theorem task (h : Copies r s) {x : CachedTask κ α}
    (hstarted : ∀ key start, x = .fetching key start → start ≤ s.past.length)
    (hfetched : ∀ key start payload, x = .filling key start payload →
      (∃ v ∈ s.since start, r.fetch key (s.session p v) = .ok payload) ∧
        (r.isPrivate p = false → r.fetch key s.committed = .ok payload)) :
    Copies r (s.setTask p x) := by
  have htask : ∀ {q y}, (s.setTask p x).task q = y → q = p ∧ x = y ∨ s.task q = y := by
    intro q y hq
    rw [CachedState.setTask_task] at hq
    split at hq
    · next hqp => exact .inl ⟨hqp, hq⟩
    · exact .inr hq
  refine ⟨h.cached, fun q key start hq => ?_, fun q key start payload hq => ?_,
    fun q key start payload hq hprivate => ?_, h.truthful⟩
  · rcases htask hq with ⟨-, hx⟩ | hq
    · exact hstarted key start hx
    · exact h.started q key start hq
  · rcases htask hq with ⟨rfl, hx⟩ | hq
    · exact (hfetched key start payload hx).1
    · exact h.fetched q key start payload hq
  · rcases htask hq with ⟨rfl, hx⟩ | hq
    · exact (hfetched key start payload hx).2 hprivate
    · exact h.fresh q key start payload hq hprivate

omit [DecidableEq κ] in
/-- A service goes on to something else than a read. -/
theorem leave (h : Copies r s) {x : CachedTask κ α} (hx : x.fetches = none) (hx' : x.fills = none) :
    Copies r (s.setTask p x) := by
  refine h.task (fun key start hkey => ?_) (fun key start payload hkey => ?_)
  · rw [hkey] at hx
    cases hx
  · rw [hkey] at hx'
    cases hx'

omit [DecidableEq κ] in
/-- The writes of a session that is not about to cache anything do not matter. -/
theorem session (h : Copies r s) {f : σ → σ} (hp : (s.task p).fills = none) :
    Copies r (s.setSession p f) := by
  refine ⟨h.cached, h.started, fun q key start payload hq => ?_, h.fresh, h.truthful⟩
  have hqp : q ≠ p := by
    rintro rfl
    have hq : s.task q = .filling key start payload := hq
    rw [hq] at hp
    cases hp
  show ∃ v ∈ s.since start, r.fetch key (Function.update s.session p f q v) = .ok payload
  rw [Function.update_of_ne hqp]
  exact h.fetched q key start payload hq

omit [DecidableEq π] [DecidableEq κ] in
/-- A truthful answer. -/
theorem give (h : Copies r s) {key : κ} {start : ℕ} {value : Except ResourceyError α}
    (hvalue : ∃ v ∈ s.since start,
      value = r.fetch key v ∨ value = r.fetch key (s.session p v)) :
    Copies r (s.give p key start value) :=
  ⟨h.cached, h.started, h.fetched, h.fresh, List.forall_mem_cons.mpr ⟨hvalue, h.truthful⟩⟩

omit [DecidableEq π] [DecidableEq κ] in
/-- Other copies of what is committed. -/
theorem recache (h : Copies r s) {cache : κ → Option (CacheEntry α)}
    (hcache : ∀ key e, cache key = some e → r.fetch key s.committed = .ok e.payload) :
    Copies r { s with cache } :=
  ⟨hcache, h.started, h.fetched, h.fresh, h.truthful⟩

omit [DecidableEq π] [DecidableEq κ] in
/-- A commit that changes no copied answer. -/
theorem commit (h : Copies r s)
    (hkeeps : ∀ key, Copied r s key → r.fetch key (s.view p) = r.fetch key s.committed) :
    Copies r { s with committed := s.view p, past := s.committed :: s.past } := by
  refine ⟨fun key e he => ?_, fun q key start hq => ?_, fun q key start payload hq => ?_,
    fun q key start payload hq hprivate => ?_, h.truthful⟩
  · have hcopied : Copied r s key := .inl (Option.isSome_of_eq_some he)
    exact (hkeeps key hcopied).trans (h.cached key e he)
  · exact Nat.le_succ_of_le (h.started q key start hq)
  · obtain ⟨v, hv, hpayload⟩ := h.fetched q key start payload hq
    refine ⟨v, ?_, hpayload⟩
    have hlate : s.past.length + 1 - start ≠ 0 := by
      intro hzero
      rw [CachedState.since, hzero] at hv
      cases hv
    have hmore : s.past.length + 1 + 1 - start = s.past.length + 1 - start + 1 := by omega
    show v ∈ (s.view p :: s.committed :: s.past).take (s.past.length + 1 + 1 - start)
    rw [hmore, List.take_succ_cons]
    exact List.mem_cons_of_mem _ hv
  · have hcopied : Copied r s key := by
      refine .inr ⟨q, hprivate, ?_⟩
      have hq : s.task q = .filling key start payload := hq
      rw [hq]
      rfl
    exact (hkeeps key hcopied).trans (h.fresh q key start payload hq hprivate)

theorem step (h : Copies r s) (hok : KeepsCopies r s a) (ha : cachedStep r s a = some t) :
    Copies r t := by
  cases cached_effect ha with
  | enter => exact h.leave rfl rfl
  | hit he =>
      exact h.give ⟨s.committed, committed_mem_since (Nat.le_refl _), .inl (h.cached _ _ he).symm⟩
  | miss =>
      refine h.task (fun key start hkey => ?_) (fun key start payload hkey => ?_)
      · cases hkey
        exact Nat.le_refl _
      · cases hkey
  | @fetched p key start payload hfetching hpayload =>
      have hstart := h.started p key start hfetching
      refine h.task (fun key' start' hkey => ?_) (fun key' start' payload' hkey => ?_)
      · cases hkey
      · cases hkey
        refine ⟨⟨s.committed, committed_mem_since hstart, hpayload⟩, fun hprivate => ?_⟩
        rw [← hok.2 p rfl hprivate key (by rw [hfetching]; rfl)]
        exact hpayload
  | @failed p key start e hfetching herror =>
      have hstart := h.started p key start hfetching
      exact (h.give ⟨s.committed, committed_mem_since hstart, .inr herror.symm⟩).leave rfl rfl
  | @filled p now key start payload hfilling hprivate =>
      obtain ⟨v, hv, hpayload⟩ := h.fetched p key start payload hfilling
      have hcache : ∀ key' e, Function.update s.cache key (some ⟨payload, now⟩) key' = some e →
          r.fetch key' s.committed = .ok e.payload := by
        intro key' e he
        rw [Function.update_apply] at he
        split at he
        · next hkey =>
            cases he
            rw [hkey]
            exact h.fresh p key start payload hfilling hprivate
        · exact h.cached key' e he
      exact ((h.recache hcache).give ⟨v, hv, .inr hpayload.symm⟩).leave rfl rfl
  | @passed p now key start payload hfilling =>
      obtain ⟨v, hv, hpayload⟩ := h.fetched p key start payload hfilling
      exact (h.give ⟨v, hv, .inr hpayload.symm⟩).leave rfl rfl
  | write hp => exact (h.session hp).leave rfl rfl
  | evict => exact (h.recache (fun key e he => by cases he)).leave rfl rfl
  | abandon => exact h.leave rfl rfl
  | @commit p hp => exact ((h.commit (hok.1 p rfl)).session hp).leave rfl rfl
  | @rollback p =>
      show Copies r ((s.setTask p .closed).setSession p id)
      refine (h.leave rfl rfl).session ?_
      rw [CachedState.setTask_task, if_pos rfl]
      rfl

omit [DecidableEq π] [DecidableEq κ] in
/-- An empty cache. -/
theorem initial (committed : σ) : Copies r ({ committed } : CachedState π σ κ α) where
  cached _ _ he := by cases he
  started _ _ _ hp := by cases hp
  fetched _ _ _ _ hp := by cases hp
  fresh _ _ _ _ hp := by cases hp
  truthful _ ha := by cases ha

end Copies

/-- **Every answer is truthful**, in every run in which a commit changes the answer to no key that
is cached or about to be, and no read caches what its service has itself written. -/
theorem reads_truthful {r : CachedResource π σ κ α} {committed : σ}
    {as : List (CachedAction π σ κ)} {t : CachedState π σ κ α}
    (hrun : Trace.Run (cachedStep r) (KeepsCopies r) { committed } as t) : Truthful r t :=
  (hrun.invariant (Copies r) (fun h hok ha => h.step hok ha) (.initial committed)).truthful

/-! ## Over SQL -/

/-- A SQL resource behind the cache, `request` being the read that a key was made of. -/
def SqlTable.cached [TextRules] {ρ γ : Type} (t : SqlTable ρ) (codec : CursorCodec γ)
    (strategy : CacheStrategy) (isPrivate : π → Bool) (request : κ → ReadRequest γ) :
    CachedResource π (List ρ) κ (ReadReply ρ γ) where
  strategy
  isPrivate
  fetch key rows := t.answer codec rows (request key)

/-- A table of identified values. -/
def valueTable : SqlTable (Value × Value) where
  name := "ValueResource"
  columnForAttr name := if name ∈ ["id", "value"] then some name else none
  queryable _ := true
  sortable _ := true
  idColumn := "id"
  row r name := if name = "id" then r.1 else if name = "value" then r.2 else .none

/-- The value of the entry a read was answered with. -/
def CachedAnswer.entry {σ κ γ : Type} (a : CachedAnswer σ κ (ReadReply (Value × Value) γ)) :
    Option Value :=
  match a.value with
  | .ok (.item item) => some item.2
  | _ => none

section Demo

omit [DecidableEq π] [DecidableEq κ]

/-- The table with one entry. -/
def oneEntry (value : String) : List (Value × Value) := [(.scalar (.int 1), .scalar (.str value))]

/-- Reads of the entry, through a window of ten minutes. -/
def cachedEntry [TextRules] :
    CachedResource (Fin 2) (List (Value × Value)) Unit (ReadReply (Value × Value) CursorState) :=
  valueTable.cached .plain (defaultCacheStrategy false []) (fun _ => false)
    fun _ => .read (.scalar (.int 1))

/-- A read that is not served from the cache. -/
def missActions (p : Fin 2) (now : ℤ) : List (CachedAction (Fin 2) (List (Value × Value)) Unit) :=
  [.lookup p () now, .fetch p, .fill p now]

/-- A write is committed before anything is read, and a copy is then served. -/
theorem reads_truthful_served :
    letI := TextRules.ascii
    ∃ t : CachedState (Fin 2) (List (Value × Value)) Unit (ReadReply (Value × Value) CursorState),
      t.answers.map CachedAnswer.entry
        = [some (.scalar (.str "new")), some (.scalar (.str "new"))] ∧ Truthful cachedEntry t := by
  let _ := TextRules.ascii
  have hrun : (Trace.exec (cachedStep cachedEntry) (KeepsCopies cachedEntry)
      { committed := oneEntry "old" } (.enter 0 :: .enter 1 :: .write 0 (fun _ => oneEntry "new") ::
        .evict 0 :: .exit 0 true :: missActions 1 0 ++ [.lookup 1 () 1])).map
          (fun t => t.answers.map CachedAnswer.entry)
      = some [some (.scalar (.str "new")), some (.scalar (.str "new"))] := by decide
  obtain ⟨t, ht, hanswers⟩ := Option.map_eq_some_iff.mp hrun
  exact ⟨t, hanswers, reads_truthful (.of_exec ht)⟩

/-- The entry is read between the eviction of a write and its commit. A read that starts after the
commit is served what was read. -/
theorem read_after_commit_stale :
    letI := TextRules.ascii
    ∃ t, Trace.exec (cachedStep cachedEntry) (fun _ _ => True) { committed := oneEntry "old" }
        (.enter 0 :: .enter 1 :: .write 0 (fun _ => oneEntry "new") :: .evict 0 ::
          missActions 1 0 ++ [.exit 0 true, .lookup 1 () 1]) = some t ∧
      ¬ Truthful cachedEntry t := by
  let _ := TextRules.ascii
  have hrun : (Trace.exec (cachedStep cachedEntry) (fun _ _ => True)
      { committed := oneEntry "old" } (.enter 0 :: .enter 1 ::
        .write 0 (fun _ => oneEntry "new") :: .evict 0 :: missActions 1 0 ++
          [.exit 0 true, .lookup 1 () 1])).map (fun t => decide (Truthful cachedEntry t))
      = some false := by decide
  obtain ⟨t, ht, hfalse⟩ := Option.map_eq_some_iff.mp hrun
  exact ⟨t, ht, of_decide_eq_false hfalse⟩

end Demo

end Resourcey
