import Resourcey.Auth.Policy
import Resourcey.Logic.Trace

/-!
# The policy resolver over stored grants

`RbacPolicyResolver` with its cache, among any number of resolutions, writes to the grant tables and
invalidations. A resolution reads the principal's groups and then the policies, each at an await,
and fills the cache at the end; an invalidation drops what is cached at that moment. So a resolution
that has read before a write and an invalidation puts back what the invalidation was to remove
(`resolve_after_invalidate_stale`), and since the expiry is counted from the fill, a copy outlives
its time by as long as the resolution took after its reads. `resolutions_respected` is the run
theorem for the runs in which no resolution fills the cache with what was invalidated meanwhile, nor
later than it read it.

The ghosts are the tables after each write, the number of writes before the last invalidation of a
key, when and after how many writes a copy was read, and the answers.
-/

namespace Resourcey

/-- What the resolver asks of the grant tables. -/
structure RbacStore (τ : Type) where
  groupsFor : τ → ℕ → List ℕ
  policiesFor : τ → ℕ → String → List Policy

/-- A principal and a resource path. -/
abbrev RbacKey := ℕ × String

/-- The policies of a key, from the groups of one state of the tables and the policies of one. -/
def RbacStore.bound {τ : Type} (store : RbacStore τ) (key : RbacKey) (groups policies : τ) :
    List Policy :=
  (store.policiesFor policies key.1 key.2).map
    (Policy.bindMemberGroups (store.groupsFor groups key.1))

/-- Where a resolution comes from: after how many writes its groups and its policies were read, and
when the latter were. -/
structure Origin where
  groups : ℕ
  policies : ℕ
  readAt : ℤ
  deriving DecidableEq

/-- A cached resolution. -/
structure CachedPolicies where
  policies : List Policy
  expiry : ℤ
  origin : Origin

/-- An answer of the resolver: when its call started, and how many writes had then been followed by
an invalidation of its key. -/
structure Resolution where
  key : RbacKey
  policies : List Policy
  origin : Origin
  started : ℤ
  floor : ℕ

/-- Where a call is, between two awaits. -/
inductive Resolving where
  | idle
  | missed (key : RbacKey) (started : ℤ) (floor : ℕ)
  | grouped (key : RbacKey) (started : ℤ) (floor : ℕ) (groups : List ℕ) (groupsRead : ℕ)
  | read (key : RbacKey) (started : ℤ) (floor : ℕ) (policies : List Policy) (origin : Origin)

/-- The tables, the resolver and its calls. -/
structure RbacState (π τ : Type) where
  tables : τ
  earlier : List τ := []
  clock : ℤ := 0
  cache : RbacKey → Option CachedPolicies := fun _ => none
  call : π → Resolving := fun _ => .idle
  invalidated : RbacKey → ℕ := fun _ => 0
  answers : List Resolution := []

/-- What may happen next. -/
inductive RbacAction (π τ : Type) where
  | tick (seconds : ℕ)
  | write (tables : τ)
  | invalidate (principalId : Option ℕ) (resource : Option String)
  | start (p : π) (key : RbacKey)
  | groups (p : π)
  | policies (p : π)
  | fill (p : π)
  | abandon (p : π)

variable {π τ : Type} [DecidableEq π]

namespace RbacState

/-- The number of writes. -/
def writes (s : RbacState π τ) : ℕ := s.earlier.length

/-- The tables after a number of writes. -/
def version (s : RbacState π τ) (n : ℕ) : Option τ := (s.tables :: s.earlier).reverse[n]?

def setCall (s : RbacState π τ) (p : π) (x : Resolving) : RbacState π τ :=
  { s with call := Function.update s.call p x }

/-- A call is answered. -/
def give (s : RbacState π τ) (answer : Resolution) : RbacState π τ :=
  { s with answers := answer :: s.answers }

end RbacState

/-- Whether an invalidation drops a key. -/
def invalidates (principalId : Option ℕ) (resource : Option String) (key : RbacKey) : Prop :=
  (∀ p ∈ principalId, p = key.1) ∧ ∀ path ∈ resource, path = key.2

instance (principalId : Option ℕ) (resource : Option String) (key : RbacKey) :
    Decidable (invalidates principalId resource key) :=
  inferInstanceAs (Decidable ((∀ p ∈ principalId, _) ∧ ∀ path ∈ resource, _))

/-- `_cached`: the copy of a key that has not expired. -/
def RbacState.cached (s : RbacState π τ) (cacheTtl : Option ℤ) (key : RbacKey) :
    Option CachedPolicies :=
  match cacheTtl, s.cache key with
  | some _, some entry => if entry.expiry ≤ s.clock then none else some entry
  | _, _ => none

/-- The next state. -/
def rbacStep (store : RbacStore τ) (cacheTtl : Option ℤ) (s : RbacState π τ) :
    RbacAction π τ → Option (RbacState π τ)
  | .tick seconds => some { s with clock := s.clock + seconds }
  | .write tables => some { s with tables, earlier := s.tables :: s.earlier }
  | .invalidate principalId resource => some { s with
      cache := fun key => if invalidates principalId resource key then none else s.cache key
      invalidated := fun key =>
        if invalidates principalId resource key then s.writes else s.invalidated key }
  | .start p key =>
    match s.call p with
    | .idle =>
      match s.cached cacheTtl key with
      | some entry => s.give ⟨key, entry.policies, entry.origin, s.clock, s.invalidated key⟩
      | none =>
        -- What is there has expired.
        ({ s with cache := Function.update s.cache key none } : RbacState π τ).setCall p
          (.missed key s.clock (s.invalidated key))
    | _ => none
  | .groups p =>
    match s.call p with
    | .missed key started floor =>
      s.setCall p (.grouped key started floor (store.groupsFor s.tables key.1) s.writes)
    | _ => none
  | .policies p =>
    match s.call p with
    | .grouped key started floor groups groupsRead =>
      s.setCall p (.read key started floor
        ((store.policiesFor s.tables key.1 key.2).map (Policy.bindMemberGroups groups))
        ⟨groupsRead, s.writes, s.clock⟩)
    | _ => none
  | .fill p =>
    match s.call p with
    | .read key started floor policies origin =>
      let s' := match cacheTtl with
        | none => s
        | some ttl => { s with
            cache := Function.update s.cache key (some ⟨policies, s.clock + ttl, origin⟩) }
      (s'.give ⟨key, policies, origin, started, floor⟩).setCall p .idle
    | _ => none
  | .abandon p => s.setCall p .idle

/-! ## What a step does -/

/-- What a step does, branch by branch. -/
inductive RbacEffect (store : RbacStore τ) (cacheTtl : Option ℤ) (s : RbacState π τ) :
    RbacAction π τ → RbacState π τ → Prop
  | tick {seconds : ℕ} :
      RbacEffect store cacheTtl s (.tick seconds) { s with clock := s.clock + seconds }
  | write {tables} : RbacEffect store cacheTtl s (.write tables)
      { s with tables, earlier := s.tables :: s.earlier }
  | invalidate {principalId resource} : RbacEffect store cacheTtl s (.invalidate principalId resource)
      { s with
        cache := fun key => if invalidates principalId resource key then none else s.cache key
        invalidated := fun key =>
          if invalidates principalId resource key then s.writes else s.invalidated key }
  | hit {p key entry} : s.cache key = some entry → s.clock < entry.expiry →
      RbacEffect store cacheTtl s (.start p key)
        (s.give ⟨key, entry.policies, entry.origin, s.clock, s.invalidated key⟩)
  | miss {p key} : RbacEffect store cacheTtl s (.start p key)
      (({ s with cache := Function.update s.cache key none } : RbacState π τ).setCall p
        (.missed key s.clock (s.invalidated key)))
  | groups {p key started floor} : s.call p = .missed key started floor →
      RbacEffect store cacheTtl s (.groups p) (s.setCall p
        (.grouped key started floor (store.groupsFor s.tables key.1) s.writes))
  | policies {p key started floor groups groupsRead} :
      s.call p = .grouped key started floor groups groupsRead →
      RbacEffect store cacheTtl s (.policies p) (s.setCall p (.read key started floor
        ((store.policiesFor s.tables key.1 key.2).map (Policy.bindMemberGroups groups))
        ⟨groupsRead, s.writes, s.clock⟩))
  | pass {p key started floor policies origin} :
      s.call p = .read key started floor policies origin → cacheTtl = none →
      RbacEffect store cacheTtl s (.fill p)
        ((s.give ⟨key, policies, origin, started, floor⟩).setCall p .idle)
  | fill {p key started floor policies origin ttl} :
      s.call p = .read key started floor policies origin → cacheTtl = some ttl →
      RbacEffect store cacheTtl s (.fill p)
        ((({ s with
          cache := Function.update s.cache key (some ⟨policies, s.clock + ttl, origin⟩) } :
            RbacState π τ).give ⟨key, policies, origin, started, floor⟩).setCall p .idle)
  | abandon {p} : RbacEffect store cacheTtl s (.abandon p) (s.setCall p .idle)

section Effect

variable {store : RbacStore τ} {cacheTtl : Option ℤ} {s t : RbacState π τ} {a : RbacAction π τ}

theorem RbacState.setCall_call (p q : π) (x : Resolving) :
    (s.setCall p x).call q = if q = p then x else s.call q :=
  Function.update_apply _ _ _ _

omit [DecidableEq π] in
/-- A copy that is served has not expired. -/
theorem RbacState.cached_eq {key : RbacKey} {entry : CachedPolicies}
    (h : s.cached cacheTtl key = some entry) :
    s.cache key = some entry ∧ s.clock < entry.expiry := by
  unfold RbacState.cached at h
  split at h
  · next entry' hentry =>
      split at h
      · cases h
      · next hfresh =>
          cases h
          exact ⟨hentry, not_le.mp hfresh⟩
  · cases h

/-- **What a step does.** -/
theorem rbac_effect (h : rbacStep store cacheTtl s a = some t) :
    RbacEffect store cacheTtl s a t := by
  cases a with
  | tick seconds =>
      cases h
      exact .tick
  | write tables =>
      cases h
      exact .write
  | invalidate principalId resource =>
      cases h
      exact .invalidate
  | start p key =>
      simp only [rbacStep] at h
      split at h
      · split at h
        · next entry hcached =>
            obtain ⟨hentry, hfresh⟩ := RbacState.cached_eq hcached
            cases h
            exact .hit hentry hfresh
        · cases h
          exact .miss
      · cases h
  | groups p =>
      simp only [rbacStep] at h
      split at h
      · next hmissed =>
          cases h
          exact .groups hmissed
      · cases h
  | policies p =>
      simp only [rbacStep] at h
      split at h
      · next hgrouped =>
          cases h
          exact .policies hgrouped
      · cases h
  | fill p =>
      simp only [rbacStep] at h
      split at h
      · next hread =>
          cases httl : cacheTtl with
          | none =>
              rw [httl] at h
              cases h
              exact .pass hread rfl
          | some ttl =>
              rw [httl] at h
              cases h
              exact .fill hread rfl
      · cases h
  | abandon p =>
      cases h
      exact .abandon

end Effect

/-! ## Invalidation and expiry -/

omit [DecidableEq π] in
/-- The call that fills. -/
def RbacAction.fills : RbacAction π τ → Option π
  | .fill p => some p
  | _ => none

/-- The key and the origin of what a call has read. -/
def Resolving.origin : Resolving → Option (RbacKey × Origin)
  | .read key _ _ _ origin => some (key, origin)
  | _ => none

section Conditions

omit [DecidableEq π]

/-- The policies come from the tables of an origin. -/
def RbacState.From (store : RbacStore τ) (s : RbacState π τ) (key : RbacKey) (origin : Origin)
    (policies : List Policy) : Prop :=
  ∃ groupTables policyTables, s.version origin.groups = some groupTables ∧
    s.version origin.policies = some policyTables ∧
      policies = store.bound key groupTables policyTables

/-- Every resolution is computed from the tables at or after the write that preceded the last
invalidation before its start, and from policies that were read no more than `cache_ttl` before
it. -/
def Respected (store : RbacStore τ) (cacheTtl : Option ℤ) (s : RbacState π τ) : Prop :=
  ∀ a ∈ s.answers, s.From store a.key a.origin a.policies ∧
    (a.floor ≤ a.origin.groups ∧ a.floor ≤ a.origin.policies) ∧
      (a.origin.readAt < a.started → ∃ ttl ∈ cacheTtl, a.started - a.origin.readAt ≤ ttl)

/-- A resolution fills the cache at the instant of its last read, and its key has not been
invalidated after a write that it has not read. -/
def FillsCurrent (cacheTtl : Option ℤ) (s : RbacState π τ) (a : RbacAction π τ) : Prop :=
  cacheTtl.isSome → ∀ p ∈ a.fills, ∀ r ∈ (s.call p).origin,
    (s.invalidated r.1 ≤ r.2.groups ∧ s.invalidated r.1 ≤ r.2.policies) ∧ s.clock = r.2.readAt

instance (cacheTtl : Option ℤ) (s : RbacState π τ) (a : RbacAction π τ) :
    Decidable (FillsCurrent cacheTtl s a) :=
  inferInstanceAs (Decidable (_ → ∀ p ∈ a.fills, ∀ r ∈ (s.call p).origin, (_ ∧ _) ∧ _))

/-- One state comes after another: there are more writes, and it is later. -/
structure RbacState.Later (s t : RbacState π τ) : Prop where
  writes : s.writes ≤ t.writes
  clock : s.clock ≤ t.clock
  version : ∀ {n tables}, s.version n = some tables → t.version n = some tables

/-- What a call has read so far comes from the tables, and is no older than its start. -/
def CallOk (store : RbacStore τ) (s : RbacState π τ) : Resolving → Prop
  | .idle => True
  | .missed _ started floor => floor ≤ s.writes ∧ started ≤ s.clock
  | .grouped key started floor groups groupsRead =>
    floor ≤ groupsRead ∧ groupsRead ≤ s.writes ∧ started ≤ s.clock ∧
      ∃ tables, s.version groupsRead = some tables ∧ groups = store.groupsFor tables key.1
  | .read key started floor policies origin =>
    s.From store key origin policies ∧ (floor ≤ origin.groups ∧ floor ≤ origin.policies) ∧
      started ≤ origin.readAt

end Conditions

namespace RbacState

variable {store : RbacStore τ} {s t u : RbacState π τ}

omit [DecidableEq π] in
theorem version_writes : s.version s.writes = some s.tables := by
  simp [version, writes]

omit [DecidableEq π] in
/-- A write leaves the earlier versions. -/
theorem later_write (tables : τ) :
    s.Later { s with tables, earlier := s.tables :: s.earlier } where
  writes := Nat.le_succ _
  clock := le_refl _
  version {n old} h := by
    obtain ⟨hn, -⟩ := List.getElem?_eq_some_iff.mp h
    show (tables :: s.tables :: s.earlier).reverse[n]? = some old
    rw [List.reverse_cons, List.getElem?_append_left hn]
    exact h

omit [DecidableEq π] in
theorem From.later {key : RbacKey} {origin : Origin} {policies : List Policy}
    (h : s.From store key origin policies) (hlater : s.Later t) :
    t.From store key origin policies := by
  obtain ⟨groupTables, policyTables, hgroups, hpolicies, heq⟩ := h
  exact ⟨groupTables, policyTables, hlater.version hgroups, hlater.version hpolicies, heq⟩

end RbacState

omit [DecidableEq π] in
theorem CallOk.later {store : RbacStore τ} {s t : RbacState π τ} {x : Resolving}
    (h : CallOk store s x) (hlater : s.Later t) : CallOk store t x := by
  have hwrites := hlater.writes
  have hclock := hlater.clock
  cases x with
  | idle => trivial
  | missed key started floor =>
      have : floor ≤ s.writes ∧ started ≤ s.clock := h
      exact ⟨by omega, by omega⟩
  | grouped key started floor groups groupsRead =>
      obtain ⟨hfloor, hread, hstarted, tables, htables, hgroups⟩ := h
      exact ⟨hfloor, by omega, by omega, tables, hlater.version htables, hgroups⟩
  | read key started floor policies origin =>
      obtain ⟨hfrom, hfloor, hstarted⟩ := h
      exact ⟨hfrom.later hlater, hfloor, hstarted⟩

/-- What is cached has not been invalidated since, and expires in time. -/
structure Current (store : RbacStore τ) (cacheTtl : Option ℤ) (s : RbacState π τ) : Prop where
  invalidated : ∀ key, s.invalidated key ≤ s.writes
  cached : ∀ key entry, s.cache key = some entry →
    s.From store key entry.origin entry.policies ∧
      (s.invalidated key ≤ entry.origin.groups ∧ s.invalidated key ≤ entry.origin.policies) ∧
        ∃ ttl ∈ cacheTtl, entry.expiry = entry.origin.readAt + ttl
  calls : ∀ p, CallOk store s (s.call p)
  respected : Respected store cacheTtl s

namespace Current

variable {store : RbacStore τ} {cacheTtl : Option ℤ} {s t : RbacState π τ} {a : RbacAction π τ}
  {p : π}

omit [DecidableEq π] in
/-- More writes and more time. -/
theorem later (h : Current store cacheTtl s) (hlater : s.Later t) (hcache : t.cache = s.cache)
    (hcall : t.call = s.call) (hinvalidated : t.invalidated = s.invalidated)
    (hanswers : t.answers = s.answers) : Current store cacheTtl t := by
  refine ⟨fun key => ?_, fun key entry hentry => ?_, fun p => ?_, fun a ha => ?_⟩
  · rw [hinvalidated]
    exact (h.invalidated key).trans hlater.writes
  · rw [hcache] at hentry
    rw [hinvalidated]
    obtain ⟨hfrom, hfloor⟩ := h.cached key entry hentry
    exact ⟨hfrom.later hlater, hfloor⟩
  · rw [hcall]
    exact (h.calls p).later hlater
  · rw [hanswers] at ha
    obtain ⟨hfrom, hfloor⟩ := h.respected a ha
    exact ⟨hfrom.later hlater, hfloor⟩

/-- A call goes on. -/
theorem call (h : Current store cacheTtl s) {x : Resolving} (hx : CallOk store s x) :
    Current store cacheTtl (s.setCall p x) := by
  refine ⟨h.invalidated, h.cached, fun q => ?_, h.respected⟩
  rw [RbacState.setCall_call]
  split
  · exact hx
  · exact h.calls q

omit [DecidableEq π] in
/-- An answer is given. -/
theorem give (h : Current store cacheTtl s) {answer : Resolution}
    (hfrom : s.From store answer.key answer.origin answer.policies)
    (hfloor : answer.floor ≤ answer.origin.groups ∧ answer.floor ≤ answer.origin.policies)
    (htime : answer.origin.readAt < answer.started →
      ∃ ttl ∈ cacheTtl, answer.started - answer.origin.readAt ≤ ttl) :
    Current store cacheTtl (s.give answer) :=
  ⟨h.invalidated, h.cached, h.calls,
    List.forall_mem_cons.mpr ⟨⟨hfrom, hfloor, htime⟩, h.respected⟩⟩

omit [DecidableEq π] in
/-- A copy is put in the place of another one, or of none. -/
theorem recache (h : Current store cacheTtl s) (key : RbacKey) {copy : Option CachedPolicies}
    (hcopy : ∀ entry ∈ copy, s.From store key entry.origin entry.policies ∧
      (s.invalidated key ≤ entry.origin.groups ∧ s.invalidated key ≤ entry.origin.policies) ∧
        ∃ ttl ∈ cacheTtl, entry.expiry = entry.origin.readAt + ttl) :
    Current store cacheTtl { s with cache := Function.update s.cache key copy } := by
  refine ⟨h.invalidated, fun key' entry hentry => ?_, h.calls, h.respected⟩
  have hentry : Function.update s.cache key copy key' = some entry := hentry
  rw [Function.update_apply] at hentry
  split at hentry
  · next heq =>
      rw [heq]
      exact hcopy entry hentry
  · exact h.cached key' entry hentry

omit [DecidableEq π] in
theorem invalidate (h : Current store cacheTtl s) (principalId : Option ℕ)
    (resource : Option String) :
    Current store cacheTtl { s with
      cache := fun key => if invalidates principalId resource key then none else s.cache key
      invalidated := fun key =>
        if invalidates principalId resource key then s.writes else s.invalidated key } := by
  refine ⟨fun key => ?_, fun key entry hentry => ?_, h.calls, h.respected⟩
  · show (if invalidates principalId resource key then s.writes else s.invalidated key) ≤ s.writes
    split
    · exact Nat.le_refl _
    · exact h.invalidated key
  · have hentry : (if invalidates principalId resource key then none else s.cache key)
        = some entry := hentry
    split at hentry
    · cases hentry
    · next hkept =>
        show s.From store key entry.origin entry.policies ∧
          ((if invalidates principalId resource key then s.writes else s.invalidated key)
            ≤ entry.origin.groups ∧ (if invalidates principalId resource key then s.writes
              else s.invalidated key) ≤ entry.origin.policies) ∧ _
        rw [if_neg hkept]
        exact h.cached key entry hentry

theorem step (h : Current store cacheTtl s) (hok : FillsCurrent cacheTtl s a)
    (ha : rbacStep store cacheTtl s a = some t) : Current store cacheTtl t := by
  cases rbac_effect ha with
  | @tick seconds =>
      refine h.later ⟨Nat.le_refl _, ?_, id⟩ rfl rfl rfl rfl
      show s.clock ≤ s.clock + seconds
      omega
  | @write tables => exact h.later (RbacState.later_write tables) rfl rfl rfl rfl
  | @invalidate principalId resource => exact h.invalidate principalId resource
  | @hit p key entry hentry hfresh =>
      obtain ⟨hfrom, hfloor, ttl, httl, hexpiry⟩ := h.cached key entry hentry
      refine h.give hfrom hfloor fun _ => ⟨ttl, httl, ?_⟩
      show s.clock - entry.origin.readAt ≤ ttl
      omega
  | @miss p key => exact (h.recache key (by rintro _ ⟨⟩)).call ⟨h.invalidated key, le_refl _⟩
  | @groups p key started floor hmissed =>
      have hcall := h.calls p
      rw [hmissed] at hcall
      exact h.call ⟨hcall.1, Nat.le_refl _, hcall.2, s.tables, RbacState.version_writes, rfl⟩
  | @policies p key started floor groups groupsRead hgrouped =>
      have hcall := h.calls p
      rw [hgrouped] at hcall
      obtain ⟨hfloor, hread, hstarted, tables, htables, hgroups⟩ := hcall
      refine h.call ⟨⟨tables, s.tables, htables, RbacState.version_writes, ?_⟩,
        ⟨hfloor, hfloor.trans hread⟩, hstarted⟩
      rw [hgroups]
      rfl
  | @pass p key started floor policies origin hread hnone =>
      have hcall := h.calls p
      rw [hread] at hcall
      obtain ⟨hfrom, hfloor, hstarted⟩ := hcall
      exact (h.give hfrom hfloor fun hlate => absurd hlate (not_lt.mpr hstarted)).call trivial
  | @fill p key started floor policies origin ttl hread hsome =>
      have hcall := h.calls p
      rw [hread] at hcall
      obtain ⟨hfrom, hfloor, hstarted⟩ := hcall
      obtain ⟨hinvalidated, hnow⟩ :=
        hok (Option.isSome_of_eq_some hsome) p rfl (key, origin) (by rw [hread]; rfl)
      have hcopy : ∀ entry ∈ some (CachedPolicies.mk policies (s.clock + ttl) origin),
          s.From store key entry.origin entry.policies ∧
            (s.invalidated key ≤ entry.origin.groups ∧ s.invalidated key ≤ entry.origin.policies) ∧
              ∃ ttl ∈ cacheTtl, entry.expiry = entry.origin.readAt + ttl := by
        rintro _ ⟨⟩
        refine ⟨hfrom, hinvalidated, ttl, hsome, ?_⟩
        show s.clock + ttl = origin.readAt + ttl
        rw [hnow]
      refine ((h.recache key hcopy).give ?_ hfloor
        fun hlate => absurd hlate (not_lt.mpr hstarted)).call trivial
      exact hfrom
  | abandon => exact h.call trivial

omit [DecidableEq π] in
/-- Nothing has been resolved. -/
theorem initial (tables : τ) : Current store cacheTtl ({ tables } : RbacState π τ) where
  invalidated _ := Nat.le_refl 0
  cached _ _ hentry := by cases hentry
  calls _ := trivial
  respected _ ha := by cases ha

end Current

/-- **Resolutions respect invalidation and `cache_ttl`**, in every state of every run in which a
resolution that fills the cache does so at the instant of its last read, with no write to its tables
invalidated for its key that it has not read. -/
theorem resolutions_respected {store : RbacStore τ} {cacheTtl : Option ℤ} {tables : τ}
    {as : List (RbacAction π τ)} {t : RbacState π τ}
    (hrun : Trace.Run (rbacStep store cacheTtl) (FillsCurrent cacheTtl) { tables } as t) :
    Respected store cacheTtl t :=
  (hrun.invariant (Current store cacheTtl) (fun h hok ha => h.step hok ha)
    (.initial tables)).respected

section Demo

/-- Grant tables that are just the policies of everybody. -/
def plainStore : RbacStore (List Policy) where
  groupsFor _ _ := []
  policiesFor tables _ _ := tables

/-- A whole resolution that finds nothing cached. -/
def resolveActions (p : Fin 2) : List (RbacAction (Fin 2) (List Policy)) :=
  [.start p (1, "notes"), .groups p, .policies p, .fill p]

omit [DecidableEq π] in
/-- A grant is revoked and invalidated before it is resolved; the copy is then served. -/
theorem resolutions_respected_revoked :
    ∃ t : RbacState (Fin 2) (List Policy), t.answers.map (·.policies.length) = [0, 0] ∧
      Respected plainStore (some 60) t := by
  have hrun : (Trace.exec (rbacStep plainStore (some 60)) (FillsCurrent (some 60))
      { tables := [.allowAll] } (.write [] :: .invalidate (some 1) none :: resolveActions 0 ++
        [.tick 59, .start 1 (1, "notes")])).map (fun t => t.answers.map (·.policies.length))
      = some [0, 0] := by decide
  obtain ⟨t, ht, hanswers⟩ := Option.map_eq_some_iff.mp hrun
  exact ⟨t, hanswers, resolutions_respected (.of_exec ht)⟩

omit [DecidableEq π] in
/-- A resolution reads a grant, which is then revoked and invalidated, and fills the cache. The next
one is served the grant. -/
theorem resolve_after_invalidate_stale :
    ∃ t, Trace.exec (rbacStep plainStore (some 60)) (fun _ _ => True)
        { tables := [.allowAll] } [.start (0 : Fin 2) (1, "notes"), .groups 0, .policies 0,
          .write [], .invalidate (some 1) none, .fill 0, .start 1 (1, "notes")] = some t ∧
      ¬ Respected plainStore (some 60) t := by
  have hrun : (Trace.exec (rbacStep plainStore (some 60)) (fun _ _ => True)
      { tables := [.allowAll] } [.start (0 : Fin 2) (1, "notes"), .groups 0, .policies 0,
        .write [], .invalidate (some 1) none, .fill 0, .start 1 (1, "notes")]).map
          (fun t => t.answers.head?.map fun a => (a.floor, a.origin.policies, a.policies.length))
      = some (some (1, 0, 1)) := by decide
  obtain ⟨t, ht, hanswer⟩ := Option.map_eq_some_iff.mp hrun
  obtain ⟨a, ha, hstate⟩ := Option.map_eq_some_iff.mp hanswer
  simp only [Prod.mk.injEq] at hstate
  refine ⟨t, ht, fun hrespected => ?_⟩
  obtain ⟨-, ⟨-, hfloor⟩, -⟩ := hrespected a (List.mem_of_mem_head? ha)
  omega

end Demo

end Resourcey
