import Resourcey.Sql.Session
import Resourcey.Logic.Trace

/-!
# Storage ownership

SQL services over one context, entered and exited in stack order, any number of times each, where a
body finishes or raises and a commit or rollback succeeds or raises. A `ServiceObject` keeps its
attributes between entries, so a service that has opened a session once still has `_owns_storage`
set when it is entered again.

`StorageOwnership` is what the services are to guarantee: one session for an engine, opened and
ended by the outermost service on it, and given up when that service has exited. It holds in every
state of every run (`storage_ownership`) in which no commit or rollback raises and no service that
has owned storage adopts a session. A commit that raises leaves the session open and in the context,
and the service entered; a former owner that adopts a session commits it (`storage_ownership_lost`).
-/

namespace Resourcey

/-! ## The lifecycle of a service object -/

/-- The attributes of a `SqlService` that its lifecycle reads. -/
structure ServiceObject where
  entered : Bool := false
  session : Option ℕ := none
  ownsStorage : Bool := false

/-- An `async with` block that has not ended: its service, the session it works in, and whether its
entry opened that session. -/
structure Frame where
  service : ℕ
  session : ℕ
  opener : Bool
  deriving DecidableEq

/-- How a session is ended. -/
inductive SessionEnd where
  | commit
  | rollback
  deriving DecidableEq

/-- How a session is to end after a body that raised, or finished. -/
def SessionEnd.ofBody (raised : Bool) : SessionEnd := if raised then .rollback else .commit

/-- The exit of a block: whether its body raised, and the sessions it ended. -/
structure BlockExit where
  frame : Frame
  raised : Bool
  ends : List (SessionEnd × ℕ)
  deriving DecidableEq

/-- The services over one context. -/
structure Lifecycle where
  objects : ℕ → ServiceObject := fun _ => {}
  ctx : StorageKey → Option ℕ := fun _ => none
  opened : ℕ := 0
  sessionKey : ℕ → StorageKey := fun _ => ⟨"sql", []⟩
  closed : ℕ → Bool := fun _ => false
  stack : List Frame := []
  exits : List BlockExit := []

/-- What happens to the services: one is entered, or the innermost block ends, with an exception or
without; if its exit commits or rolls back, that call may raise. -/
inductive LifecycleAction where
  | enter (service : ℕ)
  | exit (raised fails : Bool)

namespace Lifecycle

/-- A session that was opened and not closed. -/
def Open (s : Lifecycle) (n : ℕ) : Prop := n < s.opened ∧ s.closed n = false

/-- `SqlService.__aenter__`. -/
def aenter (key : StorageKey) (s : Lifecycle) (i : ℕ) : Lifecycle :=
  if (s.objects i).entered then s  -- `ServiceError`
  else match s.ctx key with
    | some n =>
      { s with
        objects := Function.update s.objects i ⟨true, some n, (s.objects i).ownsStorage⟩
        stack := ⟨i, n, false⟩ :: s.stack }
    | none =>
      { s with
        objects := Function.update s.objects i ⟨true, some s.opened, true⟩
        ctx := Function.update s.ctx key (some s.opened)
        opened := s.opened + 1
        sessionKey := Function.update s.sessionKey s.opened key
        stack := ⟨i, s.opened, true⟩ :: s.stack }

/-- The block `f` ends, around which `fs` are, and its service is no longer entered. -/
def left (s : Lifecycle) (f : Frame) (fs : List Frame) (e : BlockExit) : Lifecycle :=
  { s with
    objects := Function.update s.objects f.service
      ⟨false, (s.objects f.service).session, (s.objects f.service).ownsStorage⟩
    stack := fs
    exits := e :: s.exits }

/-- `SqlService.__aexit__` of the block `f`, around which `fs` are. Where `fails`, the commit or
rollback raises, and what comes after it is not run. -/
def aexit (key : StorageKey) (raised fails : Bool) (s : Lifecycle) (f : Frame) (fs : List Frame) :
    Lifecycle :=
  match (s.objects f.service).ownsStorage, (s.objects f.service).session with
  | true, some n =>
    if fails then { s with stack := fs, exits := ⟨f, raised, [(.ofBody raised, n)]⟩ :: s.exits }
    else
      { s.left f fs ⟨f, raised, [(.ofBody raised, n)]⟩ with
        closed := Function.update s.closed n true, ctx := Function.update s.ctx key none }
  | _, _ => s.left f fs ⟨f, raised, []⟩

end Lifecycle

variable (makers : ℕ → SessionMaker)

/-- The storage key of a service. -/
abbrev serviceKey (i : ℕ) : StorageKey := sqlStorageKey (makers i)

/-- The next state. -/
def lifecycleStep (s : Lifecycle) : LifecycleAction → Option Lifecycle
  | .enter i => some (s.aenter (serviceKey makers i) i)
  | .exit raised fails =>
    match s.stack with
    | [] => none
    | f :: fs => some (s.aexit (serviceKey makers f.service) raised fails f fs)

/-! ## Ownership -/

namespace Lifecycle

variable (s : Lifecycle)

/-- The blocks on one storage, innermost first. -/
def blocks (key : StorageKey) : List Frame :=
  s.stack.filter fun f => serviceKey makers f.service = key

/-- The outermost block on one storage. -/
def outermost (key : StorageKey) : Option Frame := (s.blocks makers key).getLast?

/-- **Storage ownership.** An open session is that of the outermost block on its engine, which
opened it, so there is one at most; every block works in an open session of its engine, and only
the outermost one opened it; only an opener ended a session, once, as its body ended; an opener that
has exited left its session closed and out of the context; and the services entered are those of the
blocks. -/
structure StorageOwnership : Prop where
  open_opener : ∀ n, s.Open n → ∃ f, s.outermost makers (s.sessionKey n) = some f ∧
    f.session = n ∧ f.opener = true
  one : ∀ m n, s.Open m → s.Open n → s.sessionKey m = s.sessionKey n → m = n
  shared : ∀ f ∈ s.stack, s.Open f.session ∧ s.sessionKey f.session = serviceKey makers f.service
  opener : ∀ f ∈ s.stack, f.opener = true ↔ s.outermost makers (serviceKey makers f.service) = some f
  ends : ∀ e ∈ s.exits, e.ends =
    if e.frame.opener then [(.ofBody e.raised, e.frame.session)] else []
  restored : ∀ e ∈ s.exits, e.frame.opener = true →
    ¬ s.Open e.frame.session ∧ ∀ key, s.ctx key ≠ some e.frame.session
  entered : ∀ i, (s.objects i).entered = true ↔ ∃ f ∈ s.stack, f.service = i

end Lifecycle

/-- No commit or rollback raises, and no service that has owned storage adopts a session. -/
def EndsCleanly (s : Lifecycle) : LifecycleAction → Prop
  | .enter i => (s.objects i).entered = false → (s.objects i).ownsStorage = true →
      s.ctx (serviceKey makers i) = none
  | .exit _ fails => ∀ f ∈ s.stack.head?, (s.objects f.service).ownsStorage = true → fails = false

instance (s : Lifecycle) (a : LifecycleAction) : Decidable (EndsCleanly makers s a) :=
  match a with
  | .enter i => inferInstanceAs (Decidable (_ → _ → s.ctx (serviceKey makers i) = none))
  | .exit _ fails => inferInstanceAs (Decidable (∀ f ∈ s.stack.head?, _ → fails = false))

/-! ## What a step does -/

/-- A block has begun, and its service knows what it is. -/
def Lifecycle.inside (s : Lifecycle) (f : Frame) : Lifecycle :=
  { s with
    objects := Function.update s.objects f.service ⟨true, some f.session, f.opener⟩
    stack := f :: s.stack }

/-- What a step does when nothing raises in an exit and no former owner adopts a session. -/
inductive LifecycleEffect (s : Lifecycle) : LifecycleAction → Lifecycle → Prop
  | refused {i} : (s.objects i).entered = true → LifecycleEffect s (.enter i) s
  | adopt {i n} : (s.objects i).entered = false → s.ctx (serviceKey makers i) = some n →
      LifecycleEffect s (.enter i) (s.inside ⟨i, n, false⟩)
  | own {i} : (s.objects i).entered = false → s.ctx (serviceKey makers i) = none →
      LifecycleEffect s (.enter i)
        { s.inside ⟨i, s.opened, true⟩ with
          ctx := Function.update s.ctx (serviceKey makers i) (some s.opened)
          opened := s.opened + 1
          sessionKey := Function.update s.sessionKey s.opened (serviceKey makers i) }
  | finish {raised fails f fs n} : s.stack = f :: fs → (s.objects f.service).ownsStorage = true →
      (s.objects f.service).session = some n →
      LifecycleEffect s (.exit raised fails)
        { s.left f fs ⟨f, raised, [(.ofBody raised, n)]⟩ with
          closed := Function.update s.closed n true
          ctx := Function.update s.ctx (serviceKey makers f.service) none }
  | leave {raised fails f fs} : s.stack = f :: fs →
      ((s.objects f.service).ownsStorage = false ∨ (s.objects f.service).session = none) →
      LifecycleEffect s (.exit raised fails) (s.left f fs ⟨f, raised, []⟩)

variable {makers} {s t : Lifecycle} {a : LifecycleAction}

theorem lifecycle_effect (hok : EndsCleanly makers s a) (h : lifecycleStep makers s a = some t) :
    LifecycleEffect makers s a t := by
  cases a with
  | enter i =>
      cases h
      unfold Lifecycle.aenter
      split
      · next hentered => exact .refused hentered
      · next hentered =>
          have hentered := Bool.eq_false_iff.mpr hentered
          split
          · next n hctx =>
              have howns : (s.objects i).ownsStorage = false := by
                by_contra howns
                rw [hok hentered (Bool.eq_true_of_not_eq_false howns)] at hctx
                cases hctx
              rw [howns]
              exact .adopt hentered hctx
          · next hctx => exact .own hentered hctx
  | exit raised fails =>
      simp only [lifecycleStep] at h
      split at h
      · cases h
      · next f fs hstack =>
          cases h
          unfold Lifecycle.aexit
          split
          · next n howns hsession =>
              have hfails : fails = false := hok f (by rw [hstack]; rfl) howns
              rw [hfails]
              exact .finish hstack howns hsession
          · next hnot =>
              refine .leave hstack ?_
              by_contra hboth
              obtain ⟨howns, hsession⟩ := not_or.mp hboth
              obtain ⟨n, hn⟩ := Option.ne_none_iff_exists'.mp hsession
              exact hnot n (Bool.eq_true_of_not_eq_false howns) hn

/-! ## The blocks on one storage -/

namespace Lifecycle

variable {key : StorageKey} {f g : Frame} {fs : List Frame}

theorem mem_blocks : g ∈ s.blocks makers key ↔ g ∈ s.stack ∧ serviceKey makers g.service = key := by
  simp [blocks]

theorem mem_of_outermost (h : s.outermost makers key = some f) :
    f ∈ s.stack ∧ serviceKey makers f.service = key :=
  mem_blocks.mp (List.mem_of_getLast? h)

/-- A block on another storage changes nothing. -/
theorem outermost_cons_of_ne (hs : s.stack = f :: fs) (ht : t.stack = fs)
    (hkey : serviceKey makers f.service ≠ key) :
    s.outermost makers key = t.outermost makers key := by
  simp [outermost, blocks, hs, ht, hkey]

/-- A block inside another one on the same storage is not the outermost. -/
theorem outermost_cons_of_isSome (hs : s.stack = f :: fs) (ht : t.stack = fs)
    (hin : (t.outermost makers (serviceKey makers f.service)).isSome) :
    s.outermost makers key = t.outermost makers key := by
  by_cases hkey : serviceKey makers f.service = key
  · have hne : t.blocks makers key ≠ [] := by
      rw [← hkey]
      simpa [outermost, List.getLast?_isSome] using hin
    have hcons : s.blocks makers key = f :: t.blocks makers key := by
      simp [blocks, hs, ht, hkey]
    obtain ⟨g, gs, hgs⟩ := List.exists_cons_of_ne_nil hne
    rw [outermost, outermost, hcons, hgs, List.getLast?_cons_cons]
  · exact outermost_cons_of_ne hs ht hkey

/-- A block inside no other one on its storage is the outermost. -/
theorem outermost_cons_self (hs : s.stack = f :: fs) (ht : t.stack = fs)
    (hnone : t.outermost makers (serviceKey makers f.service) = none) :
    s.outermost makers (serviceKey makers f.service) = some f := by
  have hnil : t.blocks makers (serviceKey makers f.service) = [] := by
    simpa [outermost] using hnone
  rw [blocks, ht] at hnil
  simp [outermost, blocks, hs, hnil]

/-- The outermost block is inside no other one. -/
theorem outermost_rest (hs : s.stack = f :: fs) (ht : t.stack = fs) (hmem : f ∉ fs)
    (hout : s.outermost makers (serviceKey makers f.service) = some f) :
    t.outermost makers (serviceKey makers f.service) = none := by
  by_contra hne
  rw [outermost_cons_of_isSome hs ht (Option.isSome_iff_ne_none.mpr hne)] at hout
  have hin := (mem_of_outermost hout).1
  rw [ht] at hin
  exact hmem hin

theorem key_ne_of_outermost_none (hnone : t.outermost makers key = none) (hg : g ∈ t.stack) :
    serviceKey makers g.service ≠ key := by
  intro hkey
  have hnil : t.blocks makers key = [] := by simpa [outermost] using hnone
  have hmem : g ∈ t.blocks makers key := mem_blocks.mpr ⟨hg, hkey⟩
  rw [hnil] at hmem
  cases hmem

/-- What holds between blocks: the context holds the sessions of the outermost blocks, which are
those that are open, and the attributes of a service are as its block says. -/
structure Layered (makers : ℕ → SessionMaker) (s : Lifecycle) : Prop where
  ctx : ∀ key, s.ctx key = (s.outermost makers key).map (·.session)
  shared : ∀ f ∈ s.stack, s.ctx (serviceKey makers f.service) = some f.session
  opener : ∀ f ∈ s.stack,
    f.opener = true ↔ s.outermost makers (serviceKey makers f.service) = some f
  isOpen : ∀ n, s.Open n ↔ ∃ f ∈ s.stack, f.session = n
  sessionKey : ∀ f ∈ s.stack, s.sessionKey f.session = serviceKey makers f.service
  object : ∀ f ∈ s.stack, s.objects f.service = ⟨true, some f.session, f.opener⟩
  entered : ∀ i, (s.objects i).entered = true → ∃ f ∈ s.stack, f.service = i
  nodup : (s.stack.map (·.service)).Nodup
  ends : ∀ e ∈ s.exits, e.ends =
    if e.frame.opener then [(.ofBody e.raised, e.frame.session)] else []
  ended : ∀ e ∈ s.exits, e.frame.opener = true → s.closed e.frame.session = true
  closed : ∀ n, s.closed n = true → n < s.opened

namespace Layered

theorem initial : Layered makers {} where
  ctx _ := rfl
  shared _ hf := by cases hf
  opener _ hf := by cases hf
  isOpen n := by simp [Open]
  sessionKey _ hf := by cases hf
  object _ hf := by cases hf
  entered _ h := by cases h
  nodup := .nil
  ends _ he := by cases he
  ended _ he := by cases he
  closed _ h := by cases h

/-- A session in the context is open. -/
theorem open_of_ctx (h : Layered makers s) {n : ℕ} (hn : s.ctx key = some n) : s.Open n := by
  rw [h.ctx] at hn
  obtain ⟨f, hf, rfl⟩ := Option.map_eq_some_iff.mp hn
  exact (h.isOpen _).mpr ⟨f, (mem_of_outermost hf).1, rfl⟩

/-- **Ownership follows.** -/
theorem storageOwnership (h : Layered makers s) : s.StorageOwnership makers where
  open_opener n hn := by
    obtain ⟨f, hf, rfl⟩ := (h.isOpen n).mp hn
    have hctx := h.shared f hf
    rw [h.ctx] at hctx
    obtain ⟨g, hg, hsession⟩ := Option.map_eq_some_iff.mp hctx
    obtain ⟨hmem, hkey⟩ := mem_of_outermost hg
    refine ⟨g, ?_, hsession, ?_⟩
    · rw [h.sessionKey f hf]
      exact hg
    · rw [h.opener g hmem, hkey]
      exact hg
  one m n hm hn hkey := by
    obtain ⟨f, hf, rfl⟩ := (h.isOpen m).mp hm
    obtain ⟨g, hg, rfl⟩ := (h.isOpen n).mp hn
    rw [h.sessionKey f hf, h.sessionKey g hg] at hkey
    have hsession := h.shared f hf
    rw [hkey, h.shared g hg] at hsession
    exact (Option.some.inj hsession).symm
  shared f hf := ⟨(h.isOpen _).mpr ⟨f, hf, rfl⟩, h.sessionKey f hf⟩
  opener := h.opener
  ends := h.ends
  restored e he hopener := by
    have hclosed := h.ended e he hopener
    have hnot : ¬ s.Open e.frame.session := fun hopen => by
      rw [hopen.2] at hclosed
      cases hclosed
    exact ⟨hnot, fun key hctx => hnot (h.open_of_ctx hctx)⟩
  entered i := by
    refine ⟨h.entered i, ?_⟩
    rintro ⟨f, hf, rfl⟩
    rw [h.object f hf]

theorem sessionKey_of_ctx (h : Layered makers s) {n : ℕ} (hn : s.ctx key = some n) :
    s.sessionKey n = key := by
  rw [h.ctx] at hn
  obtain ⟨f, hf, rfl⟩ := Option.map_eq_some_iff.mp hn
  obtain ⟨hmem, hkey⟩ := mem_of_outermost hf
  rw [h.sessionKey f hmem, hkey]

theorem service_ne (h : Layered makers s) {i : ℕ} (hi : (s.objects i).entered = false)
    (hf : f ∈ s.stack) : f.service ≠ i := by
  rintro rfl
  rw [h.object f hf] at hi
  cases hi

/-! ### Entries -/

section Inside

variable (h : Layered makers s) (hf : (s.objects f.service).entered = false)

include h hf

theorem inside_object : ∀ g ∈ (s.inside f).stack,
    (s.inside f).objects g.service = ⟨true, some g.session, g.opener⟩ := by
  refine List.forall_mem_cons.mpr ⟨Function.update_self _ _ _, fun g hg => ?_⟩
  show Function.update s.objects f.service _ g.service = _
  rw [Function.update_of_ne (h.service_ne hf hg)]
  exact h.object g hg

omit hf in
theorem inside_entered (i : ℕ) (hi : ((s.inside f).objects i).entered = true) :
    ∃ g ∈ (s.inside f).stack, g.service = i := by
  rw [show (s.inside f).stack = f :: s.stack from rfl, List.exists_mem_cons_iff]
  have hi : (Function.update s.objects f.service _ i).entered = true := hi
  by_cases heq : i = f.service
  · exact .inl heq.symm
  · rw [Function.update_of_ne heq] at hi
    exact .inr (h.entered i hi)

theorem inside_nodup : ((s.inside f).stack.map (·.service)).Nodup := by
  refine List.nodup_cons.mpr ⟨fun hmem => ?_, h.nodup⟩
  obtain ⟨g, hg, hservice⟩ := List.mem_map.mp hmem
  exact h.service_ne hf hg hservice

/-- A block in the session that the context holds. -/
theorem adopt (hopener : f.opener = false)
    (hctx : s.ctx (serviceKey makers f.service) = some f.session) :
    Layered makers (s.inside f) := by
  have hin : (s.outermost makers (serviceKey makers f.service)).isSome := by
    rw [h.ctx] at hctx
    obtain ⟨g, hg, -⟩ := Option.map_eq_some_iff.mp hctx
    exact Option.isSome_of_eq_some hg
  have hout (key : StorageKey) : (s.inside f).outermost makers key = s.outermost makers key :=
    outermost_cons_of_isSome rfl rfl hin
  have hnew : f ∉ s.stack := fun hmem => h.service_ne hf hmem rfl
  refine ⟨fun key => ?_, ?_, ?_, fun n => ?_, ?_, h.inside_object hf, h.inside_entered,
    h.inside_nodup hf, h.ends, h.ended, h.closed⟩
  · rw [hout]
    exact h.ctx key
  · exact List.forall_mem_cons.mpr ⟨hctx, h.shared⟩
  · refine List.forall_mem_cons.mpr ⟨?_, fun g hg => ?_⟩
    · rw [hout, hopener]
      exact ⟨by rintro ⟨⟩, fun hself => absurd (mem_of_outermost hself).1 hnew⟩
    · rw [hout]
      exact h.opener g hg
  · show s.Open n ↔ ∃ g ∈ f :: s.stack, g.session = n
    rw [List.exists_mem_cons_iff, ← h.isOpen n]
    exact ⟨.inr, Or.rec (fun heq => heq ▸ h.open_of_ctx hctx) id⟩
  · exact List.forall_mem_cons.mpr ⟨h.sessionKey_of_ctx hctx, h.sessionKey⟩

/-- A block that opens its session. -/
theorem own (hopener : f.opener = true) (hsession : f.session = s.opened)
    (hctx : s.ctx (serviceKey makers f.service) = none) :
    Layered makers
      { s.inside f with
        ctx := Function.update s.ctx (serviceKey makers f.service) (some s.opened)
        opened := s.opened + 1
        sessionKey := Function.update s.sessionKey s.opened (serviceKey makers f.service) } := by
  set t : Lifecycle := { s.inside f with
    ctx := Function.update s.ctx (serviceKey makers f.service) (some s.opened)
    opened := s.opened + 1
    sessionKey := Function.update s.sessionKey s.opened (serviceKey makers f.service) }
  have hnone : s.outermost makers (serviceKey makers f.service) = none := by
    rw [h.ctx] at hctx
    exact Option.map_eq_none_iff.mp hctx
  have hself : t.outermost makers (serviceKey makers f.service) = some f :=
    outermost_cons_self rfl rfl hnone
  have hother {key : StorageKey} (hkey : serviceKey makers f.service ≠ key) :
      t.outermost makers key = s.outermost makers key :=
    outermost_cons_of_ne rfl rfl hkey
  have hne {g : Frame} (hg : g ∈ s.stack) := key_ne_of_outermost_none hnone hg
  have hlt {g : Frame} (hg : g ∈ s.stack) : g.session < s.opened :=
    ((h.isOpen _).mpr ⟨g, hg, rfl⟩).1
  refine ⟨fun key => ?_, ?_, ?_, fun n => ?_, ?_, h.inside_object hf, h.inside_entered,
    h.inside_nodup hf, h.ends, h.ended, fun n hn => Nat.lt_succ_of_lt (h.closed n hn)⟩
  · show Function.update s.ctx _ _ key = _
    by_cases hkey : serviceKey makers f.service = key
    · rw [← hkey, Function.update_self, hself, Option.map_some, hsession]
    · rw [Function.update_of_ne (Ne.symm hkey), hother hkey]
      exact h.ctx key
  · refine List.forall_mem_cons.mpr ⟨?_, fun g hg => ?_⟩
    · rw [hsession]
      exact Function.update_self _ _ _
    · show Function.update s.ctx _ _ _ = _
      rw [Function.update_of_ne (hne hg)]
      exact h.shared g hg
  · refine List.forall_mem_cons.mpr ⟨⟨fun _ => hself, fun _ => hopener⟩, fun g hg => ?_⟩
    rw [hother (hne hg).symm]
    exact h.opener g hg
  · show n < s.opened + 1 ∧ s.closed n = false ↔ ∃ g ∈ f :: s.stack, g.session = n
    rw [List.exists_mem_cons_iff, ← h.isOpen n, hsession]
    constructor
    · rintro ⟨hn, hclosed⟩
      rcases Nat.lt_succ_iff_lt_or_eq.mp hn with hn | hn
      · exact .inr ⟨hn, hclosed⟩
      · exact .inl hn.symm
    · rintro (rfl | ⟨hn, hclosed⟩)
      · refine ⟨Nat.lt_succ_self _, Bool.eq_false_iff.mpr fun hclosed => ?_⟩
        exact Nat.lt_irrefl _ (h.closed _ hclosed)
      · exact ⟨Nat.lt_succ_of_lt hn, hclosed⟩
  · refine List.forall_mem_cons.mpr ⟨?_, fun g hg => ?_⟩
    · rw [hsession]
      exact Function.update_self _ _ _
    · show Function.update s.sessionKey _ _ _ = _
      rw [Function.update_of_ne (hlt hg).ne]
      exact h.sessionKey g hg

end Inside

/-! ### Exits -/

section Left

variable (h : Layered makers s) (hs : s.stack = f :: fs)

include h hs

theorem service_ne_of_mem : ∀ g ∈ fs, g.service ≠ f.service := by
  have hnodup := h.nodup
  rw [hs, List.map_cons, List.nodup_cons] at hnodup
  exact fun g hg heq => hnodup.1 (List.mem_map.mpr ⟨g, hg, heq⟩)

omit h in
theorem mem_of_tail {g : Frame} (hg : g ∈ fs) : g ∈ s.stack := by
  rw [hs]
  exact .tail _ hg

theorem left_object (e : BlockExit) : ∀ g ∈ fs,
    (s.left f fs e).objects g.service = ⟨true, some g.session, g.opener⟩ := by
  intro g hg
  show Function.update s.objects f.service _ g.service = _
  rw [Function.update_of_ne (h.service_ne_of_mem hs g hg)]
  exact h.object g (mem_of_tail hs hg)

theorem left_entered (e : BlockExit) (i : ℕ) (hi : ((s.left f fs e).objects i).entered = true) :
    ∃ g ∈ fs, g.service = i := by
  have hi : (Function.update s.objects f.service _ i).entered = true := hi
  by_cases heq : i = f.service
  · rw [heq, Function.update_self] at hi
    cases hi
  · rw [Function.update_of_ne heq] at hi
    obtain ⟨g, hg, hservice⟩ := h.entered i hi
    rw [hs] at hg
    rcases List.mem_cons.mp hg with rfl | hg
    · exact absurd hservice.symm heq
    · exact ⟨g, hg, hservice⟩

theorem left_nodup : (fs.map (·.service)).Nodup := by
  have hnodup := h.nodup
  rw [hs, List.map_cons, List.nodup_cons] at hnodup
  exact hnodup.2

/-- A block that did not open its session leaves it to the blocks around. -/
theorem leave (hopener : f.opener = false) (raised : Bool) :
    Layered makers (s.left f fs ⟨f, raised, []⟩) := by
  set t := s.left f fs ⟨f, raised, []⟩
  have hf : f ∈ s.stack := by
    rw [hs]
    exact .head _
  have hnot : s.outermost makers (serviceKey makers f.service) ≠ some f := fun hself => by
    rw [← h.opener f hf, hopener] at hself
    cases hself
  have hin : (t.outermost makers (serviceKey makers f.service)).isSome := by
    rw [Option.isSome_iff_ne_none]
    exact fun hnone => hnot (outermost_cons_self hs rfl hnone)
  have hout (key : StorageKey) : s.outermost makers key = t.outermost makers key :=
    outermost_cons_of_isSome hs rfl hin
  refine ⟨fun key => ?_, fun g hg => ?_, fun g hg => ?_, fun n => ?_, fun g hg => ?_,
    h.left_object hs _, h.left_entered hs _, h.left_nodup hs, ?_, ?_, h.closed⟩
  · rw [← hout]
    exact h.ctx key
  · exact h.shared g (mem_of_tail hs hg)
  · rw [← hout]
    exact h.opener g (mem_of_tail hs hg)
  · show s.Open n ↔ ∃ g ∈ fs, g.session = n
    rw [h.isOpen n, hs, List.exists_mem_cons_iff]
    refine ⟨?_, .inr⟩
    rintro (rfl | hn)
    · obtain ⟨g, hg⟩ := Option.isSome_iff_exists.mp hin
      have hctx := h.shared f hf
      rw [h.ctx, hout, hg] at hctx
      exact ⟨g, (mem_of_outermost hg).1, Option.some.inj hctx⟩
    · exact hn
  · exact h.sessionKey g (mem_of_tail hs hg)
  · refine List.forall_mem_cons.mpr ⟨?_, h.ends⟩
    rw [hopener]
    rfl
  · refine List.forall_mem_cons.mpr ⟨fun htrue => ?_, h.ended⟩
    rw [hopener] at htrue
    cases htrue

/-- A block that opened its session ends it. -/
theorem finish (hopener : f.opener = true) (raised : Bool) :
    Layered makers
      { s.left f fs ⟨f, raised, [(.ofBody raised, f.session)]⟩ with
        closed := Function.update s.closed f.session true
        ctx := Function.update s.ctx (serviceKey makers f.service) none } := by
  set e : BlockExit := ⟨f, raised, [(.ofBody raised, f.session)]⟩ with he
  set t : Lifecycle := { s.left f fs e with
    closed := Function.update s.closed f.session true
    ctx := Function.update s.ctx (serviceKey makers f.service) none }
  have hf : f ∈ s.stack := by
    rw [hs]
    exact .head _
  have hmem : f ∉ fs := fun hmem => h.service_ne_of_mem hs f hmem rfl
  have hnone : t.outermost makers (serviceKey makers f.service) = none :=
    outermost_rest hs rfl hmem ((h.opener f hf).mp hopener)
  have hother {key : StorageKey} (hkey : serviceKey makers f.service ≠ key) :
      s.outermost makers key = t.outermost makers key :=
    outermost_cons_of_ne hs rfl hkey
  have hne {g : Frame} (hg : g ∈ fs) : serviceKey makers g.service ≠ serviceKey makers f.service :=
    key_ne_of_outermost_none hnone hg
  have hsession {g : Frame} (hg : g ∈ fs) : g.session ≠ f.session := fun heq => hne hg <| by
    rw [← h.sessionKey g (mem_of_tail hs hg), ← h.sessionKey f hf, heq]
  refine ⟨fun key => ?_, fun g hg => ?_, fun g hg => ?_, fun n => ?_, fun g hg => ?_,
    h.left_object hs e, h.left_entered hs e, h.left_nodup hs, ?_, ?_, fun n hn => ?_⟩
  · show Function.update s.ctx _ _ key = _
    by_cases hkey : serviceKey makers f.service = key
    · rw [← hkey, Function.update_self, hnone, Option.map_none]
    · rw [Function.update_of_ne (Ne.symm hkey), ← hother hkey]
      exact h.ctx key
  · show Function.update s.ctx _ _ _ = _
    rw [Function.update_of_ne (hne hg)]
    exact h.shared g (mem_of_tail hs hg)
  · rw [← hother (hne hg).symm]
    exact h.opener g (mem_of_tail hs hg)
  · show n < s.opened ∧ Function.update s.closed f.session true n = false ↔
      ∃ g ∈ fs, g.session = n
    have hopen := h.isOpen n
    rw [hs, List.exists_mem_cons_iff] at hopen
    by_cases hn : n = f.session
    · rw [hn, Function.update_self]
      refine ⟨fun hclosed => absurd hclosed.2 (by simp), ?_⟩
      rintro ⟨g, hg, heq⟩
      exact absurd heq (hsession hg)
    · rw [Function.update_of_ne hn]
      exact hopen.trans ⟨Or.rec (fun heq => absurd heq.symm hn) id, .inr⟩
  · exact h.sessionKey g (mem_of_tail hs hg)
  · refine List.forall_mem_cons.mpr ⟨?_, h.ends⟩
    rw [he, hopener]
    rfl
  · refine List.forall_mem_cons.mpr ⟨fun _ => Function.update_self _ _ _, fun e he htrue => ?_⟩
    show Function.update s.closed f.session true _ = true
    rw [Function.update_apply]
    split
    · rfl
    · exact h.ended e he htrue
  · have hn : Function.update s.closed f.session true n = true := hn
    by_cases heq : n = f.session
    · rw [heq]
      exact ((h.isOpen _).mpr ⟨f, hf, rfl⟩).1
    · rw [Function.update_of_ne heq] at hn
      exact h.closed n hn

end Left

theorem step (h : Layered makers s) (hok : EndsCleanly makers s a)
    (ha : lifecycleStep makers s a = some t) : Layered makers t := by
  cases lifecycle_effect hok ha with
  | refused => exact h
  | adopt hi hctx => exact h.adopt hi rfl hctx
  | own hi hctx => exact h.own hi rfl rfl hctx
  | @finish raised _ f fs n hs howns hsession =>
      have hobject := h.object f (by rw [hs]; exact .head _)
      rw [hobject] at howns hsession
      cases hsession
      exact h.finish hs howns raised
  | @leave raised _ f fs hs hnot =>
      have hobject := h.object f (by rw [hs]; exact .head _)
      rw [hobject] at hnot
      refine h.leave hs ?_ raised
      rcases hnot with howns | hsession
      · exact howns
      · cases hsession

end Layered

end Lifecycle

/-! ## Sessions and their data -/

section Storage

variable {δ : Type} {st : Storage δ} {s : Lifecycle}

/-- A service enters as it does in `SqlService.enter`, which keeps what the session sees. -/
theorem Lifecycle.aenter_eq_enter {i : ℕ} {key : StorageKey} (hi : (s.objects i).entered = false)
    (hctx : st.ctx = s.ctx) (hopened : st.opened = s.opened) :
    (∃ f, (s.aenter key i).stack = f :: s.stack ∧
      (SqlService.enter i key st).1 = ⟨i, key, f.session, f.opener⟩) ∧
      (SqlService.enter i key st).2.ctx = (s.aenter key i).ctx ∧
        (SqlService.enter i key st).2.opened = (s.aenter key i).opened := by
  cases hkey : s.ctx key with
  | some n =>
      refine ⟨⟨⟨i, n, false⟩, ?_⟩, ?_⟩
      all_goals simp [Lifecycle.aenter, SqlService.enter, hi, hkey, hctx, hopened]
  | none =>
      refine ⟨⟨⟨i, s.opened, true⟩, ?_⟩, ?_⟩
      all_goals simp [Lifecycle.aenter, SqlService.enter, hi, hkey, hctx, hopened]

/-- A service that knows its block exits as it does in `EnteredService.exit`. -/
theorem Lifecycle.aexit_eq_exit {key : StorageKey} {raised : Bool} {f : Frame} {fs : List Frame}
    (hobject : s.objects f.service = ⟨true, some f.session, f.opener⟩) (hctx : st.ctx = s.ctx)
    (hopened : st.opened = s.opened) :
    (EnteredService.exit raised ⟨f.service, key, f.session, f.opener⟩ st).ctx
        = (s.aexit key raised false f fs).ctx ∧
      (EnteredService.exit raised ⟨f.service, key, f.session, f.opener⟩ st).opened
        = (s.aexit key raised false f fs).opened := by
  cases hopener : f.opener <;> cases raised <;>
    simp [EnteredService.exit, Lifecycle.aexit, Lifecycle.left, hobject, hopener, hctx, hopened]

end Storage

/-- **Storage ownership is restored on every exit**, in every state of every run in which no commit
or rollback raises and no service that has owned storage adopts a session. -/
theorem storage_ownership {makers : ℕ → SessionMaker} {as : List LifecycleAction} {t : Lifecycle}
    (hrun : Trace.Run (lifecycleStep makers) (EndsCleanly makers) {} as t) :
    t.StorageOwnership makers :=
  (hrun.invariant (Lifecycle.Layered makers) (fun h hok ha => h.step hok ha) .initial).storageOwnership

section Demo

/-- Every service on engine 7. -/
def oneEngine (i : ℕ) : SessionMaker := ⟨i, some 7⟩

/-- Two services in one session, one of which raises; the outer one is then entered again. -/
theorem storage_ownership_reentered : ∃ t : Lifecycle,
    t.exits.map (·.ends) = [[(.rollback, 1)], [(.commit, 0)], []] ∧
      t.StorageOwnership oneEngine := by
  have hrun : (Trace.exec (lifecycleStep oneEngine) (EndsCleanly oneEngine) {}
      [.enter 0, .enter 1, .exit true false, .exit false false, .enter 0, .exit true false]).map
        (fun t => t.exits.map (·.ends)) = some [[(.rollback, 1)], [(.commit, 0)], []] := by decide
  obtain ⟨t, ht, hends⟩ := Option.map_eq_some_iff.mp hrun
  exact ⟨t, hends, storage_ownership (.of_exec ht)⟩

/-- A commit that raises: the session stays open and in the context, and the service entered. And a
service that has owned storage adopts the session of another, and commits it. -/
theorem storage_ownership_lost :
    (∃ t, Trace.exec (lifecycleStep oneEngine) (fun _ _ => True) {} [.enter 0, .exit false true]
        = some t ∧ ¬ t.StorageOwnership oneEngine) ∧
      ∃ t, Trace.exec (lifecycleStep oneEngine) (fun _ _ => True) {}
        [.enter 0, .exit false false, .enter 1, .enter 0, .exit false false] = some t ∧
          ¬ t.StorageOwnership oneEngine := by
  constructor
  · have hrun : (Trace.exec (lifecycleStep oneEngine) (fun _ _ => True) {}
        [.enter 0, .exit false true]).map (fun t => ((t.objects 0).entered, t.stack))
        = some (true, []) := by decide
    obtain ⟨t, ht, hleft⟩ := Option.map_eq_some_iff.mp hrun
    obtain ⟨hentered, hstack⟩ := Prod.mk.inj hleft
    refine ⟨t, ht, fun hown => ?_⟩
    obtain ⟨f, hf, -⟩ := (hown.entered 0).mp hentered
    rw [hstack] at hf
    cases hf
  · have hrun : (Trace.exec (lifecycleStep oneEngine) (fun _ _ => True) {}
        [.enter 0, .exit false false, .enter 1, .enter 0, .exit false false]).map
          (fun t => t.exits.head?) = some (some ⟨⟨0, 1, false⟩, false, [(.commit, 1)]⟩) := by decide
    obtain ⟨t, ht, hexit⟩ := Option.map_eq_some_iff.mp hrun
    refine ⟨t, ht, fun hown => ?_⟩
    have hends := hown.ends _ (List.mem_of_mem_head? hexit)
    cases hends

end Demo

end Resourcey
