import Resourcey.Auth.AuthorizedService
import Resourcey.Http.GetRoutes

/-!
# Private responses

A response under a principal's policies is sent with `Cache-Control: private` if one of the policies
is of a kind that scopes to the caller. That is a fact about the kinds of policies a principal was
given, and not about who else was given others: where a role grants all rows and another principal
has no role, the body of the one is not marked and the other is refused it (`unmarked_admin_read`).
`marked_iff` says for which two callers the responses to every request to every resource are marked
where they differ.

Both callers ask the same resource, whose own service is not told who is asking.
-/

namespace Resourcey

/-! ## Callers -/

/-- `Principal`, as far as policies go. -/
structure Principal where
  id : Option ℕ
  roles : List String

/-- `RolePolicyResolver`. -/
structure RolePolicyResolver where
  rolePolicies : String → List Policy := fun _ => []
  resourceRolePolicies : String → String → List Policy := fun _ _ => []
  default : List Policy := []
  resourceDefaults : String → Option (List Policy) := fun _ => none

/-- `RolePolicyResolver.resolve`, for a resource path. -/
def RolePolicyResolver.resolve (r : RolePolicyResolver) (path : String)
    (principal : Option Principal) : List Policy :=
  let roles := principal.elim [] Principal.roles
  let policies := roles.flatMap fun role => r.rolePolicies role ++ r.resourceRolePolicies path role
  if policies.isEmpty then (r.resourceDefaults path).getD r.default else policies

/-- What a resolver made of a principal, or of an anonymous request. -/
structure Caller where
  policies : List Policy
  userId : Option ℕ := none

/-- `build_service`: the policies of a principal, and the identifier they are reduced for. -/
def Caller.of (resolve : Option Principal → List Policy) (principal : Option Principal) : Caller where
  policies := resolve principal
  userId := principal.bind Principal.id

/-- `_response_is_caller_scoped`. -/
def Caller.scoped (x : Caller) : Bool := x.policies.any Policy.scopesToCaller

/-- The filter of a caller's policies for a standard action. -/
def Caller.reduction (x : Caller) (action : Action) : SearchFilter :=
  permissionFilter x.policies x.userId (.standard action)

/-! ## Responses -/

section

variable {α κ π φ : Type} [TextRules]

namespace AuthorizedService

variable (a : AuthorizedService α κ π φ)

/-- What `batch_read` returns at the position of an identifier. -/
def batchReadFound (s : a.Rows) (id : Value) : Option α :=
  match a.batchReadOne s id with
  | .ok found => found
  | .error _ => none

theorem idOf_batchReadFound {s : a.Rows} {id : Value} {r : α} (h : r ∈ a.batchReadFound s id) :
    a.inner.idOf r = id := by
  rw [batchReadFound, batchReadOne] at h
  cases hfind : s.find id with
  | none =>
      rw [hfind] at h
      cases h
  | some r' =>
      cases hadmits : a.admits (.standard .batchRead) r' with
      | error e =>
          simp only [hfind, hadmits] at h
          cases h
      | ok admitted =>
          simp only [hfind, hadmits] at h
          cases admitted with
          | false => cases h
          | true =>
              cases h
              exact (KeyedRows.find_eq_some_iff.mp hfind).2

end AuthorizedService

/-- The read actions of an authorized service. -/
def AuthorizedService.readService (a : AuthorizedService α κ π φ) : ReadService a.Rows α κ where
  idOf := a.inner.idOf
  read := a.readAs (.standard .read)
  search s searchFilter sort cursor limit :=
    let f := combine (a.permission (.standard .search)) searchFilter
    a.inner.search f sort cursor limit (a.inner.matching f s.rows)
  count s searchFilter :=
    let f := combine (a.permission (.standard .count)) searchFilter
    a.inner.count f (a.inner.matching f s.rows)
  batchRead s ids := ids.mapM (a.batchReadOne s)
  batchRead_aligned := by
    intro s ids items h
    refine ⟨a.batchReadFound s, ?_, fun id r hr => ?_⟩
    · induction ids generalizing items with
      | nil =>
          cases h
          rfl
      | cons id ids ih =>
          obtain ⟨item, rest, hitem, hrest, rfl⟩ := mapM_cons_eq_ok.mp h
          rw [List.map_cons, ← ih hrest, AuthorizedService.batchReadFound, hitem]
    · exact a.idOf_batchReadFound hr

/-- A resource that can be written, with the default cache strategy. -/
structure GuardedResource (α κ π φ : Type) where
  inner : FilteringService α κ π φ
  name : String := ""
  readResponse : α → Shown
  searchResponse : α → Shown
  filterJson : SearchFilter → JsonTree := fun _ => .null
  readShowsUpdatedAt : Bool := false
  supported : List Action := [.create]
  digest : Digest := .plain
  limits : RequestLimits := {}
  writable : .create ∈ supported ∨ .update ∈ supported ∨ .delete ∈ supported := by decide

namespace GuardedResource

variable (r : GuardedResource α κ π φ)

/-- The service a caller is given. -/
@[reducible] def service (x : Caller) : AuthorizedService α κ π φ where
  inner := r.inner
  policies := x.policies
  userId := x.userId
  resourceName := r.name

/-- The resource as the caller's GET routes see it. -/
def served (x : Caller) : ServedResource (KeyedRows α r.inner.idOf) α κ where
  service := (r.service x).readService
  readResponse := r.readResponse
  searchResponse := r.searchResponse
  filterJson := r.filterJson
  strategy := some (defaultCacheStrategy r.readShowsUpdatedAt r.supported)
  digest := r.digest
  limits := r.limits

/-- The response to a caller. -/
def respond (x : Caller) (s : KeyedRows α r.inner.idOf) (now : ℤ) (client : CacheHeader)
    (q : ReadRequest κ) : Response κ :=
  (r.served x).get s now x.scoped client q

end GuardedResource

namespace Response

/-- Two callers get different bodies, or one gets a body and the other an error. -/
def Differ : Response κ → Response κ → Prop
  | .ok body _, .ok body' _ => body ≠ body'
  | .ok _ _, .error _ | .error _, .ok _ _ => True
  | _, _ => False

/-- A body that is sent with `Cache-Control: private`. -/
def IsPrivate : Response κ → Prop
  | .ok _ (some header) => header.isPrivate = true
  | _ => False

end Response

/-- Whatever two callers ask of whatever resource: where the responses differ, one of them is
private. -/
def Marked (x x' : Caller) : Prop :=
  ∀ (α κ π φ : Type) (r : GuardedResource α κ π φ) s now now' client client' q,
    (r.respond x s now client q).Differ (r.respond x' s now' client' q) →
      (r.respond x s now client q).IsPrivate ∨ (r.respond x' s now' client' q).IsPrivate

end

/-! ## Outcomes -/

section

variable {ε β γ : Type}

/-- What a caller is told and may be kept for others, the other is told as well, and the same unless
it is marked. -/
def Covers (marked marked' : Bool) (o o' : Except ε β) : Prop :=
  marked = false → ∀ b, o = .ok b → ∃ b', o' = .ok b' ∧ (marked' = false → b' = b)

/-- Where the outcomes of two callers differ, one that is told something is marked. -/
def Marks (marked marked' : Bool) (o o' : Except ε β) : Prop :=
  Covers marked marked' o o' ∧ Covers marked' marked o' o

theorem Covers.of_eq {marked marked' : Bool} {o o' : Except ε β} (h : o = o') :
    Covers marked marked' o o' :=
  fun _ b hb => ⟨b, h ▸ hb, fun _ => rfl⟩

theorem Covers.bind {marked marked' : Bool} {o o' : Except ε β} {f f' : β → Except ε γ}
    (h : Covers marked marked' o o')
    (hf : ∀ b b', (marked = false → marked' = false → b' = b) →
      Covers marked marked' (f b) (f' b')) :
    Covers marked marked' (o >>= f) (o' >>= f') := by
  intro hmarked c hc
  obtain ⟨b, hb, hfb⟩ := bind_eq_ok.mp hc
  obtain ⟨b', hb', heq⟩ := h hmarked b hb
  obtain ⟨c', hc', heq'⟩ := hf b b' (fun _ => heq) hmarked c hfb
  exact ⟨c', bind_eq_ok.mpr ⟨b', hb', hc'⟩, heq'⟩

/-- Results that are made of the same by the same function. -/
theorem Covers.pure {marked marked' : Bool} {b b' : β}
    (h : marked = false → marked' = false → b' = b) :
    Covers marked marked' (Except.ok b : Except ε β) (.ok b') := by
  rintro hmarked _ ⟨⟩
  exact ⟨b', rfl, h hmarked⟩

theorem Covers.mapError {ε' : Type} {marked marked' : Bool} {o o' : Except ε β}
    (h : Covers marked marked' o o') (g : ε → ε') :
    Covers marked marked' (o.mapError g) (o'.mapError g) := by
  intro hmarked b hb
  cases o with
  | error e => cases hb
  | ok b =>
      cases hb
      obtain ⟨b', rfl, heq⟩ := h hmarked b rfl
      exact ⟨b', rfl, heq⟩

theorem Covers.mapM {marked marked' : Bool} {f f' : γ → Except ε β}
    (h : ∀ c, Covers marked marked' (f c) (f' c)) (cs : List γ) :
    Covers marked marked' (cs.mapM f) (cs.mapM f') := by
  induction cs with
  | nil => exact .of_eq rfl
  | cons c cs ih =>
      rw [List.mapM_cons, List.mapM_cons]
      refine (h c).bind fun b b' hb => ih.bind fun bs bs' hbs => .pure fun hmarked hmarked' => ?_
      rw [hb hmarked hmarked', hbs hmarked hmarked']

end

section

variable {α κ π φ : Type} [TextRules] {x x' : Caller} {r : GuardedResource α κ π φ}
  {s : KeyedRows α r.inner.idOf} {q : ReadRequest κ}

omit [TextRules] in
theorem defaultCacheStrategy_of_writable {shows : Bool} {supported : List Action}
    (h : .create ∈ supported ∨ .update ∈ supported ∨ .delete ∈ supported) :
    (defaultCacheStrategy shows supported).isPrivate = false ∧
      (defaultCacheStrategy shows supported).kind ≠ .optimistic := by
  have hwritable : ¬ (.create ∉ supported ∧ .update ∉ supported ∧ .delete ∉ supported) := by
    rintro ⟨hcreate, hupdate, hdelete⟩
    rcases h with h | h | h
    · exact hcreate h
    · exact hupdate h
    · exact hdelete h
  rw [defaultCacheStrategy, if_neg hwritable]
  cases shows with
  | true => exact ⟨rfl, by simp⟩
  | false => exact ⟨rfl, by simp⟩

/-- The answer to a caller, before it is made a response. -/
def GuardedResource.answer (r : GuardedResource α κ π φ) (x : Caller) (s : KeyedRows α r.inner.idOf)
    (q : ReadRequest κ) : Except ResourceyError (Answered κ) :=
  (r.served x).answered s q

omit [TextRules] in
theorem header_isPrivate (a : Answered κ) (d : Digest) (strategy : CacheStrategy) (now : ℤ) :
    (a.header d strategy now).isPrivate = strategy.isPrivate := by
  cases a <;> rfl

omit [TextRules] in
/-- Any strategy but an optimistic one makes a validator. -/
theorem header_hasAny (a : Answered κ) (d : Digest) {strategy : CacheStrategy} (now : ℤ)
    (hkind : strategy.kind ≠ .optimistic) : (a.header d strategy now).hasAny = true := by
  cases hcase : strategy.kind with
  | optimistic => exact absurd hcase hkind
  | eTag =>
      cases a <;> simp [Answered.header, CacheStrategy.getCacheHeader,
        CacheStrategy.countCacheHeader, CacheStrategy.withExpiry, CacheHeader.hasAny, hcase]
  | lastModified =>
      cases a <;> simp [Answered.header, CacheStrategy.getCacheHeader,
        CacheStrategy.countCacheHeader, CacheStrategy.withExpiry, CacheHeader.hasAny, hcase]

omit [TextRules] in
/-- The header of an answer is private if the strategy or the service says so. -/
theorem headerFor_eq_some {σ : Type} {r : ServedResource σ α κ} {strategy : CacheStrategy}
    (hstrategy : r.strategy = some strategy) (hkind : strategy.kind ≠ .optimistic) (a : Answered κ)
    (now : ℤ) (responseIsPrivate : Bool) : ∃ header,
    r.headerFor now responseIsPrivate a = some header ∧
      header.isPrivate = (strategy.isPrivate || responseIsPrivate) := by
  refine ⟨a.header r.digest (strategy.withPrivate responseIsPrivate) now, ?_, ?_⟩
  · have hany := header_hasAny a r.digest now
      (show (strategy.withPrivate responseIsPrivate).kind ≠ .optimistic from hkind)
    simp only [ServedResource.headerFor, hstrategy, hany, if_true]
  · rw [header_isPrivate]
    rfl

/-- An answer is sent with a header that is private if the caller is scoped. -/
theorem respond_of_answer {a : Answered κ} (h : r.answer x s q = .ok a) (now : ℤ) :
    ∃ header : CacheHeader, header.isPrivate = x.scoped ∧ ∀ client, r.respond x s now client q
      = if header.isModified client then .ok a.body (some header) else .notModified header := by
  obtain ⟨hprivate, hkind⟩ : (defaultCacheStrategy r.readShowsUpdatedAt r.supported).isPrivate = false
      ∧ (defaultCacheStrategy r.readShowsUpdatedAt r.supported).kind ≠ .optimistic :=
    defaultCacheStrategy_of_writable r.writable
  obtain ⟨header, hheader, hscoped⟩ :=
    headerFor_eq_some (show (r.served x).strategy = some _ from rfl) hkind a now x.scoped
  have hanswered : (r.served x).answered s q = .ok a := h
  refine ⟨header, ?_, fun client => ?_⟩
  · rw [hscoped, hprivate, Bool.false_or]
  · simp only [GuardedResource.respond, ServedResource.get, hanswered, hheader,
      ServedResource.cachedJsonResponse]

theorem respond_of_error {e : ResourceyError} (h : r.answer x s q = .error e) (now : ℤ)
    (client : CacheHeader) : r.respond x s now client q = .error e := by
  rw [GuardedResource.answer] at h
  simp only [GuardedResource.respond, ServedResource.get, h]

omit [TextRules] in
/-- A client without validators is sent the body. -/
theorem isModified_of_no_validators (header : CacheHeader) : header.isModified {} = true := by
  unfold CacheHeader.isModified
  split <;> rfl

theorem Marked.symm (h : Marked x x') : Marked x' x := by
  intro α κ π φ r s now now' client client' q hdiffer
  refine (h α κ π φ r s now' now client' client q ?_).symm
  revert hdiffer
  generalize r.respond x s now' client' q = y
  generalize r.respond x' s now client q = y'
  intro hdiffer
  cases y <;> cases y' <;> first | exact Ne.symm hdiffer | exact hdiffer

/-- A body that is not marked is one the other caller gets too, if it is not refused. -/
theorem Marked.covers (h : Marked x x') (r : GuardedResource α κ π φ)
    (s : KeyedRows α r.inner.idOf) (q : ReadRequest κ) :
    Covers x.scoped x'.scoped ((r.answer x s q).map Answered.body)
      ((r.answer x' s q).map Answered.body) := by
  intro hscoped body hbody
  cases ha : r.answer x s q with
  | error e =>
      rw [ha] at hbody
      cases hbody
  | ok a =>
      rw [ha] at hbody
      cases hbody
      obtain ⟨header, hprivate, hrespond⟩ := respond_of_answer ha 0
      have hmarked := h α κ π φ r s 0 0 {} {} q
      rw [hrespond, if_pos (isModified_of_no_validators header)] at hmarked
      have hpublic : ¬ Response.IsPrivate (.ok a.body (some header) : Response κ) := by
        simp only [Response.IsPrivate, hprivate, hscoped, Bool.false_eq_true, not_false_eq_true]
      cases ha' : r.answer x' s q with
      | error e =>
          rw [respond_of_error ha'] at hmarked
          rcases hmarked trivial with hmarked | hmarked
          · exact absurd hmarked hpublic
          · cases hmarked
      | ok a' =>
          refine ⟨a'.body, rfl, fun hscoped' => ?_⟩
          obtain ⟨header', hprivate', hrespond'⟩ := respond_of_answer ha' 0
          rw [hrespond', if_pos (isModified_of_no_validators header')] at hmarked
          by_contra hne
          rcases hmarked (Ne.symm hne) with hmarked | hmarked
          · exact hpublic hmarked
          · rw [Response.IsPrivate, hprivate', hscoped'] at hmarked
            cases hmarked

/-- Where the answers are covered in both directions, the responses are marked. -/
theorem marked_of_marks (h : ∀ (α κ π φ : Type) (r : GuardedResource α κ π φ) s q,
    Marks x.scoped x'.scoped (r.answer x s q) (r.answer x' s q)) : Marked x x' := by
  intro α κ π φ r s now now' client client' q hdiffer
  obtain ⟨hcovers, hcovers'⟩ := h α κ π φ r s q
  cases ha : r.answer x s q with
  | error e =>
      rw [respond_of_error ha] at hdiffer ⊢
      cases ha' : r.answer x' s q with
      | error e' =>
          rw [respond_of_error ha'] at hdiffer
          cases hdiffer
      | ok a' =>
          obtain ⟨header', hprivate', hrespond'⟩ := respond_of_answer ha' now'
          rw [hrespond'] at hdiffer ⊢
          split at hdiffer
          · next hmodified =>
              rw [if_pos hmodified]
              refine .inr (hprivate'.trans (Bool.not_eq_false _ ▸ fun hscoped' => ?_))
              obtain ⟨a, hok, -⟩ := hcovers' hscoped' a' ha'
              rw [ha] at hok
              cases hok
          · cases hdiffer
  | ok a =>
      obtain ⟨header, hprivate, hrespond⟩ := respond_of_answer ha now
      rw [hrespond] at hdiffer ⊢
      split at hdiffer
      · next hmodified =>
          rw [if_pos hmodified]
          cases hscoped : x.scoped with
          | true => exact .inl (hprivate.trans hscoped)
          | false =>
              obtain ⟨a', ha', heq⟩ := hcovers hscoped a ha
              obtain ⟨header', hprivate', hrespond'⟩ := respond_of_answer ha' now'
              rw [hrespond'] at hdiffer ⊢
              split at hdiffer
              · next hmodified' =>
                  rw [if_pos hmodified']
                  refine .inr (hprivate'.trans (Bool.not_eq_false _ ▸ fun hscoped' => ?_))
                  exact hdiffer (congrArg Answered.body (heq hscoped').symm)
              · cases hdiffer
      · revert hdiffer
        generalize r.respond x' s now' client' q = y
        intro hdiffer
        cases y <;> cases hdiffer

/-! ## Reductions -/

/-- The reductions of two callers' policies tell them nothing apart that is not marked: they are the
same filters where they are passed on, unless both callers are scoped, and they answer the same of a
row where they are asked about it, unless the caller that is told more is scoped. -/
structure ReducedAlike (x x' : Caller) : Prop where
  passed : x.scoped = true ∧ x'.scoped = true ∨
    ∀ action ∈ [Action.search, .count], x.reduction action = x'.reduction action
  read : ∀ row,
    ((x.reduction .read).matches row = .ok true →
      x.scoped = true ∨ (x'.reduction .read).matches row = .ok true) ∧
    ((x'.reduction .read).matches row = .ok true →
      x'.scoped = true ∨ (x.reduction .read).matches row = .ok true)
  batchRead : ∀ row, Marks x.scoped x'.scoped ((x.reduction .batchRead).matches row)
    ((x'.reduction .batchRead).matches row)

theorem ReducedAlike.symm (h : ReducedAlike x x') : ReducedAlike x' x where
  passed := h.passed.imp And.symm fun heq action haction => (heq action haction).symm
  read row := (h.read row).symm
  batchRead row := (h.batchRead row).symm

theorem readAs_ok_iff {a : AuthorizedService α κ π φ} {action : ActionName} {s : a.Rows}
    {id : Value} {row : α} : a.readAs action s id = .ok row ↔ s.find id = some row ∧
      (a.permission action).matches (a.inner.toDto row) = .ok true := by
  rw [AuthorizedService.readAs]
  cases hfind : s.find id with
  | none => simp
  | some row' =>
      simp only [AuthorizedService.admits, Option.some.injEq]
      cases hmatches : (a.permission action).matches (a.inner.toDto row') with
      | error e =>
          simp only [Except.mapError, bind, Except.bind, reduceCtorEq, false_iff, not_and]
          rintro rfl
          simp [hmatches]
      | ok b =>
          cases b with
          | false =>
              simp only [Except.mapError, bind, Except.bind]
              constructor
              · intro h
                cases h
              · rintro ⟨rfl, h⟩
                rw [hmatches] at h
                cases h
          | true =>
              simp only [Except.mapError, bind, Except.bind]
              constructor
              · intro h
                cases h
                exact ⟨rfl, hmatches⟩
              · rintro ⟨rfl, -⟩
                rfl

theorem batchReadOne_of_none {a : AuthorizedService α κ π φ} {s : a.Rows} {id : Value}
    (h : s.find id = none) : a.batchReadOne s id = .ok none := by
  simp only [AuthorizedService.batchReadOne, h]
  rfl

theorem batchReadOne_of_some {a : AuthorizedService α κ π φ} {s : a.Rows} {id : Value} {row : α}
    (h : s.find id = some row) : a.batchReadOne s id
      = (((a.permission (.standard .batchRead)).matches (a.inner.toDto row)).mapError .typeError >>=
          fun admitted => .ok (if admitted then some row else none)) := by
  simp only [AuthorizedService.batchReadOne, h]
  rfl

theorem ReducedAlike.readAs_covers (h : ReducedAlike x x') (r : GuardedResource α κ π φ)
    (s : KeyedRows α r.inner.idOf) (id : Value) :
    Covers x.scoped x'.scoped ((r.service x).readAs (.standard .read) s id)
      ((r.service x').readAs (.standard .read) s id) := by
  intro hscoped row hrow
  obtain ⟨hfind, hmatches⟩ := readAs_ok_iff.mp hrow
  rcases (h.read (r.inner.toDto row)).1 hmatches with hscoped' | hmatches'
  · rw [hscoped] at hscoped'
    cases hscoped'
  · exact ⟨row, readAs_ok_iff.mpr ⟨hfind, hmatches'⟩, fun _ => rfl⟩

theorem ReducedAlike.batchReadOne_covers (h : ReducedAlike x x') (r : GuardedResource α κ π φ)
    (s : KeyedRows α r.inner.idOf) (id : Value) :
    Covers x.scoped x'.scoped ((r.service x).batchReadOne s id)
      ((r.service x').batchReadOne s id) := by
  cases hfind : s.find id with
  | none =>
      refine .of_eq ?_
      rw [batchReadOne_of_none hfind, batchReadOne_of_none hfind]
  | some row =>
      rw [batchReadOne_of_some hfind, batchReadOne_of_some hfind]
      have hrow := (h.batchRead (r.inner.toDto row)).1
      refine (hrow.mapError ResourceyError.typeError).bind fun b b' hb => .pure fun hmarked hmarked' => ?_
      rw [hb hmarked hmarked']

theorem ReducedAlike.covers (h : ReducedAlike x x') (r : GuardedResource α κ π φ)
    (s : KeyedRows α r.inner.idOf) (q : ReadRequest κ) :
    Covers x.scoped x'.scoped (r.answer x s q) (r.answer x' s q) := by
  intro hscoped
  have hpassed : ∀ action ∈ [Action.search, .count], x.reduction action = x'.reduction action := by
    refine h.passed.resolve_left fun hboth => ?_
    rw [hscoped] at hboth
    cases hboth.1
  revert hscoped
  cases q with
  | read id =>
      refine (h.readAs_covers r s id).bind fun row row' hrow => .pure fun hm hm' => ?_
      rw [hrow hm hm']
      rfl
  | search searchFilter sort cursor limit =>
      refine Covers.of_eq ?_
      have heq : (r.service x).permission (.standard .search)
          = (r.service x').permission (.standard .search) := hpassed .search (by simp)
      have hsearch : (r.served x).service.search s searchFilter sort cursor limit
          = (r.served x').service.search s searchFilter sort cursor limit := by
        simp only [GuardedResource.served, AuthorizedService.readService, heq]
      simp only [GuardedResource.answer, ServedResource.answered, hsearch]
      rfl
  | count searchFilter =>
      refine Covers.of_eq ?_
      have heq : (r.service x).permission (.standard .count)
          = (r.service x').permission (.standard .count) := hpassed .count (by simp)
      have hcount : (r.served x).service.count s searchFilter
          = (r.served x').service.count s searchFilter := by
        simp only [GuardedResource.served, AuthorizedService.readService, heq]
      simp only [GuardedResource.answer, ServedResource.answered, hcount]
      rfl
  | batchRead ids =>
      refine (Covers.of_eq rfl).bind fun _ _ _ => ?_
      refine (Covers.mapM (h.batchReadOne_covers r s) ids).bind fun items items' hitems => ?_
      refine .pure fun hm hm' => ?_
      rw [hitems hm hm']
      rfl

/-! ## Telling reductions apart -/

/-- A service that answers a search and a count under some filters only. -/
def probe (accepts : SearchFilter → Bool) : FilteringService Subject Unit Unit Unit where
  idOf _ := .scalar (.int 0)
  toDto := id
  payloadId _ := .none
  create _ _ _ := .error (.service "a probe is read only")
  update _ _ _ _ := .ok none
  delete _ _ _ := .ok false
  search f _ _ limit _ :=
    if accepts f then .ok ⟨[], limit, none⟩ else .error (.unsupportedFilter "not accepted")
  count f _ := if accepts f then .ok 0 else .error (.unsupportedFilter "not accepted")
  admitsEdit _ := .ok ()
  update_some := by
    intro _ _ _ _ _ h
    cases h
  delete_true := by
    intro _ _ _ h
    cases h

/-- A resource over a probe, which shows nothing of a row. -/
@[reducible] def probeResource (accepts : SearchFilter → Bool) : GuardedResource Subject Unit Unit Unit where
  inner := probe accepts
  readResponse _ := { json := .null }
  searchResponse _ := { json := .null }

/-- A store with one row. -/
def oneRow (accepts : SearchFilter → Bool) (row : Subject) :
    KeyedRows Subject (probe accepts).idOf where
  rows := [row]
  nodup := List.nodup_singleton _

theorem answer_probe_search (accepts : SearchFilter → Bool) (x : Caller)
    (s : KeyedRows Subject (probe accepts).idOf) :
    (probeResource accepts).answer x s (.search none none none 1)
      = if accepts (x.reduction .search) then .ok (.page [] 1 none)
        else .error (.unsupportedFilter "not accepted") := by
  have hsearch : ((probeResource accepts).served x).service.search s none none none 1
      = if accepts (x.reduction .search) then .ok ⟨[], 1, none⟩
        else .error (.unsupportedFilter "not accepted") := rfl
  simp only [GuardedResource.answer, ServedResource.answered, hsearch]
  split
  · rfl
  · rfl

theorem answer_probe_count (accepts : SearchFilter → Bool) (x : Caller)
    (s : KeyedRows Subject (probe accepts).idOf) :
    (probeResource accepts).answer x s (.count none)
      = if accepts (x.reduction .count) then .ok (.count 0 none)
        else .error (.unsupportedFilter "not accepted") := by
  have hcount : ((probeResource accepts).served x).service.count s none
      = if accepts (x.reduction .count) then .ok 0
        else .error (.unsupportedFilter "not accepted") := rfl
  simp only [GuardedResource.answer, ServedResource.answered, hcount]
  split
  · rfl
  · rfl

/-- A caller who is not scoped has the filters of the other, where they are passed on. -/
theorem Marked.reduction_eq (h : Marked x x') (hscoped : x.scoped = false) :
    ∀ action ∈ [Action.search, .count], x.reduction action = x'.reduction action := by
  classical
  intro action haction
  let accepts (f : SearchFilter) : Bool := decide (f = x.reduction action)
  have hself : accepts (x.reduction action) = true := decide_eq_true rfl
  have hcovers := h.covers (probeResource accepts) ⟨[], List.nodup_nil⟩
  by_contra hne
  have hother : accepts (x'.reduction action) = false := decide_eq_false fun heq => hne heq.symm
  simp only [List.mem_cons, List.not_mem_nil, or_false] at haction
  rcases haction with rfl | rfl
  · have hsearch := hcovers (.search none none none 1) hscoped
    rw [answer_probe_search, answer_probe_search, hself, hother] at hsearch
    obtain ⟨_, hok, -⟩ := hsearch _ rfl
    cases hok
  · have hcount := hcovers (.count none) hscoped
    rw [answer_probe_count, answer_probe_count, hself, hother] at hcount
    obtain ⟨_, hok, -⟩ := hcount _ rfl
    cases hok

omit [TextRules] in
theorem find_oneRow (accepts : SearchFilter → Bool) (row : Subject) :
    (oneRow accepts row).find (.scalar (.int 0)) = some row := rfl

/-- What a caller reads of the row of a probe. -/
theorem answer_probe_read {accepts : SearchFilter → Bool} {row : Subject} {b : Body Unit} :
    ((probeResource accepts).answer x (oneRow accepts row) (.read (.scalar (.int 0)))).map
      Answered.body = .ok b ↔ (x.reduction .read).matches row = .ok true ∧ b = .item .null := by
  have hread : ((probeResource accepts).served x).service.read (oneRow accepts row)
      (.scalar (.int 0)) = ((probeResource accepts).service x).readAs (.standard .read)
        (oneRow accepts row) (.scalar (.int 0)) := rfl
  rw [GuardedResource.answer, ServedResource.answered, hread]
  have hok : ((probeResource accepts).service x).readAs (.standard .read) (oneRow accepts row)
      (.scalar (.int 0)) = .ok row ↔ (x.reduction .read).matches row = .ok true :=
    readAs_ok_iff.trans (and_iff_right (find_oneRow accepts row))
  rw [← hok]
  cases hrow : ((probeResource accepts).service x).readAs (.standard .read) (oneRow accepts row)
      (.scalar (.int 0)) with
  | error e =>
      constructor
      · intro h
        cases h
      · rintro ⟨h, -⟩
        cases h
  | ok row' =>
      obtain ⟨hfind, -⟩ := readAs_ok_iff.mp hrow
      obtain rfl : row = row' := Option.some.inj ((find_oneRow accepts row).symm.trans hfind)
      constructor
      · intro h
        cases h
        exact ⟨rfl, rfl⟩
      · rintro ⟨-, rfl⟩
        rfl

/-- What a caller batch-reads of the row of a probe. -/
theorem answer_probe_batchRead {accepts : SearchFilter → Bool} {row : Subject} {b : Body Unit} :
    ((probeResource accepts).answer x (oneRow accepts row) (.batchRead [.scalar (.int 0)])).map
      Answered.body = .ok b ↔ ∃ admitted, (x.reduction .batchRead).matches row = .ok admitted ∧
        b = .items [if admitted then some .null else none] := by
  have hbatch : ((probeResource accepts).served x).service.batchRead (oneRow accepts row)
      [.scalar (.int 0)] = (((x.reduction .batchRead).matches row).mapError
        ResourceyError.typeError >>= fun admitted => .ok [if admitted then some row else none]) := by
    have hone : ((probeResource accepts).service x).batchReadOne (oneRow accepts row)
        (.scalar (.int 0)) = (((x.reduction .batchRead).matches row).mapError
          ResourceyError.typeError >>= fun admitted => .ok (if admitted then some row else none)) :=
      batchReadOne_of_some (find_oneRow accepts row)
    show [Value.scalar (.int 0)].mapM (((probeResource accepts).service x).batchReadOne _) = _
    rw [List.mapM_cons, List.mapM_nil, hone]
    cases (x.reduction .batchRead).matches row <;> rfl
  simp only [GuardedResource.answer, ServedResource.answered, hbatch]
  cases (x.reduction .batchRead).matches row with
  | error e =>
      constructor
      · intro h
        cases h
      · rintro ⟨_, h, -⟩
        cases h
  | ok admitted =>
      constructor
      · intro h
        cases h
        cases admitted
        · exact ⟨false, rfl, rfl⟩
        · exact ⟨true, rfl, rfl⟩
      · rintro ⟨_, h, rfl⟩
        cases h
        cases admitted <;> rfl

theorem Marked.read (h : Marked x x') (row : Subject)
    (hmatches : (x.reduction .read).matches row = .ok true) :
    x.scoped = true ∨ (x'.reduction .read).matches row = .ok true := by
  refine (Bool.eq_false_or_eq_true x.scoped).imp_right fun hscoped => ?_
  have hcovers := h.covers (probeResource fun _ => true) (oneRow _ row) (.read (.scalar (.int 0)))
  obtain ⟨b', hb', -⟩ := hcovers hscoped _ (answer_probe_read.mpr ⟨hmatches, rfl⟩)
  exact (answer_probe_read.mp hb').1

theorem Marked.batchRead (h : Marked x x') (row : Subject) :
    Covers x.scoped x'.scoped ((x.reduction .batchRead).matches row)
      ((x'.reduction .batchRead).matches row) := by
  intro hscoped admitted hmatches
  have hcovers := h.covers (probeResource fun _ => true) (oneRow _ row)
    (.batchRead [.scalar (.int 0)])
  obtain ⟨b', hb', heq⟩ := hcovers hscoped _ (answer_probe_batchRead.mpr ⟨admitted, hmatches, rfl⟩)
  obtain ⟨admitted', hmatches', rfl⟩ := answer_probe_batchRead.mp hb'
  refine ⟨admitted', hmatches', fun hscoped' => ?_⟩
  have heq := heq hscoped'
  cases admitted <;> cases admitted' <;> first | rfl | cases heq

/-- **The responses to two callers are marked where they differ exactly if** their policies are
reduced alike: both callers are scoped or have the same filters for a search and a count, and a
caller who is not scoped is told of no row what the other is not told. -/
theorem marked_iff (x x' : Caller) : Marked x x' ↔ ReducedAlike x x' := by
  constructor
  · intro h
    refine ⟨?_, fun row => ⟨h.read row, h.symm.read row⟩,
      fun row => ⟨h.batchRead row, h.symm.batchRead row⟩⟩
    rcases Bool.eq_false_or_eq_true x.scoped with hscoped | hscoped
    · rcases Bool.eq_false_or_eq_true x'.scoped with hscoped' | hscoped'
      · exact .inl ⟨hscoped, hscoped'⟩
      · exact .inr fun action haction => (h.symm.reduction_eq hscoped' action haction).symm
    · exact .inr (h.reduction_eq hscoped)
  · intro h
    exact marked_of_marks fun α κ π φ r s q => ⟨h.covers r s q, h.symm.covers r s q⟩

end

section Demo

/-- Administrators may do everything, and nobody else anything. -/
def adminRoles : RolePolicyResolver where
  rolePolicies role := if role = "ADMIN" then [.allowAll] else []

/-- One value, kept in a list. -/
def guardedValue : GuardedResource Subject Unit Unit Unit := probeResource fun _ => true

/-- Two administrators are answered alike. -/
theorem marked_admins :
    letI := TextRules.ascii
    Marked (.of (adminRoles.resolve "values") (some ⟨some 1, ["ADMIN"]⟩))
      (.of (adminRoles.resolve "values") (some ⟨some 2, ["ADMIN"]⟩)) := by
  let _ := TextRules.ascii
  refine (marked_iff _ _).mpr ⟨.inr fun action _ => rfl, fun row => ⟨.inr, .inr⟩, fun row => ?_⟩
  exact ⟨.of_eq rfl, .of_eq rfl⟩

/-- An administrator reads the value, and it is not marked; an anonymous caller is told that it is
not there. -/
theorem unmarked_admin_read :
    letI := TextRules.ascii
    ¬ Marked (.of (adminRoles.resolve "values") (some ⟨some 1, ["ADMIN"]⟩))
      (.of (adminRoles.resolve "values") none) := by
  let _ := TextRules.ascii
  intro h
  have hmarked := h _ _ _ _ guardedValue (oneRow _ (.value .none)) 0 0 {} {} (.read (.scalar (.int 0)))
  rcases hmarked trivial with h | h
  · cases h
  · cases h

end Demo

end Resourcey
