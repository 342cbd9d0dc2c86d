import Resourcey.Auth.ServiceWrapper

/-!
# Policies that say yes or no

An `AuthorizedService` hands the filter of its policies down to the service it wraps, also where the
filter is a constant. A service honours the two constants (`HonoursConstants`) if under `AllFilter` a
call does what it does alone, and under `NoMatchFilter` finds nothing and leaves the store. Over such
a service a principal with full grants gets the results of the inner service (`transcript_all`), and
one with none gets nothing (`transcript_noMatch`).
-/

namespace Resourcey

variable {σ α κ π φ : Type}

/-! ## Calls that a service supports -/

/-- What the store holds is why the call fails. -/
def ResourceyError.OfStore : ResourceyError → Prop
  | .notFound _ | .conflict _ | .notNull _ => True
  | _ => False

/-- A failure of the store. -/
def ServiceFailure.OfStore : ServiceFailure → Prop
  | .raised e => e.OfStore
  | _ => False

/-- The call returns, or fails for what the store holds. -/
def Settled {β : Type} : Except ServiceFailure β → Prop
  | .ok _ => True
  | .error e => e.OfStore

theorem settled_mapError {β : Type} {x : Except ResourceyError β} :
    Settled (x.mapError .raised) ↔ ∀ e, x = .error e → e.OfStore := by
  cases x with
  | error e => simp [Except.mapError, Settled, ServiceFailure.OfStore]
  | ok b => simp [Except.mapError, Settled]

/-- The call is one of the service: in some store it settles. A batch returns in some store, so
that it is not refused at an edit that another store does not come to, and its deletions name an
identifier. -/
def Service.Supports (T : Service σ α κ π φ) : ServiceCall κ π φ → Prop
  | .applyEdits edits => (∀ e ∈ edits, ∀ condition, e.2 ≠ .delete .none condition) ∧
      ∃ s results, (T.call (.applyEdits edits) s).1 = .ok results
  | c => ∃ s, Settled (T.call c s).1

/-- Every call of a sequence is one of the service, and settles where the sequence comes to it. -/
def Service.SupportsRun (T : Service σ α κ π φ) : σ → List (ServiceCall κ π φ) → Prop
  | _, [] => True
  | s, c :: calls => T.Supports c ∧ Settled (T.call c s).1 ∧ T.SupportsRun (T.call c s).2 calls

/-- What a sequence of calls returns and raises, and the store that it leaves. -/
def Service.transcript (T : Service σ α κ π φ) : σ → List (ServiceCall κ π φ) →
    List ((c : ServiceCall κ π φ) × Except ServiceFailure (c.Reply α)) × σ
  | s, [] => ([], s)
  | s, c :: calls =>
    let (r, s) := T.call c s
    let (rs, s) := T.transcript s calls
    (⟨c, r⟩ :: rs, s)

theorem Service.transcript_cons (T : Service σ α κ π φ) (s : σ) (c : ServiceCall κ π φ)
    (calls : List (ServiceCall κ π φ)) : T.transcript s (c :: calls) =
      (⟨c, (T.call c s).1⟩ :: (T.transcript (T.call c s).2 calls).1,
        (T.transcript (T.call c s).2 calls).2) := rfl

/-! ## The two laws -/

/-- An outcome of the inner service, a missed update or deletion being a `NotFoundError`. -/
def missed (payloadId : π → Value) : (c : ServiceCall κ π φ) → Except ServiceFailure (c.Reply α) →
    Except ServiceFailure (c.Reply α)
  | .update _ payload _, .ok none => .error (.raised (.notFound (payloadId payload)))
  | .delete id _, .ok false => .error (.raised (.notFound id))
  | _, r => r

/-- A miss is a failure of the store. -/
theorem settled_missed (payloadId : π → Value) {c : ServiceCall κ π φ}
    {r : Except ServiceFailure (c.Reply α)} (h : Settled r) : Settled (missed payloadId c r) := by
  cases c with
  | update env payload condition =>
      rcases r with e | _ | r
      · exact h
      · exact trivial
      · exact trivial
  | delete id condition =>
      rcases r with e | _ | _
      · exact h
      · exact trivial
      · exact trivial
  | _ => exact h

/-- What a principal gets that may do nothing. -/
def denied (resourceName : String) (payloadId : π → Value) :
    (c : ServiceCall κ π φ) → Except ServiceFailure (c.Reply α)
  | .create _ _ => .error (.raised (.forbidden resourceName Action.create.value))
  | .read id | .delete id _ | .authorize _ id => .error (.raised (.notFound id))
  | .update _ payload _ => .error (.raised (.notFound (payloadId payload)))
  | .search _ _ _ limit => .ok ⟨[], limit, none⟩
  | .count _ => .ok 0
  | .batchRead ids => .ok (ids.map fun _ => none)
  | .applyEdits edits => .ok (edits.map fun _ => none)

variable [TextRules]

/-- **Full grants give the results of the inner service, and no grants give nothing.** -/
def Service.Authorizes (T : Service σ α κ π φ) (payloadId : π → Value) (s : σ)
    (calls : List (ServiceCall κ π φ)) : Prop :=
  ∀ a : Authorization α π, a.payloadId = payloadId →
    ((∀ action, a.permission action = .all) → (a.service T).transcript s calls =
      ((T.transcript s calls).1.map fun r => ⟨r.1, missed payloadId r.1 r.2⟩,
        (T.transcript s calls).2)) ∧
    ((∀ action, a.permission action = .noMatch) → (a.service T).transcript s calls =
      (calls.map fun c => ⟨c, denied a.resourceName payloadId c⟩, s))

/-! ## Services that honour the constants -/

omit [TextRules] in
/-- The wrapper hands a filter down with the call. -/
def ServiceCall.PassesFilter : ServiceCall κ π φ → Prop
  | .update _ _ _ | .delete _ _ | .search _ _ _ _ | .count _ => True
  | .applyEdits edits => edits ≠ []
  | .create _ _ | .read _ | .batchRead _ | .authorize _ _ => False

omit [TextRules] in
/-- An edit under the filter of the policies. -/
def Edit.under (f : SearchFilter) : Edit π → Edit π
  | .create item => .create item
  | .update item condition => .update item (some (combine f condition))
  | .delete id condition => .delete id (some (combine f condition))

omit [TextRules] in
/-- The edits of a batch under the filter of the policies. -/
def editsUnder (f : SearchFilter) (edits : List (φ × Edit π)) : List (φ × Edit π) :=
  edits.map fun e => (e.1, e.2.under f)

omit [TextRules] in
/-- Every update of a batch names an identifier. -/
def NamesUpdates (payloadId : π → Value) (edits : List (φ × Edit π)) : Prop :=
  ∀ e ∈ edits, ∀ item ∈ e.2.updated, payloadId item ≠ .none

omit [TextRules] in
/-- Calls without a filter: reads leave the store and fail only because there is nothing to read,
and an empty batch does nothing. There is no action besides the standard ones. -/
structure ReadsPlainly (T : Service σ α κ π φ) : Prop where
  read : ∀ {id s'}, Settled (T.call (.read id) s').1 → ∀ s,
    (∃ r, T.call (.read id) s = (.ok r, s)) ∨
      T.call (.read id) s = (.error (.raised (.notFound id)), s)
  batchRead : ∀ {ids s'}, Settled (T.call (.batchRead ids) s').1 → ∀ s,
    ∃ items, T.call (.batchRead ids) s = (.ok items, s) ∧ items.length = ids.length
  noEdits : ∀ {s'}, Settled (T.call (.applyEdits []) s').1 → ∀ s,
    T.call (.applyEdits []) s = (.ok [], s)
  authorize : ∀ action id s, ¬ Settled (T.call (.authorize action id) s).1

omit [TextRules] in
/-- Under `AllFilter` a call that settles does what it does alone, and under `NoMatchFilter` a call
that the service supports finds nothing and leaves the store. -/
structure HonoursConstants (T : Service σ α κ π φ) (payloadId : π → Value) : Prop where
  search_all : ∀ {f sort cursor limit s}, Settled (T.call (.search f sort cursor limit) s).1 →
    T.call (.search (some (combine .all f)) sort cursor limit) s =
      T.call (.search f sort cursor limit) s
  search_noMatch : ∀ {f sort cursor limit s'}, Settled (T.call (.search f sort cursor limit) s').1 →
    ∀ s, T.call (.search (some .noMatch) sort cursor limit) s = (.ok ⟨[], limit, none⟩, s)
  count_all : ∀ {f s}, Settled (T.call (.count f) s).1 →
    T.call (.count (some (combine .all f))) s = T.call (.count f) s
  count_noMatch : ∀ {f s'}, Settled (T.call (.count f) s').1 →
    ∀ s, T.call (.count (some .noMatch)) s = (.ok 0, s)
  update_all : ∀ {env payload condition s}, Settled (T.call (.update env payload condition) s).1 →
    T.call (.update env payload (some (combine .all condition))) s =
      T.call (.update env payload condition) s
  update_noMatch : ∀ {env payload condition s'},
    Settled (T.call (.update env payload condition) s').1 →
    ∀ s, T.call (.update env payload (some .noMatch)) s = (.ok none, s)
  delete_all : ∀ {id condition s}, Settled (T.call (.delete id condition) s).1 →
    T.call (.delete id (some (combine .all condition))) s = T.call (.delete id condition) s
  delete_noMatch : ∀ {id condition s'}, Settled (T.call (.delete id condition) s').1 →
    ∀ s, T.call (.delete id (some .noMatch)) s = (.ok false, s)
  namesUpdates : ∀ {edits s results}, (T.call (.applyEdits edits) s).1 = .ok results →
    NamesUpdates payloadId edits
  aligned : ∀ {edits s results}, (T.call (.applyEdits edits) s).1 = .ok results →
    results.length = edits.length
  edits_all : ∀ {edits s}, NamesUpdates payloadId edits →
    Settled (T.call (.applyEdits edits) s).1 →
    T.call (.applyEdits (editsUnder .all edits)) s = T.call (.applyEdits edits) s
  edits_noMatch : ∀ {edits s' results}, (T.call (.applyEdits edits) s').1 = .ok results →
    ∀ s, T.call (.applyEdits (editsUnder .noMatch (edits.filter fun e => e.2.created.isNone))) s =
      (.ok ((edits.filter fun e => e.2.created.isNone).map fun _ => none), s)

/-! ## What the wrapper passes on -/

omit [TextRules] in
theorem combine_noMatch (condition : Option SearchFilter) : combine .noMatch condition = .noMatch := by
  cases condition with
  | none => rfl
  | some f => rfl

omit [TextRules] in
/-- Results that all miss stay so in their places. -/
theorem spread_none {β : Type} (flags : List Bool) :
    spread flags ((flags.filter id).map fun _ => (none : Option β)) = flags.map fun _ => none := by
  induction flags with
  | nil => rfl
  | cons flag flags ih =>
      cases flag with
      | true => simp only [List.filter_cons_of_pos, id, List.map_cons, spread, ih]
      | false => simpa [spread] using ih

namespace Authorization

variable (a : Authorization α π)

omit [TextRules] in
/-- Under full grants every edit is passed on. -/
theorem permitted_all (ha : ∀ action, a.permission action = .all) {edits : List (φ × Edit π)}
    (hnamed : ∀ e ∈ edits, ∀ condition, e.2 ≠ .delete .none condition)
    (hupdates : NamesUpdates a.payloadId edits) :
    edits.map (fun e => a.permitted e.1 e.2) = (editsUnder .all edits).map some := by
  rw [editsUnder, List.map_map]
  refine List.map_congr_left fun e he => ?_
  obtain ⟨env, edit⟩ := e
  cases edit with
  | create item =>
      simp only [permitted, ha]
      rfl
  | update item condition =>
      have hid : a.payloadId item ≠ .none := hupdates _ he item rfl
      simp only [permitted, ha, if_neg hid]
      rfl
  | delete id condition =>
      have hid : id ≠ .none := fun h => hnamed _ he condition (h ▸ rfl)
      simp only [permitted, ha, if_neg hid]
      rfl

omit [TextRules] in
/-- Without grants no creation is passed on, and of the others each under `NoMatchFilter`. -/
theorem permitted_noMatch (ha : ∀ action, a.permission action = .noMatch)
    {edits : List (φ × Edit π)} (hnamed : ∀ e ∈ edits, ∀ condition, e.2 ≠ .delete .none condition)
    (hupdates : NamesUpdates a.payloadId edits) :
    edits.map (fun e => a.permitted e.1 e.2) = edits.map fun e =>
      if e.2.created.isNone then some (e.1, e.2.under .noMatch) else none := by
  refine List.map_congr_left fun e he => ?_
  obtain ⟨env, edit⟩ := e
  cases edit with
  | create item =>
      simp only [permitted, ha]
      rfl
  | update item condition =>
      have hid : a.payloadId item ≠ .none := hupdates _ he item rfl
      simp only [permitted, ha, if_neg hid]
      rfl
  | delete id condition =>
      have hid : id ≠ .none := fun h => hnamed _ he condition (h ▸ rfl)
      simp only [permitted, ha, if_neg hid]
      rfl

variable {a} {T : Service σ α κ π φ} {s : σ}

omit [TextRules] in
/-- A batch by what is passed on of it, and in which places. -/
theorem applyEdits_eq {edits passed : List (φ × Edit π)} {flags : List Bool}
    (hpassed : (edits.map fun e => a.permitted e.1 e.2).filterMap id = passed)
    (hflags : (edits.map fun e => a.permitted e.1 e.2).map Option.isSome = flags) :
    a.applyEdits T edits s = if passed = [] then (.ok (edits.map fun _ => none), s)
      else ((T.call (.applyEdits passed) s).1.map (spread flags),
        (T.call (.applyEdits passed) s).2) := by
  subst hpassed hflags
  rfl

omit [TextRules] in
/-- A batch under full grants is the batch. -/
theorem applyEdits_all {edits : List (φ × Edit π)} (hplain : ReadsPlainly T)
    (hfilters : edits ≠ [] → HonoursConstants T a.payloadId)
    (ha : ∀ action, a.permission action = .all) (hsup : T.Supports (.applyEdits edits))
    (hs : Settled (T.call (.applyEdits edits) s).1) :
    a.applyEdits T edits s = T.call (.applyEdits edits) s := by
  obtain ⟨hnamed, s', results, hok⟩ := hsup
  by_cases hedits : edits = []
  · subst hedits
    have hsettled : Settled (T.call (.applyEdits []) s').1 := by
      rw [hok]
      trivial
    rw [hplain.noEdits hsettled]
    rfl
  · obtain hT := hfilters hedits
    have hupdates := hT.namesUpdates hok
    have hpassed : (edits.map fun e => a.permitted e.1 e.2).filterMap id = editsUnder .all edits := by
      rw [a.permitted_all ha hnamed hupdates]
      simp
    have hflags : (edits.map fun e => a.permitted e.1 e.2).map Option.isSome =
        edits.map fun _ => true := by
      rw [a.permitted_all ha hnamed hupdates, editsUnder, List.map_map, List.map_map]
      rfl
    have hne : editsUnder .all edits ≠ [] := by
      simpa [editsUnder] using hedits
    rw [applyEdits_eq hpassed hflags, if_neg hne, hT.edits_all hupdates hs]
    -- What comes back is a result for every edit.
    rcases hcall : T.call (.applyEdits edits) s with ⟨e | results, s''⟩
    · rfl
    · have hlength : List.length results = edits.length := hT.aligned (congrArg Prod.fst hcall)
      rw [Except.map, spread_true hlength]

omit [TextRules] in
/-- A batch without grants misses in every place, and leaves the store. -/
theorem applyEdits_noMatch {edits : List (φ × Edit π)}
    (hfilters : edits ≠ [] → HonoursConstants T a.payloadId)
    (ha : ∀ action, a.permission action = .noMatch) (hsup : T.Supports (.applyEdits edits)) :
    a.applyEdits T edits s = (.ok (edits.map fun _ => none), s) := by
  obtain ⟨hnamed, s', results, hok⟩ := hsup
  by_cases hedits : edits = []
  · subst hedits
    rfl
  · obtain hT := hfilters hedits
    have hpassed : (edits.map fun e => a.permitted e.1 e.2).filterMap id =
        editsUnder .noMatch (edits.filter fun e => e.2.created.isNone) := by
      rw [a.permitted_noMatch ha hnamed (hT.namesUpdates hok), List.filterMap_map, editsUnder,
        ← List.filterMap_eq_filter, List.map_filterMap]
      refine List.filterMap_congr fun e _ => ?_
      cases hcreated : e.2.created with
      | none => simp [hcreated, Option.guard]
      | some item => simp [hcreated, Option.guard]
    have hflags : (edits.map fun e => a.permitted e.1 e.2).map Option.isSome =
        edits.map fun e => e.2.created.isNone := by
      rw [a.permitted_noMatch ha hnamed (hT.namesUpdates hok), List.map_map]
      refine List.map_congr_left fun e _ => ?_
      cases hcreated : e.2.created with
      | none => simp [hcreated]
      | some item => simp [hcreated]
    have hmissed : (edits.filter fun e => e.2.created.isNone).map (fun _ => (none : Option α)) =
        ((edits.map fun e => e.2.created.isNone).filter id).map fun _ => none := by
      rw [List.filter_map, List.map_map]
      rfl
    rw [applyEdits_eq hpassed hflags]
    split
    · rfl
    · rw [hT.edits_noMatch hok s, hmissed, Except.map, spread_none, List.map_map]
      rfl

theorem admits_all (ha : ∀ action, a.permission action = .all) (action : ActionName) (r : α) :
    a.admits action r = .ok true := by
  rw [admits, ha]
  rfl

theorem admits_noMatch (ha : ∀ action, a.permission action = .noMatch) (action : ActionName)
    (r : α) : a.admits action r = .ok false := by
  rw [admits, ha]
  rfl

/-- Under full grants a read shows what it found. -/
theorem screen_all (ha : ∀ action, a.permission action = .all) (id : Value) (r : α) :
    a.screen (.standard .read) id r = .ok r := by
  rw [screen, admits_all ha]
  rfl

/-- Without grants a read shows nothing. -/
theorem screen_noMatch (ha : ∀ action, a.permission action = .noMatch) (id : Value) (r : α) :
    a.screen (.standard .read) id r = .error (.raised (.notFound id)) := by
  rw [screen, admits_noMatch ha]
  rfl

/-- Under full grants a batch-read shows what it found. -/
theorem screenItem_all (ha : ∀ action, a.permission action = .all) (items : List (Option α)) :
    items.mapM a.screenItem = .ok items := by
  induction items with
  | nil => rfl
  | cons item items ih =>
      refine mapM_cons_eq_ok.mpr ⟨item, items, ?_, ih, rfl⟩
      cases item with
      | none => rfl
      | some r =>
          rw [screenItem, admits_all ha]
          rfl

/-- Without grants a batch-read shows nothing. -/
theorem screenItem_noMatch (ha : ∀ action, a.permission action = .noMatch)
    (items : List (Option α)) : items.mapM a.screenItem = .ok (items.map fun _ => none) := by
  induction items with
  | nil => rfl
  | cons item items ih =>
      refine mapM_cons_eq_ok.mpr ⟨none, items.map fun _ => none, ?_, ih, rfl⟩
      cases item with
      | none => rfl
      | some r =>
          rw [screenItem, admits_noMatch ha]
          rfl

/-- **Under full grants a call gives the inner result, a miss being a `NotFoundError`.** -/
theorem service_all {c : ServiceCall κ π φ} (hplain : ReadsPlainly T)
    (hfilters : c.PassesFilter → HonoursConstants T a.payloadId)
    (ha : ∀ action, a.permission action = .all) (hsup : T.Supports c)
    (hs : Settled (T.call c s).1) :
    (a.service T).call c s = (missed a.payloadId c (T.call c s).1, (T.call c s).2) := by
  cases c with
  | create env payload =>
      simp only [service, ha]
      rfl
  | read id =>
      rw [service_read]
      rcases hplain.read hs s with ⟨r, hr⟩ | hr
      · rw [hr]
        exact Prod.ext (screen_all ha id r) rfl
      · rw [hr]
        rfl
  | update env payload condition =>
      rw [service_update, ha, (hfilters trivial).update_all hs]
      rcases T.call (.update env payload condition) s with ⟨_ | _ | r, s'⟩
      · rfl
      · rfl
      · rfl
  | delete id condition =>
      rw [service_delete, ha, (hfilters trivial).delete_all hs]
      rcases T.call (.delete id condition) s with ⟨_ | _ | _, s'⟩
      · rfl
      · rfl
      · rfl
  | search f sort cursor limit =>
      rw [service_search, ha, (hfilters trivial).search_all hs]
      rfl
  | count f =>
      rw [service_count, ha, (hfilters trivial).count_all hs]
      rfl
  | batchRead ids =>
      rw [service_batchRead]
      obtain ⟨items, hitems, -⟩ := hplain.batchRead hs s
      rw [hitems]
      exact Prod.ext (screenItem_all ha items) rfl
  | authorize action id => exact absurd hs (hplain.authorize action id s)
  | applyEdits edits => exact applyEdits_all hplain (fun h => hfilters h) ha hsup hs

/-- **Without grants a call gives nothing, and leaves the store.** -/
theorem service_noMatch {c : ServiceCall κ π φ} (hplain : ReadsPlainly T)
    (hfilters : c.PassesFilter → HonoursConstants T a.payloadId)
    (ha : ∀ action, a.permission action = .noMatch) (hsup : T.Supports c) :
    (a.service T).call c s = (denied a.resourceName a.payloadId c, s) := by
  cases c with
  | create env payload =>
      simp only [service, ha]
      rfl
  | read id =>
      obtain ⟨s', hs'⟩ := hsup
      rw [service_read]
      rcases hplain.read hs' s with ⟨r, hr⟩ | hr
      · rw [hr]
        exact Prod.ext (screen_noMatch ha id r) rfl
      · rw [hr]
        rfl
  | update env payload condition =>
      obtain ⟨s', hs'⟩ := hsup
      rw [service_update, ha, combine_noMatch, (hfilters trivial).update_noMatch hs' s]
      rfl
  | delete id condition =>
      obtain ⟨s', hs'⟩ := hsup
      rw [service_delete, ha, combine_noMatch, (hfilters trivial).delete_noMatch hs' s]
      rfl
  | search f sort cursor limit =>
      obtain ⟨s', hs'⟩ := hsup
      rw [service_search, ha, combine_noMatch, (hfilters trivial).search_noMatch hs' s]
      rfl
  | count f =>
      obtain ⟨s', hs'⟩ := hsup
      rw [service_count, ha, combine_noMatch, (hfilters trivial).count_noMatch hs' s]
      rfl
  | batchRead ids =>
      obtain ⟨s', hs'⟩ := hsup
      obtain ⟨items, hitems, hlength⟩ := hplain.batchRead hs' s
      have hmissed : items.map (fun _ => (none : Option α)) = ids.map fun _ => none := by
        rw [List.map_const', List.map_const', hlength]
      rw [service_batchRead, hitems]
      exact Prod.ext ((screenItem_noMatch ha items).trans (congrArg Except.ok hmissed)) rfl
  | authorize action id =>
      obtain ⟨s', hs'⟩ := hsup
      exact absurd hs' (hplain.authorize action id s')
  | applyEdits edits => exact applyEdits_noMatch (fun h => hfilters h) ha hsup

end Authorization

/-! ## Sequences of calls -/

/-- **The two laws hold of a sequence of calls whose filters are honoured.** -/
theorem Service.authorizes {T : Service σ α κ π φ} {payloadId : π → Value} {s : σ}
    {calls : List (ServiceCall κ π φ)} (hplain : ReadsPlainly T)
    (hfilters : ∀ c ∈ calls, c.PassesFilter → HonoursConstants T payloadId)
    (hrun : T.SupportsRun s calls) : T.Authorizes payloadId s calls := by
  rintro a rfl
  constructor
  · intro ha
    induction calls generalizing s with
    | nil => rfl
    | cons c calls ih =>
        obtain ⟨hsup, hs, hrest⟩ := hrun
        obtain ⟨hc, hcalls⟩ := List.forall_mem_cons.mp hfilters
        rw [transcript, Authorization.service_all hplain hc ha hsup hs]
        simp only [ih hrest hcalls, transcript]
        rfl
  · intro ha
    -- The store is never left, so every call is made of the first one.
    have hsups : ∀ c ∈ calls, T.Supports c := by
      induction calls generalizing s with
      | nil => nofun
      | cons c calls ih =>
          obtain ⟨hsup, -, hrest⟩ := hrun
          rw [List.forall_mem_cons] at hfilters ⊢
          exact ⟨hsup, ih hrest hfilters.2⟩
    clear hrun
    induction calls with
    | nil => rfl
    | cons c calls ih =>
        obtain ⟨hc, hcalls⟩ := List.forall_mem_cons.mp hfilters
        obtain ⟨hsup, hrest⟩ := List.forall_mem_cons.mp hsups
        rw [transcript, Authorization.service_noMatch hplain hc ha hsup]
        simp only [ih hcalls hrest]
        rfl

end Resourcey
