import Resourcey.Http.GetRoutes
import Resourcey.Logic.Trace

/-!
# Last-modified times

Under the last-modified strategy the validator of a response is the latest `updated_at` among the
items it shows, cut to the second. It does not see an item leave, nor one that comes in with an
older time, nor a second write within the second: a client that holds a body of before is told that
nothing changed (`delete_304`). `not_modified_truthful` is the run theorem for the writes that,
when they change what the request is answered with, bring an item into it that is later than the
latest it had. A run is a sequence of writes, whatever they do to the store; the items that the
request was last answered with are kept beside it.
-/

namespace Resourcey

open CacheStrategy Trace

variable {σ α κ ω : Type}

/-- What `parsedate_to_datetime` makes of the text that `format_datetime` makes of an instant: a
year below 100 is taken for one of 1969 to 2068. -/
def echoed (t : ℤ) : ℤ :=
  if t < -59989680000000000 then t + 730485 * 86400000000
  else if t < -59011459200000000 then t + 693960 * 86400000000
  else t

theorem le_echoed (t : ℤ) : t ≤ echoed t := by
  unfold echoed
  split
  · omega
  · split
    · omega
    · exact le_refl _

/-- The items of an answer, with the gaps of a batch. -/
def Answered.shown : Answered κ → Option (List (Option Shown))
  | .item x => some [some x]
  | .page xs _ _ => some (xs.map some)
  | .count _ _ => none
  | .items xs => some xs

/-! ## The latest item -/

theorem stamp_le_lastModified {xs : List (Option Shown)} {t : ℤ}
    (h : t ∈ datetimeMin :: stamps xs) : t ≤ lastModified xs :=
  List.le_max_of_mem h

theorem lastModified_mem (xs : List (Option Shown)) :
    lastModified xs ∈ datetimeMin :: stamps xs :=
  List.max_mem (List.cons_ne_nil _ _)

/-- Items are as they were, or one of them is later than the latest that was there, also as a client
echoes its time. -/
def Advances (last items : List (Option Shown)) : Prop :=
  items = last ∨ ∃ t ∈ stamps items, ∃ u ∈ datetimeMin :: stamps last,
    (∀ v ∈ datetimeMin :: stamps last, v ≤ u) ∧ echoed u < t

/-- Items that advance are told from those before by their time, and no others are. -/
theorem advances_iff {last items : List (Option Shown)} :
    Advances last items ↔ (lastModified items ≤ echoed (lastModified last) → items = last) := by
  constructor
  · rintro (rfl | ⟨t, ht, u, hu, hlatest, hlt⟩) hle
    · rfl
    · have hu : lastModified last = u :=
        le_antisymm (hlatest _ (lastModified_mem last)) (stamp_le_lastModified hu)
      have htle := stamp_le_lastModified (List.mem_cons_of_mem datetimeMin ht)
      rw [hu] at hle
      omega
  · intro h
    refine or_iff_not_imp_left.mpr fun hne => ?_
    have hlt : echoed (lastModified last) < lastModified items := by
      by_contra hle
      exact hne (h (by omega))
    refine ⟨lastModified items, ?_, lastModified last, lastModified_mem last,
      fun v hv => stamp_le_lastModified hv, hlt⟩
    rcases List.mem_cons.mp (lastModified_mem items) with hmin | hmem
    · have hle := le_echoed (lastModified last)
      have hfirst : datetimeMin ≤ lastModified last := stamp_le_lastModified (.head _)
      omega
    · exact hmem

namespace ServedResource

/-- The items a request is answered with. -/
def shown (r : ServedResource σ α κ) (s : σ) (q : ReadRequest κ) : Option (List (Option Shown)) :=
  (r.answered s q).toOption.bind Answered.shown

/-- The store, and the items a request was last answered with. -/
structure Watched (σ : Type) where
  store : σ
  last : List (Option Shown)

/-- A write. -/
def watchedStep (r : ServedResource σ α κ) (q : ReadRequest κ) (write : σ → ω → σ)
    (s : Watched σ) (w : ω) : Option (Watched σ) :=
  let store := write s.store w
  some ⟨store, (r.shown store q).getD s.last⟩

/-- A write that changes what the request is answered with brings a later item into it. -/
def AdvancesAnswer (r : ServedResource σ α κ) (q : ReadRequest κ) (write : σ → ω → σ)
    (s : Watched σ) (w : ω) : Prop :=
  ∀ items ∈ r.shown (write s.store w) q, Advances s.last items

/-- A client that holds the body of one state and echoes its `Last-Modified` in another is told that
nothing changed only if the items are those it holds. -/
def TruthfulSince (r : ServedResource σ α κ) (q : ReadRequest κ) (s s' : σ) : Prop :=
  ∀ now now' private' private'' client client' body header header' items,
    r.get s now private' client q = .ok body (some header) → r.shown s q = some items →
      client'.updatedAt = header.updatedAt.map echoed →
        r.get s' now' private'' client' q = .notModified header' → r.shown s' q = some items

variable {r : ServedResource σ α κ} {strategy : CacheStrategy} {q : ReadRequest κ} {s s' : σ}
  {xs ys : List (Option Shown)} {write : σ → ω → σ}

/-! ## The header of items -/

theorem answered_of_shown (hxs : r.shown s q = some xs) :
    ∃ a, r.answered s q = .ok a ∧ Answered.shown a = some xs := by
  rw [shown] at hxs
  cases ha : r.answered s q with
  | error e =>
      rw [ha] at hxs
      cases hxs
  | ok a =>
      rw [ha] at hxs
      exact ⟨a, rfl, hxs⟩

/-- A request is answered with items in every state or in none. -/
theorem exists_shown {a : Answered κ} (hxs : r.shown s q = some xs)
    (ha : r.answered s' q = .ok a) : ∃ ys, r.shown s' q = some ys := by
  obtain ⟨b, hb, hshown⟩ := answered_of_shown hxs
  rw [shown, ha]
  cases q with
  | read id =>
      obtain ⟨x, rfl⟩ := answered_read ha
      exact ⟨_, rfl⟩
  | search f sort cursor limit =>
      obtain ⟨items, _, _, rfl⟩ := answered_search ha
      exact ⟨_, rfl⟩
  | count f =>
      obtain ⟨n, rfl⟩ := answered_count hb
      cases hshown
  | batchRead ids =>
      obtain ⟨items, -, rfl⟩ := answered_batchRead ha
      exact ⟨_, rfl⟩

/-- The response to a request that is answered with items carries the latest of their times. -/
theorem get_of_shown (hstrategy : r.strategy = some strategy) (hkind : strategy.kind = .lastModified)
    (hxs : r.shown s q = some xs) (now : ℤ) (responseIsPrivate : Bool) :
    ∃ a header, header.etag = none ∧ header.updatedAt = some (lastModified xs) ∧
      ∀ client, r.get s now responseIsPrivate client q
        = if header.isModified client then .ok (Answered.body a) (some header)
          else .notModified header := by
  obtain ⟨a, ha, hshown⟩ := answered_of_shown hxs
  let header := (strategy.withPrivate responseIsPrivate).withExpiry now
    { updatedAt := some (lastModified xs) }
  have hheader : a.header r.digest (strategy.withPrivate responseIsPrivate) now = header := by
    cases a with
    | count n filters => cases hshown
    | item x =>
        cases hshown
        simp [header, Answered.header, getCacheHeader, withPrivate, hkind]
    | page items limit nextCursor =>
        cases hshown
        simp [header, Answered.header, getCacheHeader, withPrivate, hkind]
    | items items =>
        cases hshown
        simp [header, Answered.header, getCacheHeader, withPrivate, hkind]
  have hany : header.hasAny = true := by
    simp [header, withExpiry, CacheHeader.hasAny]
  refine ⟨a, header, rfl, rfl, fun client => ?_⟩
  simp only [get, ha, headerFor, hstrategy, hheader, hany, if_true, cachedJsonResponse]

theorem isModified_eq_false_iff {header client : CacheHeader} {t u : ℤ} (hetag : header.etag = none)
    (ht : header.updatedAt = some t) (hu : client.updatedAt = some u) :
    header.isModified client = false ↔ t ≤ u := by
  simp only [CacheHeader.isModified, hetag, ht, hu, decide_eq_false_iff_not, not_lt]

/-- What a client is told is true if the items, where they changed, are later than the latest that
it holds. -/
theorem truthfulSince_iff (hstrategy : r.strategy = some strategy)
    (hkind : strategy.kind = .lastModified) (hxs : r.shown s q = some xs) :
    TruthfulSince r q s s' ↔ ∀ ys ∈ r.shown s' q, Advances xs ys := by
  constructor
  · intro h ys hys
    refine advances_iff.mpr fun hle => ?_
    obtain ⟨a, header, hetag, ht, hget⟩ := get_of_shown hstrategy hkind hxs 0 false
    obtain ⟨b, header', hetag', ht', hget'⟩ := get_of_shown hstrategy hkind hys 0 false
    have hfirst : r.get s 0 false {} q = .ok (Answered.body a) (some header) := by
      rw [hget]
      simp only [CacheHeader.isModified, hetag, ht, if_true]
    have hcurrent : header'.isModified { updatedAt := some (echoed (lastModified xs)) } = false :=
      (isModified_eq_false_iff hetag' ht' rfl).mpr hle
    have hlater : r.get s' 0 false { updatedAt := some (echoed (lastModified xs)) } q
        = .notModified header' := by
      rw [hget', hcurrent, if_neg Bool.false_ne_true]
    have hitems := h _ _ _ _ _ _ _ _ _ _ hfirst hxs (by rw [ht, Option.map_some]) hlater
    exact Option.some.inj ((Option.mem_def.mp hys).symm.trans hitems)
  · intro h now now' private' private'' client client' body header header' items hfirst hitems
      hechoed hlater
    obtain rfl := Option.some.inj (hxs.symm.trans hitems)
    cases ha : r.answered s' q with
    | error e => simp only [get, ha, reduceCtorEq] at hlater
    | ok b =>
        obtain ⟨ys, hys⟩ := exists_shown hxs ha
        obtain ⟨a, header₁, hetag, ht, hget⟩ := get_of_shown hstrategy hkind hxs now private'
        obtain ⟨b, header₂, hetag', ht', hget'⟩ := get_of_shown hstrategy hkind hys now' private''
        rw [hget] at hfirst
        rw [hget'] at hlater
        split at hfirst
        · cases hfirst
          split at hlater
          · cases hlater
          · next hcurrent =>
              have hclient : client'.updatedAt = some (echoed (lastModified xs)) := by
                rw [hechoed, ht, Option.map_some]
              have hle := (isModified_eq_false_iff hetag' ht' hclient).mp (Bool.not_eq_true _ ▸ hcurrent)
              rw [hys, advances_iff.mp (h ys hys) hle]
        · cases hfirst

/-! ## Runs -/

/-- The items kept beside the store are those it answers with, and they are those of the start of
the run or later than a client echoes them. -/
structure Tracks (r : ServedResource σ α κ) (q : ReadRequest κ) (xs : List (Option Shown))
    (t : Watched σ) : Prop where
  current : ∀ ys ∈ r.shown t.store q, ys = t.last
  later : t.last = xs ∨ echoed (lastModified xs) < lastModified t.last

theorem Tracks.step {t t' : Watched σ} {w : ω} (h : Tracks r q xs t)
    (hadvances : AdvancesAnswer r q write t w) (hstep : watchedStep r q write t w = some t') :
    Tracks r q xs t' := by
  cases hstep
  cases hys : r.shown (write t.store w) q with
  | none => exact ⟨by simp [hys], h.later⟩
  | some ys =>
      refine ⟨by simp [hys], ?_⟩
      have hadvances := advances_iff.mp (hadvances ys hys)
      simp only [Option.getD_some]
      by_cases hle : lastModified ys ≤ echoed (lastModified t.last)
      · rw [hadvances hle]
        exact h.later
      · rcases h.later with hlast | hlater
        · rw [hlast] at hle
          exact .inr (by omega)
        · have hechoed := le_echoed (lastModified t.last)
          exact .inr (by omega)

theorem Tracks.advances {t : Watched σ} (h : Tracks r q xs t) :
    ∀ ys ∈ r.shown t.store q, Advances xs ys := by
  intro ys hys
  rw [h.current ys hys]
  refine advances_iff.mpr fun hle => ?_
  rcases h.later with hlast | hlater
  · exact hlast
  · omega

/-- **A `304` under the last-modified strategy is truthful** in every state that is reached by
writes which, when they change what the request is answered with, bring an item into it that is
later than the latest it had; and after a single write exactly then. -/
theorem not_modified_truthful {strategy : CacheStrategy} (hstrategy : r.strategy = some strategy)
    (hkind : strategy.kind = .lastModified) (hxs : r.shown s q = some xs) (write : σ → ω → σ) :
    (∀ ws t, Run (watchedStep r q write) (AdvancesAnswer r q write) ⟨s, xs⟩ ws t →
      TruthfulSince r q s t.store) ∧
    ∀ w, TruthfulSince r q s (write s w) ↔ AdvancesAnswer r q write ⟨s, xs⟩ w := by
  refine ⟨fun ws t hrun => ?_, fun w => truthfulSince_iff hstrategy hkind hxs⟩
  have hstart : Tracks r q xs (⟨s, xs⟩ : Watched σ) := by
    refine ⟨fun ys hys => ?_, .inl rfl⟩
    exact Option.some.inj ((Option.mem_def.mp hys).symm.trans hxs)
  have htracks := hrun.invariant (Tracks r q xs) (fun h hok hstep => h.step hok hstep) hstart
  exact (truthfulSince_iff hstrategy hkind hxs).mpr htracks.advances

section Demo

/-- A value to store, and the time it is stored at. -/
structure StampedPayload where
  id : ℤ
  value : ℤ
  updatedAt : ℤ := 0

/-- A table of values and the times they were written at. -/
def stampedResource : SqlResource (ℤ × ℤ × ℤ) StampedPayload ℤ where
  name := "StampedResource"
  columnForAttr name := if name ∈ ["id", "value", "updated_at"] then some name else none
  queryable _ := true
  sortable _ := true
  idColumn := "id"
  row r name := if name = "id" then .scalar (.int r.1) else
    if name = "value" then .scalar (.int r.2.1) else
    if name = "updated_at" then .scalar (.int r.2.2) else .none
  payloadId p := .scalar (.int p.id)
  withDefaults now _ p := { p with updatedAt := now }
  hasData _ := true
  write p r := (r.1, p.value, p.updatedAt)
  insert _ p := .ok (p.id, p.value, p.updatedAt)
  supported := [.create, .update, .delete]

/-- The table after an edit at an instant; one that raises leaves it as it was. -/
def stampedWrite [TextRules] (rows : List (ℤ × ℤ × ℤ)) (edit : ℤ × Edit StampedPayload) :
    List (ℤ × ℤ × ℤ) :=
  match stampedResource.applyEdit stampedResource.writeActions edit.1 rows edit.2 with
  | .ok (_, rows') => rows'
  | .error _ => rows

/-- The table, served with the times of its rows. -/
def servedStamps [TextRules] : ServedResource (List (ℤ × ℤ × ℤ)) (ℤ × ℤ × ℤ) CursorState where
  service := stampedResource.readService .plain
  readResponse r := { json := .obj [("id", .int r.1), ("value", .int r.2.1)], updatedAt := r.2.2 }
  searchResponse r := { json := .obj [("id", .int r.1), ("value", .int r.2.1)], updatedAt := r.2.2 }
  filterJson _ := .null
  strategy := some (defaultCacheStrategy true stampedResource.supported)
  digest := .plain

/-- Two rows, created in one second and updated in a later one. -/
theorem not_modified_after_update :
    letI := TextRules.ascii
    TruthfulSince servedStamps (.search none none none 20) [(1, 5, 10000000), (2, 6, 10000000)]
      [(1, 5, 10000000), (2, 7, 20500000)] := by
  let _ := TextRules.ascii
  let update : ℤ × Edit StampedPayload := (20500000, .update { id := 2, value := 7 } none)
  refine (not_modified_truthful (r := servedStamps) rfl rfl rfl stampedWrite).1 [update]
    ⟨[(1, 5, 10000000), (2, 7, 20500000)], _⟩ (.cons ?_ rfl (.nil _))
  rintro _ ⟨⟩
  refine .inr ⟨20000000, by decide, 10000000, by decide, by decide, by decide⟩

/-- The older of two rows is deleted: the client is told that both are there. -/
theorem delete_304 :
    letI := TextRules.ascii
    let created := [(10000000, Edit.create { id := 1, value := 5 }),
      (20000000, .create { id := 2, value := 6 })].foldl stampedWrite []
    ¬ TruthfulSince servedStamps (.search none none none 20) created
      (stampedWrite created (30000000, .delete (.scalar (.int 1)) none)) := by
  let _ := TextRules.ascii
  intro created h
  have hadvances := (truthfulSince_iff (r := servedStamps) rfl rfl
    (show servedStamps.shown created (.search none none none 20) = some
      [some (servedStamps.searchResponse (1, 5, 10000000)),
        some (servedStamps.searchResponse (2, 6, 20000000))] from rfl)).mp h
    [some (servedStamps.searchResponse (2, 6, 20000000))] rfl
  have hitems := advances_iff.mp hadvances (by decide)
  cases congrArg List.length hitems

end Demo

end ServedResource

end Resourcey
