import Resourcey.Http.GetRoutes

/-!
# Entity tags

Under the entity-tag strategy the tag of a response is a digest of the items it shows, one after the
other, or of its count and filter; the digest is taken to tell texts apart. The tag determines the
items, since the text of a JSON value in a row of them determines it. It leaves out what the body
says besides: whether a page follows, and at which positions of a batch nothing was found. So a
`304` is truthful exactly when the two states do not differ in just that (`truthful_304_iff`).
-/

namespace Resourcey

open CacheStrategy

/-- What a client learns from a body: the items and their positions, whether a page follows, and the
count. The order of the members of an object is no information. -/
structure BodyInfo where
  items : List (Option JsonTree)
  more : Bool := false
  count : Option ℕ := none

/-- The value an item is shown as. -/
def Shown.value (x : Shown) : JsonTree := x.json.sortKeys

variable {σ α κ : Type}

def Body.info : Body κ → BodyInfo
  | .item x => { items := [some x.sortKeys] }
  | .page xs _ nextCursor => { items := xs.map (some ·.sortKeys), more := nextCursor.isSome }
  | .count n => { items := [], count := some n }
  | .items xs => { items := xs.map (Option.map JsonTree.sortKeys) }

namespace Answered

/-- The entity tag of an answer. -/
def tag (d : Digest) : Answered κ → List Char
  | .item x => itemsTag d [some x]
  | .page xs _ _ => itemsTag d (xs.map some)
  | .count n filters => countTag d n filters
  | .items xs => itemsTag d xs

/-- What the tag is made of. -/
def tagged : Answered κ → List JsonTree × Option ℕ
  | .item x => ([x.value], none)
  | .page xs _ _ => (xs.map Shown.value, none)
  | .count n _ => ([], some n)
  | .items xs => ((xs.filterMap id).map Shown.value, none)

/-- A page follows one and not the other, or they have gaps at other positions. -/
def Apart : Answered κ → Answered κ → Prop
  | .page _ _ nextCursor, .page _ _ nextCursor' => nextCursor.isSome ≠ nextCursor'.isSome
  | .items xs, .items ys => xs.map Option.isSome ≠ ys.map Option.isSome
  | _, _ => False

theorem header_etag (d : Digest) {strategy : CacheStrategy} (h : strategy.kind = .eTag) (now : ℤ)
    (a : Answered κ) : (a.header d strategy now).etag = some (a.tag d) := by
  cases a <;> simp only [header, getCacheHeader, countCacheHeader, h, withExpiry, tag]

end Answered

/-! ## What a tag determines -/

theorem quoted_injective : Function.Injective quoted := fun _ _ h =>
  List.append_cancel_right (List.cons.inj h).2

/-- No letter and no digit is a blank. -/
theorem isSpace_of_isAlphanum {c : Char} (h : c.isAlphanum) : isSpace c = false := by
  have hval : c.toNat = c.val.toNat := rfl
  have hrange : 48 ≤ c.toNat ∧ c.toNat ≤ 57 ∨ 65 ≤ c.toNat ∧ c.toNat ≤ 90 ∨
      97 ≤ c.toNat ∧ c.toNat ≤ 122 := by
    simp only [Char.isAlphanum, Char.isAlpha, Char.isUpper, Char.isLower, Char.isDigit,
      Bool.or_eq_true, Bool.and_eq_true, decide_eq_true_eq, UInt32.le_iff_toNat_le, ge_iff_le,
      ↓Char.isValue, Char.reduceVal, UInt32.reduceToNat] at h
    omega
  simp only [isSpace, Bool.or_eq_false_iff, Bool.and_eq_false_iff, decide_eq_false_iff_not]
  omega

/-- A tag is its own token. -/
theorem clientTokens_quoted (d : Digest) (text : List Char) :
    clientTokens (quoted (d.hexdigest text)) = [quoted (d.hexdigest text)] := by
  have hmem : ∀ c ∈ quoted (d.hexdigest text), c = '"' ∨ c.isAlphanum := by
    intro c hc
    rcases List.mem_cons.mp hc with rfl | hc
    · exact .inl rfl
    · rcases List.mem_append.mp hc with hc | hc
      · exact .inr (d.alphanumeric text c hc)
      · exact .inl (List.mem_singleton.mp hc)
  refine clientTokens_eq_single (fun hcomma => ?_) fun c hc => ?_
  · rcases hmem _ hcomma with h | h
    · cases h
    · cases h
  · rcases hmem c hc with rfl | h
    · rfl
    · exact isSpace_of_isAlphanum h

theorem itemsTag_eq_iff {d : Digest} {xs ys : List (Option Shown)} :
    itemsTag d xs = itemsTag d ys ↔
      (xs.filterMap id).map Shown.value = (ys.filterMap id).map Shown.value := by
  have htexts : ∀ zs : List (Option Shown),
      ((zs.filterMap id).flatMap fun x => x.json.canonical ++ ['\n'])
        = ((zs.filterMap id).map Shown.json).flatMap fun j => j.canonical ++ ['\n'] := by
    intro zs
    rw [List.flatMap_map]
  constructor
  · intro h
    have h := d.injective (quoted_injective h)
    rw [htexts, htexts] at h
    have h := JsonTree.flatMap_canonical_inj (by decide) h
    rw [List.map_map, List.map_map] at h
    exact h
  · intro h
    have hvalues : ∀ zs : List (Option Shown),
        ((zs.filterMap id).flatMap fun x => x.json.canonical ++ ['\n'])
          = ((zs.filterMap id).map Shown.value).flatMap fun j => j.text ++ ['\n'] := by
      intro zs
      rw [List.flatMap_map]
      rfl
    rw [itemsTag, itemsTag, hvalues, hvalues, h]

theorem countTag_eq_iff {d : Digest} {m n : ℕ} {filters : Option JsonTree} :
    countTag d m filters = countTag d n filters ↔ m = n := by
  refine ⟨fun h => ?_, fun h => h ▸ rfl⟩
  have h := d.injective (quoted_injective h)
  have hboundary : ∀ rest, JsonTree.Boundary ('\n' :: rest) := by
    rintro rest _ ⟨⟩
    rfl
  exact (JsonTree.digits_append_inj (hboundary _) (hboundary _) h).1

namespace Answered

theorem exists_tag (d : Digest) (a : Answered κ) : ∃ text, a.tag d = quoted (d.hexdigest text) := by
  cases a <;> exact ⟨_, rfl⟩

/-- The client presents a tag and nothing else is asked of it: the answer's own tag is among the
client's tokens exactly when it is that tag. -/
theorem isModified_iff (d : Digest) {header client : CacheHeader} {a b : Answered κ}
    (hheader : header.etag = some (b.tag d)) (hclient : client.etag = some (a.tag d)) :
    header.isModified client = false ↔ a.tag d = b.tag d := by
  obtain ⟨text, htext⟩ := a.exists_tag d
  have htokens : clientTokens (a.tag d) = [a.tag d] := by
    rw [htext]
    exact clientTokens_quoted d text
  have hstar : ['*'] ≠ a.tag d := by
    rw [htext]
    rintro ⟨⟩
  simp only [CacheHeader.isModified, hheader, hclient, htokens, List.mem_singleton, hstar,
    not_false_eq_true, and_true, decide_eq_false_iff_not, not_not]
  exact eq_comm

end Answered

namespace ServedResource

variable {r : ServedResource σ α κ} {strategy : CacheStrategy} {s s' : σ} {q : ReadRequest κ}
  {a b : Answered κ}

/-- The tags of two answers to a request are equal exactly when what they are made of is. -/
theorem tag_eq_iff (ha : r.answered s q = .ok a) (hb : r.answered s' q = .ok b) :
    a.tag r.digest = b.tag r.digest ↔ a.tagged = b.tagged := by
  cases q with
  | read id =>
      obtain ⟨x, rfl⟩ := answered_read ha
      obtain ⟨y, rfl⟩ := answered_read hb
      simp [Answered.tag, Answered.tagged, itemsTag_eq_iff]
  | search f sort cursor limit =>
      obtain ⟨xs, _, _, rfl⟩ := answered_search ha
      obtain ⟨ys, _, _, rfl⟩ := answered_search hb
      simp [Answered.tag, Answered.tagged, itemsTag_eq_iff]
  | count f =>
      obtain ⟨m, rfl⟩ := answered_count ha
      obtain ⟨n, rfl⟩ := answered_count hb
      simp [Answered.tag, Answered.tagged, countTag_eq_iff]
  | batchRead ids =>
      obtain ⟨xs, -, rfl⟩ := answered_batchRead ha
      obtain ⟨ys, -, rfl⟩ := answered_batchRead hb
      simp [Answered.tag, Answered.tagged, itemsTag_eq_iff]

/-- The header of an answer under the entity-tag strategy. -/
theorem headerFor_eq (hstrategy : r.strategy = some strategy) (htag : strategy.kind = .eTag)
    (now : ℤ) (responseIsPrivate : Bool) :
    ∃ header, r.headerFor now responseIsPrivate a = some header ∧
      header.etag = some (a.tag r.digest) := by
  have hetag : (a.header r.digest (strategy.withPrivate responseIsPrivate) now).etag
      = some (a.tag r.digest) :=
    Answered.header_etag r.digest (show (strategy.withPrivate _).kind = .eTag from htag) now a
  refine ⟨_, ?_, hetag⟩
  simp only [headerFor, hstrategy, CacheHeader.hasAny, hetag, Option.isSome_some, Bool.true_or,
    if_true]

/-! ## Truthful responses -/

/-- A client that holds the body of one state and presents its tag in another is told that nothing
has changed only if its body still says what the body of that state does. -/
def Truthful304 (r : ServedResource σ α κ) (q : ReadRequest κ) (s s' : σ) : Prop :=
  ∀ now now' private' private'' client client' body header header',
    r.get s now private' client q = .ok body (some header) → client'.etag = header.etag →
      r.get s' now' private'' client' q = .notModified header' →
        ∃ b, r.answered s' q = .ok b ∧ body.info = b.body.info

/-- The two states show the same items, but a page follows in one of them only, or there are gaps
at other positions of the batch. -/
def Overlooked (r : ServedResource σ α κ) (q : ReadRequest κ) (s s' : σ) : Prop :=
  ∃ a b, r.answered s q = .ok a ∧ r.answered s' q = .ok b ∧ a.tagged = b.tagged ∧ a.Apart b

/-- A response that shows the identifier. -/
def ShowsId (r : ServedResource σ α κ) : Prop :=
  ∀ x y, (r.searchResponse x).value = (r.searchResponse y).value →
    r.service.idOf x = r.service.idOf y

/-- With the same gaps, the items that are there tell all. -/
theorem map_value_eq {xs ys : List (Option Shown)} (hgaps : xs.map Option.isSome = ys.map Option.isSome)
    (h : (xs.filterMap id).map Shown.value = (ys.filterMap id).map Shown.value) :
    xs.map (Option.map Shown.value) = ys.map (Option.map Shown.value) := by
  induction xs generalizing ys with
  | nil =>
      cases ys with
      | nil => rfl
      | cons y ys => cases hgaps
  | cons x xs ih =>
      cases ys with
      | nil => cases hgaps
      | cons y ys =>
          simp only [List.map_cons, List.cons.injEq] at hgaps
          cases x with
          | none =>
              cases y with
              | none => simpa using ih hgaps.2 (by simpa using h)
              | some y => cases hgaps.1
          | some x =>
              cases y with
              | none => cases hgaps.1
              | some y =>
                  simp only [List.filterMap_cons, id_eq, List.map_cons, List.cons.injEq] at h
                  simp only [List.map_cons, Option.map_some, h.1, ih hgaps.2 h.2]

theorem overlooked_iff (ha : r.answered s q = .ok a) (hb : r.answered s' q = .ok b) :
    Overlooked r q s s' ↔ a.tagged = b.tagged ∧ a.Apart b := by
  refine ⟨?_, fun h => ⟨a, b, ha, hb, h⟩⟩
  rintro ⟨a', b', ha', hb', h⟩
  obtain rfl := Except.ok.inj (ha.symm.trans ha')
  obtain rfl := Except.ok.inj (hb.symm.trans hb')
  exact h

/-- Two answers with one tag say the same, but for what a tag leaves out. -/
theorem info_eq_iff (ha : r.answered s q = .ok a) (hb : r.answered s' q = .ok b)
    (htagged : a.tagged = b.tagged) : a.body.info = b.body.info ↔ ¬ Overlooked r q s s' := by
  rw [overlooked_iff ha hb]
  cases q with
  | read id =>
      obtain ⟨x, rfl⟩ := answered_read ha
      obtain ⟨y, rfl⟩ := answered_read hb
      simp_all [Answered.body, Body.info, Answered.tagged, Answered.Apart, Shown.value]
  | search f sort cursor limit =>
      obtain ⟨xs, _, next, rfl⟩ := answered_search ha
      obtain ⟨ys, _, next', rfl⟩ := answered_search hb
      have hitems : (xs.map Shown.json).map (some ·.sortKeys)
          = (ys.map Shown.json).map (some ·.sortKeys) := by
        have h := congrArg (List.map some) (congrArg Prod.fst htagged)
        rw [Answered.tagged, Answered.tagged, List.map_map, List.map_map] at h
        rw [List.map_map, List.map_map]
        exact h
      simp [Answered.body, Body.info, htagged, Answered.Apart, hitems]
  | count f =>
      obtain ⟨m, rfl⟩ := answered_count ha
      obtain ⟨n, rfl⟩ := answered_count hb
      simp_all [Answered.body, Body.info, Answered.tagged, Answered.Apart]
  | batchRead ids =>
      obtain ⟨items, -, rfl⟩ := answered_batchRead ha
      obtain ⟨items', -, rfl⟩ := answered_batchRead hb
      generalize items.map (Option.map r.searchResponse) = xs at htagged ⊢
      generalize items'.map (Option.map r.searchResponse) = ys at htagged ⊢
      have hvalue : ∀ zs : List (Option Shown),
          (zs.map (Option.map Shown.json)).map (Option.map JsonTree.sortKeys)
            = zs.map (Option.map Shown.value) := by
        intro zs
        rw [List.map_map]
        refine List.map_congr_left fun z _ => ?_
        cases z <;> rfl
      simp only [Answered.body, Body.info, hvalue, BodyInfo.mk.injEq, and_true, htagged,
        Answered.Apart, true_and, not_not]
      constructor
      · intro h
        have h := congrArg (List.map Option.isSome) h
        simpa only [List.map_map, Function.comp_def, Option.isSome_map] using h
      · exact fun hgaps => map_value_eq hgaps (congrArg Prod.fst htagged)

/-- A `304` is truthful exactly if answers with one tag say the same. -/
theorem truthful_iff_answers {strategy : CacheStrategy} (hstrategy : r.strategy = some strategy)
    (htag : strategy.kind = .eTag) : Truthful304 r q s s' ↔
      ∀ a b, r.answered s q = .ok a → r.answered s' q = .ok b → a.tagged = b.tagged →
        a.body.info = b.body.info := by
  have hresponse : ∀ {s : σ} {a : Answered κ} (now : ℤ) (responseIsPrivate : Bool)
      (client : CacheHeader), r.answered s q = .ok a → ∃ header,
        header.etag = some (a.tag r.digest) ∧ r.get s now responseIsPrivate client q
          = if header.isModified client then .ok a.body (some header) else .notModified header := by
    intro s a now responseIsPrivate client ha
    obtain ⟨header, hheader, hetag⟩ := headerFor_eq hstrategy htag now responseIsPrivate
    exact ⟨header, hetag, by simp only [get, ha, hheader, cachedJsonResponse]⟩
  constructor
  · intro h a b ha hb htagged
    obtain ⟨header, hetag, hget⟩ := hresponse 0 false {} ha
    have hfirst : r.get s 0 false {} q = .ok a.body (some header) := by
      rw [hget]
      simp only [CacheHeader.isModified, hetag, if_true]
    obtain ⟨header', hetag', hget'⟩ := hresponse 0 false { etag := header.etag } hb
    have hclient : ({ etag := header.etag } : CacheHeader).etag = some (a.tag r.digest) := hetag
    have hunmodified : header'.isModified { etag := header.etag } = false :=
      (Answered.isModified_iff r.digest hetag' hclient).mpr ((tag_eq_iff ha hb).mpr htagged)
    rw [hunmodified, if_neg Bool.false_ne_true] at hget'
    obtain ⟨b', hb', hinfo⟩ := h _ _ _ _ _ _ _ _ _ hfirst (hclient.trans hetag.symm) hget'
    obtain rfl := Except.ok.inj (hb.symm.trans hb')
    exact hinfo
  · intro h now now' private' private'' client client' body header header' hget hclient hget'
    cases ha : r.answered s q with
    | error e => simp only [get, ha, reduceCtorEq] at hget
    | ok a =>
        cases hb : r.answered s' q with
        | error e => simp only [get, hb, reduceCtorEq] at hget'
        | ok b =>
            obtain ⟨header₁, hetag, heq⟩ := hresponse now private' client ha
            obtain ⟨header₂, hetag', heq'⟩ := hresponse now' private'' client' hb
            rw [heq] at hget
            rw [heq'] at hget'
            split at hget
            · cases hget
              split at hget'
              · cases hget'
              · next hunmodified =>
                  refine ⟨b, rfl, h a b ha hb ?_⟩
                  have htags := (Answered.isModified_iff r.digest hetag' (hclient.trans hetag)).mp
                    (Bool.not_eq_true _ ▸ hunmodified)
                  exact (tag_eq_iff ha hb).mp htags
            · cases hget

/-- The identifiers that are found. -/
theorem filterMap_idOf {find : Value → Option α} (hfind : ∀ id, ∀ x ∈ find id, r.service.idOf x = id)
    (ids : List Value) :
    (ids.filterMap find).map r.service.idOf = ids.filter fun id => (find id).isSome := by
  induction ids with
  | nil => rfl
  | cons id ids ih =>
      cases hid : find id with
      | none => simpa [hid] using ih
      | some x => simpa [hid, hfind id x hid] using ih

/-- Where the identifier is shown, the items tell their positions. -/
theorem not_overlooked_batchRead (hshows : ShowsId r) (ids : List Value) :
    ¬ Overlooked r (.batchRead ids) s s' := by
  rintro ⟨a, b, ha, hb, htagged, hapart⟩
  obtain ⟨items, hitems, rfl⟩ := answered_batchRead ha
  obtain ⟨items', hitems', rfl⟩ := answered_batchRead hb
  obtain ⟨find, rfl, hfind⟩ := r.service.batchRead_aligned hitems
  obtain ⟨find', rfl, hfind'⟩ := r.service.batchRead_aligned hitems'
  have hvalues : (ids.filterMap find).map (fun x => (r.searchResponse x).value)
      = (ids.filterMap find').map (fun x => (r.searchResponse x).value) := by
    have h := congrArg Prod.fst htagged
    simpa [Answered.tagged, List.filterMap_map, Function.comp_def, List.map_filterMap] using h
  have hfactors : r.service.idOf.FactorsThrough fun x => (r.searchResponse x).value :=
    fun x y h => hshows x y h
  have hids : (ids.filter fun id => (find id).isSome) = ids.filter fun id => (find' id).isSome := by
    rw [← filterMap_idOf hfind, ← filterMap_idOf hfind', ← hfactors.extend_comp fun _ => .none,
      ← List.map_map, ← List.map_map, hvalues]
  refine hapart ?_
  simp only [List.map_map]
  refine List.map_congr_left fun id hid => ?_
  have hiff : (find id).isSome = true ↔ (find' id).isSome = true := by
    have hmem := congrArg (id ∈ ·) hids
    simpa [List.mem_filter, hid] using hmem
  simpa using Bool.eq_iff_iff.mpr hiff

/-- **A `304` under the entity-tag strategy is truthful exactly when** the two states do not show the
same items with a page after them in one state only, or with gaps at other positions of a batch. The
latter never happens where the items show their identifiers. -/
theorem truthful_304_iff {strategy : CacheStrategy} (hstrategy : r.strategy = some strategy)
    (htag : strategy.kind = .eTag) (q : ReadRequest κ) (s s' : σ) :
    (Truthful304 r q s s' ↔ ¬ Overlooked r q s s') ∧
      (ShowsId r → ∀ ids, ¬ Overlooked r (.batchRead ids) s s') := by
  refine ⟨?_, fun hshows => not_overlooked_batchRead hshows⟩
  rw [truthful_iff_answers hstrategy htag]
  constructor
  · rintro h ⟨a, b, ha, hb, htagged, hapart⟩
    exact (info_eq_iff ha hb htagged).mp (h a b ha hb htagged) ⟨a, b, ha, hb, htagged, hapart⟩
  · intro h a b ha hb htagged
    exact (info_eq_iff ha hb htagged).mpr h

section Demo

/-- A table of numbered values. -/
def numberTable : SqlTable (ℤ × ℤ) where
  name := "NumberResource"
  columnForAttr name := if name ∈ ["id", "value"] then some name else none
  queryable _ := true
  sortable _ := true
  idColumn := "id"
  row r name := if name = "id" then .scalar (.int r.1) else
    if name = "value" then .scalar (.int r.2) else .none

/-- The table, served with entity tags. -/
def servedNumbers [TextRules] : ServedResource (List (ℤ × ℤ)) (ℤ × ℤ) CursorState where
  service := numberTable.readService .plain
  readResponse r := { json := .obj [("id", .int r.1), ("value", .int r.2)] }
  searchResponse r := { json := .obj [("id", .int r.1), ("value", .int r.2)] }
  filterJson _ := .null
  strategy := some (defaultCacheStrategy false [.create])
  digest := .plain

/-- Identifiers are shown, so a batch-read of the table is answered truthfully. -/
theorem truthful_304_batchRead :
    letI := TextRules.ascii
    Truthful304 servedNumbers (.batchRead [.scalar (.int 1), .scalar (.int 2)]) [(1, 5)] [(2, 5)] := by
  let _ := TextRules.ascii
  have htruthful := truthful_304_iff (r := servedNumbers) rfl rfl
    (.batchRead [.scalar (.int 1), .scalar (.int 2)]) [(1, 5)] [(2, 5)]
  refine htruthful.1.mpr (htruthful.2 ?_ _)
  rintro ⟨i, x⟩ ⟨j, y⟩ h
  have hkeys : ("id" : String) ≤ "value" := by decide
  have hvalue : i = j ∧ x = y := by
    simpa [Shown.value, servedNumbers, JsonTree.sortKeys, JsonTree.sortMembers, hkeys] using h
  exact congrArg (fun n => Value.scalar (.int n)) hvalue.1

/-- A second row is there, so a page follows: the tag of the first page is as before. -/
theorem search_304_more :
    letI := TextRules.ascii
    ¬ Truthful304 servedNumbers (.search none none none 1) [(1, 5)] [(1, 5), (2, 5)] := by
  let _ := TextRules.ascii
  rw [truthful_iff_answers (r := servedNumbers) rfl rfl]
  intro h
  have hinfo := h _ _ (show servedNumbers.answered [(1, 5)] (.search none none none 1)
      = .ok (.page [servedNumbers.searchResponse (1, 5)] 1 none) from rfl)
    (show servedNumbers.answered [(1, 5), (2, 5)] (.search none none none 1)
      = .ok (.page [servedNumbers.searchResponse (1, 5)] 1
        (some (numberTable.cursorState none (1, 5)))) from rfl) rfl
  cases congrArg BodyInfo.more hinfo

end Demo

end ServedResource

end Resourcey
