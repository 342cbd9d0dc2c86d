import Resourcey.Logic.Keyset
import Resourcey.Mongo.MongoService

/-!
# Paging through a Mongo collection

Following `next_cursor` visits every matching document once, in the requested order, except by
descending identifier. There the seek query asks only for another identifier than the cursor's, so
the second page starts over from the first document. `search_walk_iff` is the exact condition: such
a listing is walked correctly when it fits on one page, and when two documents are listed in pages
of one. `search_walk_id_descending` is the smallest listing that repeats a document.
-/

namespace Resourcey

open Keyset

namespace MongoCollection

variable {ρ κ : Type} (t : MongoCollection ρ)

/-- A collection as the store keeps it: encoded values of the declared types and an identifier. -/
structure Valid (types : String → Option Kind) [TextRules] (rows : List ρ) : Prop where
  typed : ∀ r ∈ rows, ∀ f k, types f = some k → (t.field r f).OfKind k
  encoded : ∀ r ∈ rows, ∀ f, encodeValue (t.field r f) = t.field r f
  id_typed : (types mongoIdField).isSome
  id_ne_none : ∀ r ∈ rows, t.idOf r ≠ .none
  nodup : (rows.map t.idOf).Nodup

/-- The stored field a search sorts by. -/
def sortField (sort : Option SortOrder) : String :=
  sort.elim mongoIdField fun s => t.mongoFieldFor s.attrName

/-- The sort names a field of the sort surface, of a scalar type. -/
def Sortable (types : String → Option Kind) (sort : Option SortOrder) : Prop :=
  ∀ s ∈ sort, t.sortable s.attrName = true ∧ (types (t.mongoFieldFor s.attrName)).isSome

/-- The position of a document in the listing of a search. -/
def position (sort : Option SortOrder) (r : ρ) : Value × Value :=
  positionOf (t.sortField sort) mongoIdField (t.field r)

/-- The search lists by descending identifier. -/
def ByIdDescending (sort : Option SortOrder) : Prop :=
  t.sortField sort = mongoIdField ∧ isDescending sort = true

section Search

variable [TextRules]

/-- `matched` are the documents the search's filter selects. -/
def Selects (rows : List ρ) (f : Option SearchFilter) (matched : List ρ) : Prop :=
  ∃ q, t.filterQuery rows f = .ok q ∧ matched = rows.filter fun r => finds q (t.document r)

/-- One request of a walk. -/
def SearchPage (codec : CursorCodec κ) (rows : List ρ) (f : Option SearchFilter)
    (sort : Option SortOrder) (limit _n : ℕ) (cursor : Option κ) (items : List ρ)
    (next : Option κ) : Prop :=
  t.search codec rows f sort cursor limit = .ok ⟨items, limit, next⟩

/-- Following the cursors ends, and returns the matched documents once each, in the order of the
listing. -/
def VisitsOnce (codec : CursorCodec κ) (rows : List ρ) (f : Option SearchFilter)
    (sort : Option SortOrder) (limit : ℕ) (matched : List ρ) : Prop :=
  (∃ pages, Walk (t.SearchPage codec rows f sort limit) 0 none pages) ∧
    ∀ pages, Walk (t.SearchPage codec rows f sort limit) 0 none pages →
      pages.flatten.Perm matched ∧ pages.flatten.Pairwise fun a b =>
        sortsBefore (isDescending sort) (t.position sort a) (t.position sort b)

section Page

variable {t} {types : String → Option Kind} {rows matched : List ρ} {f : Option SearchFilter}
  {sort : Option SortOrder} {limit : ℕ} {codec : CursorCodec κ}

theorem Selects.mem (hm : t.Selects rows f matched) {r : ρ} (hr : r ∈ matched) : r ∈ rows := by
  obtain ⟨q, -, rfl⟩ := hm
  exact List.mem_of_mem_filter hr

/-- The matched documents have different identifiers, and so different positions. -/
theorem Selects.nodup (hrows : t.Valid types rows) (hm : t.Selects rows f matched) :
    (matched.map t.idOf).Nodup := by
  obtain ⟨q, -, rfl⟩ := hm
  exact hrows.nodup.sublist (List.filter_sublist.map _)

omit [TextRules] in
/-- The sort spec of a search compares documents by position. -/
theorem sortSpec_eq (hsort : t.Sortable types sort) :
    ∃ spec, t.sortSpec sort = .ok spec ∧ ∀ a b : ρ,
      specCompare spec (t.document a) (t.document b) ≠ .gt ↔
        sortsBefore (isDescending sort) (t.position sort a) (t.position sort b) ∨
          t.position sort a = t.position sort b := by
  cases sort with
  | none =>
      refine ⟨_, rfl, fun a b => ?_⟩
      rw [specCompare, specCompare, Ordering.then_eq, if_neg Bool.false_ne_true]
      exact cmp_ne_gt _ _
  | some s =>
      obtain ⟨hs, -⟩ := hsort s rfl
      refine ⟨[(t.mongoFieldFor s.attrName, s.descending), (mongoIdField, false)], ?_,
        fun a b => ?_⟩
      · simp only [sortSpec, sortFieldFor, hs, t.id_sortable, if_true, mongoFieldFor, bind,
          Except.bind, pure, Except.pure]
      · rw [specCompare, specCompare, specCompare, Ordering.then_eq, if_neg Bool.false_ne_true]
        exact cmp_then_ne_gt s.descending (t.position (some s) a) (t.position (some s) b)

/-- What a cursor must say to be answered under a sort: it was built for that sort, by a stored
document. -/
def GoodCursor (t : MongoCollection ρ) (types : String → Option Kind) (codec : CursorCodec κ)
    (sort : Option SortOrder) (c : κ) : Prop :=
  ∃ s, codec.decode c = .ok s ∧ s.sortField = sort.map (·.attrName) ∧
    s.ascending = !isDescending sort ∧ s.idValue ≠ .none ∧
    (∀ k, types mongoIdField = some k → s.idValue.OfKind k) ∧
    (∀ k, types (t.sortField sort) = some k → s.sortKey.OfKind k) ∧
    encodeValue s.idValue = s.idValue ∧ encodeValue s.sortKey = s.sortKey ∧
    (t.sortField sort = mongoIdField → s.sortKey = s.idValue)

/-- The position a cursor seeks past. -/
def cursorPosition (codec : CursorCodec κ) (c : κ) : Value × Value :=
  match codec.decode c with
  | .ok s => (s.sortKey, s.idValue)
  | .error _ => (.none, .none)

/-- The cursor handed on past a document is a good one, for the position of the document. -/
theorem nextCursor_good (codec : CursorCodec κ) (hrows : t.Valid types rows)
    (sort : Option SortOrder) {r : ρ} (hr : r ∈ rows) :
    t.GoodCursor types codec sort (t.nextCursor codec sort r) ∧
      cursorPosition codec (t.nextCursor codec sort r) = t.position sort r := by
  have hdec : codec.decode (t.nextCursor codec sort r) = .ok (t.cursorState sort r) :=
    codec.decode_encode _
  have hkey : (t.cursorState sort r).sortKey = t.field r (t.sortField sort) := by
    cases sort <;> rfl
  refine ⟨⟨_, hdec, rfl, rfl, hrows.id_ne_none r hr, fun k hk => hrows.typed r hr _ k hk,
    fun k hk => hkey ▸ hrows.typed r hr _ k hk, hrows.encoded r hr _,
    hkey ▸ hrows.encoded r hr _, fun h => ?_⟩, ?_⟩
  · rw [hkey, h]
    rfl
  · rw [cursorPosition, hdec]
    exact Prod.ext hkey rfl

/-- The query of a good cursor is the seek query past its position. -/
theorem cursorPredicate_eq {c : κ} {s : CursorState} (hdec : codec.decode c = .ok s)
    (hfield : s.sortField = sort.map (·.attrName)) (hasc : s.ascending = !isDescending sort)
    (hid : encodeValue s.idValue = s.idValue) (hkey : encodeValue s.sortKey = s.sortKey) :
    t.cursorPredicate codec (some c) sort = .ok (some (match sort with
      | none => .dict [(mongoIdField, .order .gt s.idValue)]
      | some _ => keysetQuery (t.sortField sort) s.sortKey s.idValue s.ascending)) := by
  have hagree : ¬ (s.sortField ≠ sort.map (·.attrName) ∨ s.ascending ≠ !isDescending sort) := by
    rintro (h | h)
    · exact h hfield
    · exact h hasc
  unfold cursorPredicate
  simp only [hdec, if_neg hagree, hid, hkey]
  cases sort <;> rfl

/-- A search whose filter, cursor and sort are accepted lists the matched documents that its seek
query finds. -/
theorem search_eq {cursor : Option κ} {p : Option MongoQuery} {spec : SortSpec} {l : List ρ}
    (hm : t.Selects rows f matched) (hp : t.cursorPredicate codec cursor sort = .ok p)
    (hspec : t.sortSpec sort = .ok spec)
    (hl : l = (matched.filter fun r => finds p (t.document r)).insertionSort
      fun a b => specCompare spec (t.document a) (t.document b) ≠ .gt) :
    t.search codec rows f sort cursor limit = .ok ⟨l.take limit, limit,
      if limit < l.length then (l.take limit).getLast?.map (t.nextCursor codec sort) else none⟩ := by
  obtain ⟨q, hq, rfl⟩ := hm
  have hfind : t.find rows (mergeQuery q p) spec (limit + 1) = l.take (limit + 1) := by
    rw [find, hl, List.filter_filter]
    simp only [finds_mergeQuery, Bool.and_comm]
  simp only [search, hq, hp, hspec, bind, Except.bind, pure, Except.pure, hfind,
    Page.ofFound_take]

/-- What a search lists is strictly ordered. -/
theorem listing_pairwise (hrows : t.Valid types rows) (hm : t.Selects rows f matched)
    {spec : SortSpec} (hcmp : ∀ a b : ρ, specCompare spec (t.document a) (t.document b) ≠ .gt ↔
      sortsBefore (isDescending sort) (t.position sort a) (t.position sort b) ∨
        t.position sort a = t.position sort b) (test : ρ → Bool) :
    ((matched.filter test).insertionSort
      fun a b => specCompare spec (t.document a) (t.document b) ≠ .gt).Pairwise fun a b =>
        sortsBefore (isDescending sort) (t.position sort a) (t.position sort b) := by
  refine pairwise_insertionSort (sortsBefore_trichotomy _) hcmp ?_
  have hid : ((matched.filter test).map t.idOf).Nodup :=
    (hm.nodup hrows).sublist (List.filter_sublist.map _)
  exact List.Nodup.of_map Prod.snd (by rwa [List.map_map])

/-! ## Off the descending identifier -/

/-- The seek query of a good cursor finds the documents past its position. -/
theorem cursorPredicate_finds (hrows : t.Valid types rows) (hsort : t.Sortable types sort)
    (hid : ¬ t.ByIdDescending sort) {cursor : Option κ}
    (hc : ∀ c ∈ cursor, t.GoodCursor types codec sort c) :
    ∃ p, t.cursorPredicate codec cursor sort = .ok p ∧ ∀ r ∈ rows,
      finds p (t.document r) = true ↔
        Past (sortsBefore (isDescending sort)) (cursor.map (cursorPosition codec))
          (t.position sort r) := by
  cases cursor with
  | none => exact ⟨none, rfl, fun r _ => by simp [finds, Past]⟩
  | some c =>
      obtain ⟨s, hdec, hfield, hasc, hidne, hidk, hkeyk, hide, hkeye, hsame⟩ := hc c rfl
      refine ⟨_, cursorPredicate_eq hdec hfield hasc hide hkeye, fun r hr => ?_⟩
      have hpos : cursorPosition codec c = (s.sortKey, s.idValue) := by
        rw [cursorPosition, hdec]
      obtain ⟨ki, hki⟩ := Option.isSome_iff_exists.mp hrows.id_typed
      have hrid := hrows.typed r hr _ _ hki
      rw [Option.map_some, hpos]
      cases sort with
      | none =>
          have hkey : s.sortKey = s.idValue := hsame rfl
          simp only [finds, Option.elim_some, dict_single]
          refine (order_matches .gt hrid (hidk _ hki) hidne).trans ?_
          rw [hkey]
          simp only [Past, isDescending, Option.elim_none, sortsBefore_iff, sortValueBefore,
            position, positionOf, sortField, OrderOp.holds, decide_eq_true_eq]
          exact ⟨fun h => .inl h.2, fun h => ⟨hrows.id_ne_none r hr, h.elim (fun h => h) And.right⟩⟩
      | some o =>
          obtain ⟨kf, hkf⟩ := Option.isSome_iff_exists.mp (hsort o rfl).2
          have hdir : isDescending (some o) = !s.ascending := by rw [hasc, Bool.not_not]
          rw [hdir]
          refine keysetQuery_matches (fun h => ?_) (hrows.typed r hr _ _ hkf) hrid
            (hrows.id_ne_none r hr) (hkeyk _ hkf) (hidk _ hki) hidne
          have hdesc : isDescending (some o) ≠ true := fun hd => hid ⟨h, hd⟩
          exact ⟨by rw [hasc, Bool.eq_false_iff.mpr hdesc]; rfl, hsame h⟩

/-- A search that does not list by descending identifier is a page of the matched documents. -/
theorem search_isPage (hrows : t.Valid types rows) (hm : t.Selects rows f matched)
    (hsort : t.Sortable types sort) (hlimit : 1 ≤ limit) (hid : ¬ t.ByIdDescending sort)
    {cursor : Option κ} (hc : ∀ c ∈ cursor, t.GoodCursor types codec sort c) :
    ∃ items next, t.search codec rows f sort cursor limit = .ok ⟨items, limit, next⟩ ∧
      IsPage (sortsBefore (isDescending sort)) (t.position sort) matched
        (cursor.map (cursorPosition codec)) items (next.map (cursorPosition codec)) ∧
      ∀ c ∈ next, t.GoodCursor types codec sort c := by
  obtain ⟨spec, hspec, hcmp⟩ := sortSpec_eq hsort
  obtain ⟨p, hp, hfinds⟩ := cursorPredicate_finds hrows hsort hid hc
  obtain ⟨l, hl⟩ : ∃ l, l = (matched.filter fun r => finds p (t.document r)).insertionSort
    fun a b => specCompare spec (t.document a) (t.document b) ≠ .gt := ⟨_, rfl⟩
  have hmem : ∀ a, a ∈ l ↔ a ∈ matched ∧ Past (sortsBefore (isDescending sort))
      (cursor.map (cursorPosition codec)) (t.position sort a) := by
    intro a
    rw [hl, List.mem_insertionSort, List.mem_filter]
    exact and_congr_right fun ha => hfinds a (hm.mem ha)
  refine ⟨_, _, search_eq hm hp hspec hl, ?_⟩
  refine isPage_take_cursor (hl ▸ listing_pairwise hrows hm hcmp _) hmem hlimit fun r hr => ?_
  exact nextCursor_good codec hrows sort (hm.mem ((hmem r).mp hr).1)

/-- Off the descending identifier, the service answers every request with a page. -/
theorem search_answers (hrows : t.Valid types rows) (hm : t.Selects rows f matched)
    (hsort : t.Sortable types sort) (hlimit : 1 ≤ limit) (hid : ¬ t.ByIdDescending sort) :
    Answers (sortsBefore (isDescending sort)) (t.position sort) (cursorPosition codec)
      (t.SearchPage codec rows f sort limit) (t.GoodCursor types codec sort)
      (fun _ => matched) where
  total n c hc := by
    obtain ⟨items, next, hs, -, -⟩ := search_isPage hrows hm hsort hlimit hid hc
    exact ⟨items, next, hs⟩
  isPage n c items next hc hp := by
    obtain ⟨_, _, hs, hpage, -⟩ := search_isPage hrows hm hsort hlimit hid hc
    cases hs.symm.trans hp
    exact hpage
  good n c items next hc hp := by
    obtain ⟨_, _, hs, -, hgood⟩ := search_isPage hrows hm hsort hlimit hid hc
    cases hs.symm.trans hp
    exact hgood

/-- **Off the descending identifier, paging visits every matched document once, in order.** -/
theorem visitsOnce_of_not_byIdDescending (hrows : t.Valid types rows)
    (hm : t.Selects rows f matched) (hsort : t.Sortable types sort) (hlimit : 1 ≤ limit)
    (hid : ¬ t.ByIdDescending sort) : t.VisitsOnce codec rows f sort limit matched := by
  have hans : Answers _ _ (cursorPosition codec) _ _ _ :=
    search_answers hrows hm hsort hlimit hid
  obtain ⟨spec, hspec, hcmp⟩ := sortSpec_eq hsort
  have hpairwise := listing_pairwise hrows hm hcmp fun _ => true
  refine ⟨hans.exists_walk 0, fun pages hw => ?_⟩
  have hflat := hans.flatten_eq hpairwise (fun a => by simp) hw
  refine ⟨hflat ▸ ?_, hflat ▸ hpairwise⟩
  simpa using List.perm_insertionSort _ (matched.filter fun _ => true)

/-! ## By descending identifier -/

/-- The two kinds of page of a listing by descending identifier: the first is the start of the
listing, and the one past a document is the start of the listing without that document. -/
structure RestartsFrom (t : MongoCollection ρ) (codec : CursorCodec κ) (rows : List ρ)
    (f : Option SearchFilter) (sort : Option SortOrder) (limit : ℕ) (l : List ρ) : Prop where
  nodup : (l.map t.idOf).Nodup
  first : t.search codec rows f sort none limit = .ok ⟨l.take limit, limit,
    if limit < l.length then (l.take limit).getLast?.map (t.nextCursor codec sort) else none⟩
  past : ∀ r ∈ l, ∀ l', l' = l.filter (fun a => t.idOf a ≠ t.idOf r) →
    t.search codec rows f sort (some (t.nextCursor codec sort r)) limit
      = .ok ⟨l'.take limit, limit, if limit < l'.length then
          (l'.take limit).getLast?.map (t.nextCursor codec sort) else none⟩

/-- By descending identifier the listing starts over past each document. -/
theorem restarts_of_byIdDescending (hrows : t.Valid types rows) (hm : t.Selects rows f matched)
    (hsort : t.Sortable types sort) (hid : t.ByIdDescending sort) :
    ∃ l : List ρ, l.Perm matched ∧
      (l.Pairwise fun a b =>
        sortsBefore (isDescending sort) (t.position sort a) (t.position sort b)) ∧
      t.RestartsFrom codec rows f sort limit l := by
  obtain ⟨spec, hspec, hcmp⟩ := sortSpec_eq hsort
  obtain ⟨ki, hki⟩ := Option.isSome_iff_exists.mp hrows.id_typed
  have hpairwise := listing_pairwise hrows hm hcmp fun _ => true
  have hperm : ((matched.filter fun _ => true).insertionSort
      fun a b => specCompare spec (t.document a) (t.document b) ≠ .gt).Perm matched := by
    simpa using List.perm_insertionSort _ (matched.filter fun _ => true)
  refine ⟨_, hperm, hpairwise, ⟨(hperm.map _).nodup_iff.mpr (hm.nodup hrows), ?_, ?_⟩⟩
  · exact search_eq hm (p := none) rfl hspec (by simp [finds])
  · intro r hr l' hl'
    have hrm : r ∈ rows := hm.mem (hperm.mem_iff.mp hr)
    have hdec : codec.decode (t.nextCursor codec sort r) = .ok (t.cursorState sort r) :=
      codec.decode_encode _
    cases sort with
    | none => exact absurd hid.2 (by simp [isDescending])
    | some o =>
        have hfield : t.mongoFieldFor o.attrName = mongoIdField := hid.1
        have hkey : (t.cursorState (some o) r).sortKey = t.idOf r := by
          show t.field r (t.mongoFieldFor o.attrName) = _
          rw [hfield]
          rfl
        have hp := cursorPredicate_eq (t := t) hdec rfl rfl (hrows.encoded r hrm _)
          (hkey ▸ hrows.encoded r hrm _)
        refine search_eq hm hp hspec (hl'.trans ?_)
        -- The seek query keeps the other identifiers, and sorting commutes with that.
        have hkeep : ∀ a ∈ matched, finds (some (keysetQuery (t.sortField (some o))
            (t.cursorState (some o) r).sortKey (t.cursorState (some o) r).idValue
            (t.cursorState (some o) r).ascending)) (t.document a)
              = decide (t.idOf a ≠ t.idOf r) := by
          intro a ha
          have ham := hm.mem ha
          have hasc : (t.cursorState (some o) r).ascending = false := by
            simp [cursorState, hid.2]
          rw [Bool.eq_iff_iff, decide_eq_true_eq, hasc, hkey, hid.1]
          exact keysetQuery_id_descending (hrows.typed a ham _ _ hki) (hrows.id_ne_none a ham)
            (hrows.typed r hrm _ _ hki) (hrows.id_ne_none r hrm)
        refine eq_of_pairwise_of_mem_iff (hpairwise.sublist List.filter_sublist)
          (listing_pairwise hrows hm hcmp _) fun a => ?_
        simp only [List.mem_filter, List.mem_insertionSort, and_true]
        exact and_congr_right fun ha => by rw [hkeep a ha]

namespace RestartsFrom

variable {l : List ρ} {n : ℕ} {pages : List (List ρ)}

/-- A walk from the cursor past a document returns the start of the listing without it. -/
theorem mem_of_walk (h : t.RestartsFrom codec rows f sort limit l) {r : ρ} (hr : r ∈ l)
    (hw : Walk (t.SearchPage codec rows f sort limit) n (some (t.nextCursor codec sort r)) pages)
    {a : ρ} (ha : a ∈ (l.filter fun a => t.idOf a ≠ t.idOf r).take limit) : a ∈ pages.flatten := by
  obtain ⟨items, next, hp, hmem⟩ := hw.head
  cases (h.past r hr _ rfl).symm.trans hp
  exact hmem a ha

omit [TextRules] in
/-- Past the first document of a listing, the documents with another identifier are the rest. -/
theorem filter_head {a : ρ} {l : List ρ} (h : ((a :: l).map t.idOf).Nodup) :
    (a :: l).filter (fun b => t.idOf b ≠ t.idOf a) = l := by
  rw [List.map_cons, List.nodup_cons] at h
  rw [List.filter_cons_of_neg (by simp), List.filter_eq_self]
  intro b hb
  simp only [decide_eq_true_eq]
  exact fun he => h.1 (he ▸ List.mem_map_of_mem hb)

omit [TextRules] in
/-- Past a document that is not the first, the first document is found first. -/
theorem head_mem_filter {a r : ρ} {l : List ρ} (h : ((a :: l).map t.idOf).Nodup) (hr : r ∈ l)
    (hlimit : 1 ≤ limit) : a ∈ ((a :: l).filter fun b => t.idOf b ≠ t.idOf r).take limit := by
  rw [List.map_cons, List.nodup_cons] at h
  have hne : t.idOf a ≠ t.idOf r := fun he => h.1 (he ▸ List.mem_map_of_mem hr)
  obtain ⟨k, rfl⟩ : ∃ k, limit = k + 1 := ⟨limit - 1, by omega⟩
  rw [List.filter_cons_of_pos (by simpa using hne), List.take_succ_cons]
  exact List.mem_cons_self

/-- A listing that does not fit on a page is walked past the last document of its first page. -/
theorem walk_of_lt (h : t.RestartsFrom codec rows f sort limit l) (hlt : limit < l.length)
    (hlimit : 1 ≤ limit) (hw : Walk (t.SearchPage codec rows f sort limit) n none pages) :
    ∃ r rest, (l.take limit).getLast? = some r ∧ pages = l.take limit :: rest ∧
      Walk (t.SearchPage codec rows f sort limit) (n + 1) (some (t.nextCursor codec sort r))
        rest := by
  have hne : l.take limit ≠ [] := by
    rw [← List.length_pos_iff, List.length_take]
    omega
  have hlast := List.getLast?_eq_getLast_of_ne_nil hne
  have hfirst := h.first
  rw [if_pos hlt, hlast, Option.map_some] at hfirst
  cases hw with
  | last hp => cases hfirst.symm.trans hp
  | more hp hw =>
      cases hfirst.symm.trans hp
      exact ⟨_, _, hlast, rfl, hw⟩

/-- A walk over more than one page of two or more documents returns the first one twice. -/
theorem not_nodup_of_two_le (h : t.RestartsFrom codec rows f sort limit l)
    (hlt : limit < l.length) (hlimit : 2 ≤ limit)
    (hw : Walk (t.SearchPage codec rows f sort limit) n none pages) : ¬ pages.flatten.Nodup := by
  obtain ⟨r, rest, hlast, rfl, hrest⟩ := h.walk_of_lt hlt (by omega) hw
  obtain ⟨a, l', rfl⟩ := List.exists_cons_of_length_pos (by omega : 0 < l.length)
  obtain ⟨k, rfl⟩ : ∃ k, limit = k + 1 + 1 := ⟨limit - 2, by omega⟩
  rw [List.length_cons] at hlt
  -- The page past the first document is not empty, and ends with the last document.
  have hr : r ∈ l' := by
    obtain ⟨b, l'', rfl⟩ := List.exists_cons_of_length_pos (by omega : 0 < l'.length)
    rw [List.take_succ_cons, List.take_succ_cons, List.getLast?_cons_cons] at hlast
    have hmem := List.mem_of_getLast? hlast
    rw [← List.take_succ_cons] at hmem
    exact List.mem_of_mem_take hmem
  have ha := h.mem_of_walk (List.mem_cons_of_mem a hr) hrest (head_mem_filter h.nodup hr (by omega))
  intro hnd
  rw [List.flatten_cons, List.nodup_append] at hnd
  exact hnd.2.2 a (by simp) a ha rfl

/-- A walk one by one over three documents or more returns the first one twice. -/
theorem not_nodup_of_one (h : t.RestartsFrom codec rows f sort 1 l) (hlen : 3 ≤ l.length)
    (hw : Walk (t.SearchPage codec rows f sort 1) n none pages) : ¬ pages.flatten.Nodup := by
  obtain ⟨r, rest, hlast, rfl, hrest⟩ := h.walk_of_lt (by omega) le_rfl hw
  match l, h, hlast, hlen with
  | a :: b :: c :: l, h, hlast, _ =>
      obtain rfl : a = r := by simpa using hlast
      -- The second page holds the second document and hands on a cursor past it.
      have hpast := h.past a (by simp) (b :: c :: l) (filter_head h.nodup).symm
      have hab : t.idOf a ≠ t.idOf b := by
        have := h.nodup
        simp only [List.map_cons, List.nodup_cons, List.mem_cons, not_or] at this
        exact this.1.1
      have hsecond : t.search codec rows f sort (some (t.nextCursor codec sort a)) 1
          = .ok ⟨[b], 1, some (t.nextCursor codec sort b)⟩ := by simpa using hpast
      intro hnd
      cases hrest with
      | last hp => cases hsecond.symm.trans hp
      | more hp hrest =>
          cases hsecond.symm.trans hp
          have ha := h.mem_of_walk (a := a) (by simp) hrest
            (head_mem_filter h.nodup (by simp) le_rfl)
          simp [ha] at hnd

/-- **A walk that repeats nothing was over one page, or over two documents one by one.** -/
theorem length_of_nodup (h : t.RestartsFrom codec rows f sort limit l) (hlimit : 1 ≤ limit)
    (hw : Walk (t.SearchPage codec rows f sort limit) n none pages) (hnd : pages.flatten.Nodup) :
    l.length ≤ limit ∨ limit = 1 ∧ l.length = 2 := by
  rcases Nat.lt_or_ge limit l.length with hlt | hle
  · rcases Nat.lt_or_ge limit 2 with hone | htwo
    · obtain rfl : limit = 1 := by omega
      rcases Nat.lt_or_ge l.length 3 with hlen | hlen
      · exact .inr ⟨rfl, by omega⟩
      · exact absurd hnd (h.not_nodup_of_one hlen hw)
    · exact absurd hnd (h.not_nodup_of_two_le hlt htwo hw)
  · exact .inl hle

/-- **One page, or two documents one by one, are walked as listed.** -/
theorem walk_iff (h : t.RestartsFrom codec rows f sort limit l)
    (hlen : l.length ≤ limit ∨ limit = 1 ∧ l.length = 2) :
    (∃ pages, Walk (t.SearchPage codec rows f sort limit) 0 none pages) ∧
      ∀ pages, Walk (t.SearchPage codec rows f sort limit) 0 none pages → pages.flatten = l := by
  rcases hlen with hle | ⟨rfl, hlen⟩
  · have hfirst := h.first
    rw [if_neg (by omega), List.take_of_length_le hle] at hfirst
    refine ⟨⟨_, .last hfirst⟩, fun pages hw => ?_⟩
    cases hw with
    | last hp =>
        cases hfirst.symm.trans hp
        simp
    | more hp _ => cases hfirst.symm.trans hp
  · obtain ⟨a, b, rfl⟩ := List.length_eq_two.mp hlen
    have hfirst : t.search codec rows f sort none 1
        = .ok ⟨[a], 1, some (t.nextCursor codec sort a)⟩ := by simpa using h.first
    have hsecond : t.search codec rows f sort (some (t.nextCursor codec sort a)) 1
        = .ok ⟨[b], 1, none⟩ := by
      simpa using h.past a (by simp) [b] (filter_head h.nodup).symm
    refine ⟨⟨_, .more hfirst (.last hsecond)⟩, fun pages hw => ?_⟩
    cases hw with
    | last hp => cases hfirst.symm.trans hp
    | more hp hw =>
        cases hfirst.symm.trans hp
        cases hw with
        | last hp =>
            cases hsecond.symm.trans hp
            rfl
        | more hp _ => cases hsecond.symm.trans hp

end RestartsFrom

/-- **By descending identifier, exactly the listings of one page, and those of two documents in
pages of one, are walked correctly.** -/
theorem visitsOnce_iff_of_byIdDescending (hrows : t.Valid types rows)
    (hm : t.Selects rows f matched) (hsort : t.Sortable types sort) (hlimit : 1 ≤ limit)
    (hid : t.ByIdDescending sort) : t.VisitsOnce codec rows f sort limit matched ↔
      matched.length ≤ limit ∨ limit = 1 ∧ matched.length = 2 := by
  obtain ⟨l, hperm, hpairwise, h⟩ : ∃ l : List ρ, l.Perm matched ∧
      (l.Pairwise fun a b =>
        sortsBefore (isDescending sort) (t.position sort a) (t.position sort b)) ∧
      t.RestartsFrom codec rows f sort limit l :=
    restarts_of_byIdDescending hrows hm hsort hid
  rw [← hperm.length_eq]
  constructor
  · rintro ⟨⟨pages, hw⟩, hall⟩
    have hnd : pages.flatten.Nodup :=
      (hall pages hw).1.nodup_iff.mpr (List.Nodup.of_map _ (hm.nodup hrows))
    exact h.length_of_nodup hlimit hw hnd
  · intro hlen
    obtain ⟨hex, hall⟩ := h.walk_iff hlen
    refine ⟨hex, fun pages hw => ?_⟩
    rw [hall pages hw]
    exact ⟨hperm, hpairwise⟩

end Page

/-- **When following `next_cursor` returns each matching document once and in order.** -/
theorem search_walk_iff {types : String → Option Kind} {rows matched : List ρ}
    {f : Option SearchFilter} {sort : Option SortOrder} {limit : ℕ} {codec : CursorCodec κ}
    (hrows : t.Valid types rows) (hm : t.Selects rows f matched) (hsort : t.Sortable types sort)
    (hlimit : 1 ≤ limit) : t.VisitsOnce codec rows f sort limit matched ↔
      (t.ByIdDescending sort → matched.length ≤ limit ∨ limit = 1 ∧ matched.length = 2) := by
  constructor
  · intro hv hid
    exact (visitsOnce_iff_of_byIdDescending hrows hm hsort hlimit hid).mp hv
  · intro himp
    by_cases hid : t.ByIdDescending sort
    · exact (visitsOnce_iff_of_byIdDescending hrows hm hsort hlimit hid).mpr (himp hid)
    · exact visitsOnce_of_not_byIdDescending hrows hm hsort hlimit hid

end Search

/-- Documents that hold an integer identifier and nothing else. -/
def identifiers : MongoCollection ℤ where
  idField := "id"
  queryable _ := true
  sortable _ := true
  document n name := if name = mongoIdField then some (.scalar (.int n)) else none
  dto n _ := .scalar (.int n)
  id_sortable := rfl

theorem identifiers_valid [TextRules] {rows : List ℤ} (hrows : rows.Nodup) :
    identifiers.Valid (fun _ => some .int) rows where
  typed n _ name k hk := by
    cases hk
    by_cases h : name = mongoIdField <;>
      simp [field, identifiers, MongoDoc.get, h, Value.OfKind, Scalar.kind]
  encoded n _ name := by
    by_cases h : name = mongoIdField <;>
      simp [field, identifiers, MongoDoc.get, h, encodeValue]
  id_typed := rfl
  id_ne_none n _ := nofun
  nodup := hrows.map fun m n h => by simpa [idOf, field, identifiers, MongoDoc.get] using h

/-- Two documents by descending identifier, one by one. -/
theorem search_walk_two :
    letI := TextRules.ascii
    identifiers.VisitsOnce .plain [1, 2] none (some ⟨"id", true⟩) 1 [1, 2] := by
  let _ := TextRules.ascii
  have hnd : ([1, 2] : List ℤ).Nodup := by decide
  have hm : identifiers.Selects [1, 2] none [1, 2] := ⟨none, rfl, by simp [finds]⟩
  have hsort : identifiers.Sortable (fun _ => some .int) (some ⟨"id", true⟩) := by
    rintro _ ⟨⟩
    exact ⟨rfl, rfl⟩
  exact (search_walk_iff _ (identifiers_valid hnd) hm hsort le_rfl).mpr
    fun _ => .inr ⟨rfl, rfl⟩

/-- Three documents by descending identifier, in pages of two: the second page starts over. -/
theorem search_walk_id_descending :
    letI := TextRules.ascii
    identifiers.Valid (fun _ => some .int) [1, 2, 3] ∧
      identifiers.Selects [1, 2, 3] none [1, 2, 3] ∧
      identifiers.Sortable (fun _ => some .int) (some ⟨"id", true⟩) ∧
      Walk (identifiers.SearchPage .plain [1, 2, 3] none (some ⟨"id", true⟩) 2) 0 none
        [[3, 2], [3, 1]] ∧
      ¬ identifiers.VisitsOnce .plain [1, 2, 3] none (some ⟨"id", true⟩) 2 [1, 2, 3] := by
  let _ := TextRules.ascii
  have hnd : ([1, 2, 3] : List ℤ).Nodup := by decide
  have hm : identifiers.Selects [1, 2, 3] none [1, 2, 3] := ⟨none, rfl, by simp [finds]⟩
  have hsort : identifiers.Sortable (fun _ => some .int) (some ⟨"id", true⟩) := by
    rintro _ ⟨⟩
    exact ⟨rfl, rfl⟩
  have hw : Walk (identifiers.SearchPage .plain [1, 2, 3] none (some ⟨"id", true⟩) 2) 0 none
      [[3, 2], [3, 1]] := .more rfl (.last rfl)
  refine ⟨identifiers_valid hnd, hm, hsort, hw, fun hv => ?_⟩
  have hperm := (hv.2 _ hw).1
  exact absurd hperm.length_eq (by decide)

end MongoCollection

end Resourcey
