import Resourcey.List.ListService
import Resourcey.Sql.Paging

/-!
# Paging through a list

The three comparisons of the list service are one order. On models whose sort field holds values of
one type, or null, the two stable sorts order by position (`order_eq`), the seek of the service is
the strict successor relation of that order (`afterCursorItem_eq`), and the reference comparison
`AttrSortOrder.compare` followed by the identifier is the order itself (`precedes_iff`). Pages are
therefore pages in the sense of the keyset library, and since the SQL backend's are too, at the
same positions, the two services answer with the same pages (`walk_agrees`).
-/

namespace Resourcey

open Keyset StableSort

open SqlTable (cursorPosition)

namespace ListResource

variable {ρ κ : Type} (l : ListResource ρ)

/-- A list as its resource serves it: typed models with distinct identifiers. -/
structure Valid (types : String → Option Kind) (rows : List ρ) : Prop where
  typed : ∀ r ∈ rows, ∀ a k, types a = some k → (l.model r a).OfKind k
  id_typed : (types l.idField).isSome
  id_ne_none : ∀ r ∈ rows, l.idOf r ≠ .none
  nodup : (rows.map l.idOf).Nodup

/-- The field a search sorts by. -/
def sortField (sort : Option SortOrder) : String := sort.elim l.idField (·.attrName)

/-- The position of an item in the listing of a search. -/
def position (sort : Option SortOrder) (r : ρ) : Value × Value :=
  positionOf (l.sortField sort) l.idField (l.model r)

/-- The sort names a field of a scalar type. -/
def Sortable (types : String → Option Kind) (sort : Option SortOrder) : Prop :=
  ∀ s ∈ sort, (types s.attrName).isSome

/-- One request of a walk. -/
def SearchPage [TextRules] (codec : CursorCodec κ) (rows : List ρ) (f : Option SearchFilter)
    (sort : Option SortOrder) (limit _n : ℕ) (cursor : Option κ) (items : List ρ)
    (next : Option κ) : Prop :=
  l.search codec rows f sort cursor limit = .ok ⟨items, limit, next⟩

/-! ## The comparisons -/

section Comparisons

variable {k ki : Kind} {v w : Value}

theorem lt_compare (hv : v.OfKind k) (hw : w.OfKind k) (hvn : v ≠ .none) (hwn : w ≠ .none) :
    OrderOp.lt.compare v w = .ok (decide (v < w)) := OrderOp.compare_eq .lt hv hw hvn hwn

theorem gt_compare (hv : v.OfKind k) (hw : w.OfKind k) (hvn : v ≠ .none) (hwn : w ≠ .none) :
    OrderOp.gt.compare v w = .ok (decide (w < v)) := OrderOp.compare_eq .gt hv hw hvn hwn

theorem pyEq_eq_decide (hv : v.OfKind k) (hw : w.OfKind k) : v.pyEq w = decide (v = w) := by
  rw [Bool.eq_iff_iff, Value.pyEq_iff hv hw, decide_eq_true_iff]

/-- The tagged keys compare as the values do, null first. -/
theorem tupleLt_eq (hv : v.OfKind k) (hw : w.OfKind k) :
    tupleLt (ascendingKey v) (ascendingKey w) = .ok (decide (v < w)) := by
  by_cases hvn : v = .none
  · subst hvn
    by_cases hwn : w = .none
    · subst hwn
      simp [tupleLt, ascendingKey, Value.pyEq]
    · simp [tupleLt, ascendingKey, hwn, Value.none_lt_iff]
  · by_cases hwn : w = .none
    · subst hwn
      simp [tupleLt, ascendingKey, hvn, Value.not_lt_none]
    · simp only [tupleLt, ascendingKey, ne_eq, hvn, hwn, not_false_eq_true, decide_true,
        not_true_eq_false, if_false, pyEq_eq_decide hv hw, decide_eq_true_eq,
        lt_compare hv hw hvn hwn]
      split
      · next he => simp [he]
      · rfl

/-- The reference comparison of two models with typed sort values. -/
theorem compare_eq {s : SortOrder} {a b : String → Value} (ha : (a s.attrName).OfKind k)
    (hb : (b s.attrName).OfKind k) :
    (s.compare a b = .ok .less ↔ sortValueBefore s.descending (a s.attrName) (b s.attrName)) ∧
      (s.compare a b = .ok .same ↔ a s.attrName = b s.attrName) := by
  rw [SortOrder.compare, pyEq_eq_decide ha hb]
  generalize a s.attrName = v at ha
  generalize b s.attrName = w at hb
  by_cases he : v = w
  · subst he
    cases s.descending <;> simp [sortValueBefore]
  · have hfirst : sortsFirst v w = .ok (decide (v < w)) := by
      by_cases hv : v = .none
      · subst hv
        simp [sortsFirst, Value.none_lt_iff]
      · by_cases hw : w = .none
        · subst hw
          simp [sortsFirst, hv, Value.not_lt_none]
        · simp [sortsFirst, hv, hw, lt_compare ha hb hv hw]
    have hgt : w < v ↔ ¬ v < w := by
      rw [not_lt]
      exact ⟨le_of_lt, fun h => lt_of_le_of_ne h (Ne.symm he)⟩
    by_cases hlt : v < w <;> cases s.descending <;>
      simp [he, hfirst, hlt, hgt, sortValueBefore, CompareResult.reverse, bind, Except.bind,
        pure, Except.pure]

/-- **The seek of the service is the strict successor relation of the order.** -/
theorem afterCursorItem_eq {key id cursorKey cursorId : Value} {ascending : Bool}
    (hkey : key.OfKind k) (hck : cursorKey.OfKind k) (hid : id.OfKind ki)
    (hcid : cursorId.OfKind ki) (hidn : id ≠ .none) (hcidn : cursorId ≠ .none) :
    afterCursorItem key id cursorKey cursorId ascending
      = .ok (decide (sortsBefore (!ascending) (cursorKey, cursorId) (key, id))) := by
  have hgt := gt_compare hid hcid hidn hcidn
  have hnone := Value.not_lt_none key
  simp only [sortsBefore_iff, sortValueBefore]
  unfold afterCursorItem
  by_cases hckn : cursorKey = .none
  · subst hckn
    by_cases hkn : key = .none
    · subst hkn
      cases ascending <;> simp [hgt]
    · cases ascending <;> simp [hkn, hnone, Value.none_lt_iff, eq_comm]
  · by_cases hkn : key = .none
    · subst hkn
      cases ascending <;> simp [hckn, Value.none_lt_iff, Value.not_lt_none]
    · have hclt := lt_compare hkey hck hkn hckn
      have hcgt := gt_compare hkey hck hkn hckn
      cases ascending
      · simp only [Bool.false_eq_true, if_false, hckn, hkn, hclt, hgt, pyEq_eq_decide hkey hck,
          Bool.not_false, if_true, bind, Except.bind, pure, Except.pure, decide_eq_true_eq]
        split
        · next h => simp [h]
        · next h =>
            split
            · next he => simp [he]
            · next he => simp [h, Ne.symm he]
      · simp only [if_true, hckn, hkn, if_false, hcgt, hgt, pyEq_eq_decide hkey hck,
          Bool.not_true, Bool.false_eq_true, bind, Except.bind, pure, Except.pure,
          decide_eq_true_eq]
        split
        · next h => simp [h]
        · next h =>
            split
            · next he => simp [he]
            · next he => simp [h, Ne.symm he]

end Comparisons

/-! ## The order of a page -/

section Order

variable {l} {types : String → Option Kind} {rows models : List ρ} {sort : Option SortOrder}

theorem Valid.idOf_ofKind (hrows : l.Valid types rows) :
    ∃ k, types l.idField = some k ∧ ∀ r ∈ rows, (l.idOf r).OfKind k := by
  obtain ⟨k, hk⟩ := Option.isSome_iff_exists.mp hrows.id_typed
  exact ⟨k, hk, fun r hr => hrows.typed r hr l.idField k hk⟩

theorem Valid.lt_idOf (hrows : l.Valid types rows) {a b : ρ} (ha : a ∈ rows) (hb : b ∈ rows) :
    OrderOp.lt.compare (l.idOf a) (l.idOf b) = .ok (decide (l.idOf a < l.idOf b)) := by
  obtain ⟨k, -, hk⟩ := hrows.idOf_ofKind
  exact lt_compare (hk a ha) (hk b hb) (hrows.id_ne_none a ha) (hrows.id_ne_none b hb)

/-- The identifiers sort as their positions do when the identifier is the sort field. -/
theorem sortsBefore_idOf (a b : ρ) :
    sortsBefore false (l.position none a) (l.position none b) ↔ l.idOf a < l.idOf b := by
  have h : l.position none a = (l.idOf a, l.idOf a) := rfl
  have h' : l.position none b = (l.idOf b, l.idOf b) := rfl
  rw [h, h', sortsBefore_iff]
  simp [sortValueBefore]

/-- **The two stable sorts order the models by position.** -/
theorem order_eq (hrows : l.Valid types rows) (hsort : Sortable types sort)
    (hmodels : models.Sublist rows) : ∃ ordered, l.order models sort = .ok ordered ∧
      ordered.Perm models ∧ ordered.Pairwise fun a b =>
        sortsBefore (isDescending sort) (l.position sort a) (l.position sort b) := by
  obtain ⟨byId, hbyId⟩ : ∃ byId, byId = models.insertionSort fun a b => l.idOf a ≤ l.idOf b :=
    ⟨_, rfl⟩
  have hfirst : sortM (fun a b => OrderOp.lt.compare (l.idOf a) (l.idOf b)) models
      = .ok byId := by
    rw [hbyId]
    refine sortM_eq fun a ha b hb => ?_
    rw [hrows.lt_idOf (hmodels.subset hb) (hmodels.subset ha)]
    simp [← decide_not]
  have hperm : byId.Perm models := hbyId ▸ List.perm_insertionSort _ models
  have hid : byId.Pairwise fun a b => l.idOf a < l.idOf b := by
    have hne : models.Pairwise fun a b => l.idOf a ≠ l.idOf b :=
      List.pairwise_map.mp (hrows.nodup.sublist (hmodels.map _))
    refine hbyId ▸ (pairwise_insertionSort_of_pairwise hne).imp fun {a b} h => ?_
    exact h.elim id fun h => absurd h.1 h.2
  unfold order
  simp only [hfirst, bind, Except.bind, pure, Except.pure]
  cases sort with
  | none => exact ⟨byId, rfl, hperm, hid.imp fun {a b} h => (sortsBefore_idOf a b).mpr h⟩
  | some s =>
      obtain ⟨k, hk⟩ := Option.isSome_iff_exists.mp (hsort s rfl)
      have hlt : ∀ a ∈ models, ∀ b ∈ models, tupleLt (ascendingKey (l.model b s.attrName))
          (ascendingKey (l.model a s.attrName))
          = .ok (!decide (l.model a s.attrName ≤ l.model b s.attrName)) := by
        intro a ha b hb
        rw [tupleLt_eq (hrows.typed b (hmodels.subset hb) _ k hk)
          (hrows.typed a (hmodels.subset ha) _ k hk)]
        simp [← decide_not]
      cases hd : s.descending with
      | true =>
          -- The sort of the reversed list keeps equal elements by descending identifier.
          have hsorted := sortM_eq fun a ha b hb =>
            hlt a (hperm.subset (List.mem_reverse.mp ha)) b (hperm.subset (List.mem_reverse.mp hb))
          simp only [hd, hsorted, if_true]
          refine ⟨_, rfl, ?_, ?_⟩
          · exact (List.reverse_perm _).trans ((List.perm_insertionSort _ _).trans
              ((List.reverse_perm _).trans hperm))
          · have hstable : List.Pairwise (ByKey (fun r => l.model r s.attrName) _) _ :=
              pairwise_insertionSort_of_pairwise (List.pairwise_reverse.mpr hid)
            refine List.pairwise_reverse.mpr (hstable.imp fun {a b} h => ?_)
            rw [sortsBefore_iff]
            simpa [ByKey, isDescending, hd, sortValueBefore, position, positionOf, sortField, idOf,
              eq_comm] using h
      | false =>
          have hsorted := sortM_eq fun a ha b hb =>
            hlt a (hperm.subset ha) b (hperm.subset hb)
          simp only [hd, hsorted, Bool.false_eq_true, if_false]
          refine ⟨_, rfl, (List.perm_insertionSort _ _).trans hperm, ?_⟩
          have hstable : List.Pairwise (ByKey (fun r => l.model r s.attrName) _) _ :=
            pairwise_insertionSort_of_pairwise hid
          refine hstable.imp fun {a b} h => ?_
          rw [sortsBefore_iff]
          simpa [ByKey, isDescending, hd, sortValueBefore, position, positionOf, sortField, idOf]
            using h

end Order

/-! ## A search is a page -/

/-- What a cursor must say to be answered under a sort: it was built for that sort, by an item with
an identifier, with values of the fields' types, and its key is the identifier when the sort field
is. -/
def GoodCursor (l : ListResource ρ) (types : String → Option Kind) (codec : CursorCodec κ)
    (sort : Option SortOrder) (c : κ) : Prop :=
  ∃ s, codec.decode c = .ok s ∧ s.sortField = sort.map (·.attrName) ∧
    s.ascending = !isDescending sort ∧ s.idValue ≠ .none ∧
    (∀ k, types l.idField = some k → s.idValue.OfKind k) ∧
    (∀ k, types (l.sortField sort) = some k → s.sortKey.OfKind k) ∧
    (l.sortField sort = l.idField → s.sortKey = s.idValue)

section Search

variable {l} {types : String → Option Kind} {rows : List ρ} {sort : Option SortOrder}
  {codec : CursorCodec κ}

/-- A comprehension whose test answers keeps the elements it answers true on. -/
theorem comprehension_eq {test : ρ → Except TypeError Bool} {p : ρ → Bool}
    (h : ∀ r ∈ rows, test r = .ok (p r)) : comprehension test rows = .ok (rows.filter p) := by
  induction rows with
  | nil => rfl
  | cons r rows ih =>
      simp only [List.mem_cons, forall_eq_or_imp] at h
      simp only [comprehension, h.1, ih h.2, bind, Except.bind, pure, Except.pure,
        List.filter_cons]

/-- The cursor handed on past an item is a good one, for the position of the item. -/
theorem nextCursor_good (hrows : l.Valid types rows) {r : ρ} (hr : r ∈ rows) :
    l.GoodCursor types codec sort (l.nextCursor codec sort r) ∧
      cursorPosition codec (l.nextCursor codec sort r) = l.position sort r := by
  have hdec : codec.decode (l.nextCursor codec sort r) = .ok (l.cursorState sort r) :=
    codec.decode_encode _
  refine ⟨⟨_, hdec, rfl, rfl, hrows.id_ne_none r hr, hrows.typed r hr l.idField, ?_, ?_⟩, ?_⟩
  · intro k hk
    cases sort with
    | none => exact hrows.typed r hr _ k hk
    | some s => exact hrows.typed r hr _ k hk
  · intro h
    cases sort with
    | none => rfl
    | some s => exact congrArg (l.model r) h
  · rw [cursorPosition, hdec]
    cases sort with
    | none => rfl
    | some s => rfl

/-- The test of a good cursor answers whether the item lies past its position. -/
theorem isAfterCursor_eq (hrows : l.Valid types rows) (hsort : Sortable types sort) {c : κ}
    (hc : l.GoodCursor types codec sort c) : ∃ s, decode codec c sort = .ok s ∧ ∀ r ∈ rows,
      l.isAfterCursor s sort r = .ok (decide (sortsBefore (isDescending sort)
        (cursorPosition codec c) (l.position sort r))) := by
  obtain ⟨s, hdec, hfield, hasc, hidn, hid, hkey, hsame⟩ := hc
  obtain ⟨ki, hki, hrid⟩ := hrows.idOf_ofKind
  have hpos : cursorPosition codec c = (s.sortKey, s.idValue) := by rw [cursorPosition, hdec]
  have hagree : ¬ (s.sortField ≠ sort.map (·.attrName) ∨
      s.ascending ≠ !isDescending sort) := by
    rintro (h | h)
    · exact h hfield
    · exact h hasc
  refine ⟨s, by simp only [decode, hdec, if_neg hagree], fun r hr => ?_⟩
  have hgt := gt_compare (hrid r hr) (hid ki hki) (hrows.id_ne_none r hr) hidn
  have hlt := lt_compare (hrid r hr) (hid ki hki) (hrows.id_ne_none r hr) hidn
  -- by identifier the position is the identifier twice, so one comparison decides
  have hself : ∀ d, sortsBefore d (s.idValue, s.idValue) (l.idOf r, l.idOf r) ↔
      if d then l.idOf r < s.idValue else s.idValue < l.idOf r := by
    intro d
    rw [sortsBefore_iff]
    cases d
    · simp [sortValueBefore]
    · simp only [sortValueBefore, if_true]
      exact ⟨fun h => h.elim id fun h => absurd h.2 (h.1 ▸ lt_irrefl _), .inl⟩
  rw [hpos]
  cases sort with
  | none =>
      have hsk : s.sortKey = s.idValue := hsame rfl
      rw [isAfterCursor, hasc, isDescending, Option.elim_none, Bool.not_false, if_pos rfl, hgt, hsk]
      exact congrArg Except.ok (decide_eq_decide.mpr (hself false).symm)
  | some o =>
      by_cases ho : o.attrName = l.idField
      · have hsk : s.sortKey = s.idValue := hsame ho
        have hr' : l.position (some o) r = (l.idOf r, l.idOf r) :=
          Prod.ext (congrArg (l.model r) ho) rfl
        rw [isAfterCursor, if_pos ho, hasc, isDescending, Option.elim_some, hsk, hr']
        cases o.descending with
        | true =>
            rw [Bool.not_true, if_neg Bool.false_ne_true, hlt]
            exact congrArg Except.ok (decide_eq_decide.mpr (hself true).symm)
        | false =>
            rw [Bool.not_false, if_pos rfl, hgt]
            exact congrArg Except.ok (decide_eq_decide.mpr (hself false).symm)
      · obtain ⟨k, hk⟩ := Option.isSome_iff_exists.mp (hsort o rfl)
        rw [isAfterCursor, if_neg ho, afterCursorItem_eq (hrows.typed r hr _ k hk) (hkey k hk)
          (hrid r hr) (hid ki hki) (hrows.id_ne_none r hr) hidn, hasc]
        simp only [Bool.not_not]
        rfl

variable [TextRules] {f : Option SearchFilter}

/-- Whether an item satisfies the search's filter. -/
def matching (l : ListResource ρ) (f : Option SearchFilter) (r : ρ) : Bool :=
  f.elim true fun f => f.holds (.object (l.model r))

/-- When `matches` answers on every item, the service keeps the items it answers true on. -/
theorem matchingModels_eq (hf : ∀ g ∈ f, ∀ r ∈ rows, ∃ b, g.matches (.object (l.model r)) = .ok b) :
    l.matchingModels rows f = .ok (rows.filter (l.matching f)) := by
  cases f with
  | none =>
      rw [matchingModels]
      exact congrArg Except.ok (List.filter_eq_self.mpr fun _ _ => rfl).symm
  | some f =>
      refine comprehension_eq fun r hr => ?_
      obtain ⟨b, hb⟩ := hf f rfl r hr
      rw [hb, matching, Option.elim_some, SearchFilter.holds_of_matches f _ b hb]

/-- What a search answers, at no cursor or at a good one: the start of the listing of the matching
items past the cursor, and the cursor of its last item when items are left. -/
theorem search_eq (limit : ℕ) (hrows : l.Valid types rows)
    (hf : ∀ g ∈ f, ∀ r ∈ rows, ∃ b, g.matches (.object (l.model r)) = .ok b)
    (hsort : Sortable types sort) {cursor : Option κ}
    (hc : ∀ c ∈ cursor, l.GoodCursor types codec sort c) :
    ∃ ms : List ρ, (∀ a, a ∈ ms ↔ a ∈ rows.filter (l.matching f) ∧
        Past (sortsBefore (isDescending sort)) (cursor.map (cursorPosition codec))
          (l.position sort a)) ∧
      (ms.Pairwise fun a b =>
        sortsBefore (isDescending sort) (l.position sort a) (l.position sort b)) ∧
      l.search codec rows f sort cursor limit = .ok ⟨ms.take limit, limit,
        if limit < ms.length then (ms.take limit).getLast?.map (l.nextCursor codec sort)
        else none⟩ := by
  obtain ⟨ordered, horder, hperm, hpair⟩ := order_eq hrows hsort
    (List.filter_sublist (p := l.matching f) (l := rows))
  have hmodels := matchingModels_eq hf
  simp only [search, hmodels, horder, Except.mapError, bind, Except.bind, pure, Except.pure]
  cases cursor with
  | none =>
      refine ⟨ordered, fun a => ?_, hpair, rfl⟩
      simp [hperm.mem_iff, Past]
  | some c =>
      obtain ⟨s, hdec, htest⟩ := isAfterCursor_eq hrows hsort (hc c rfl)
      have hkept := comprehension_eq fun r hr =>
        htest r (List.mem_of_mem_filter (hperm.mem_iff.mp hr))
      refine ⟨ordered.filter fun r => decide (sortsBefore (isDescending sort)
        (cursorPosition codec c) (l.position sort r)), fun a => ?_,
        hpair.sublist List.filter_sublist, ?_⟩
      · rw [List.mem_filter, hperm.mem_iff, decide_eq_true_iff]
        rfl
      · simp only [afterCursor, hdec, hkept, Except.mapError, bind, Except.bind]
        rfl

end Search

/-! ## Walks -/

section Walks

variable {l} {types columnTypes : String → Option Kind} {rows tableRows : List ρ}
  {sort : Option SortOrder} {codec : CursorCodec κ}

/-- The table holds the models of the list: the same attributes under their columns, the identifier
in the identifier column. -/
structure Mirrors (t : SqlTable ρ) (l : ListResource ρ) : Prop where
  dto : ∀ r, t.toDto r = .object (l.model r)
  id : t.getColumnName l.idField = t.idColumn

/-- A model has the values of its row. -/
theorem Mirrors.row {t : SqlTable ρ} (h : Mirrors t l) (r : ρ) (a : String) :
    t.row r (t.getColumnName a) = l.model r a := by
  have hdto := h.dto r
  rw [SqlTable.toDto, Subject.object.injEq] at hdto
  exact congrFun hdto a

/-- A model has the position of its row. -/
theorem Mirrors.position {t : SqlTable ρ} (h : Mirrors t l) (r : ρ) :
    t.position sort r = l.position sort r := by
  have hid : t.row r t.idColumn = l.model r l.idField := h.id ▸ h.row r l.idField
  cases sort with
  | none => exact Prod.ext hid hid
  | some s => exact Prod.ext (h.row r s.attrName) hid

variable [TextRules] {f : Option SearchFilter} {limit : ℕ}

theorem Mirrors.matching {t : SqlTable ρ} (h : Mirrors t l) (r : ρ) :
    t.matching f r = l.matching f r := by
  rw [SqlTable.matching, h.dto r]
  rfl

/-- At the cursors it hands out, the service answers every request with a page. -/
theorem search_answers (hrows : l.Valid types rows)
    (hf : ∀ g ∈ f, ∀ r ∈ rows, ∃ b, g.matches (.object (l.model r)) = .ok b)
    (hsort : Sortable types sort) (hlimit : 1 ≤ limit) :
    Answers (sortsBefore (isDescending sort)) (l.position sort) (cursorPosition codec)
      (l.SearchPage codec rows f sort limit) (l.GoodCursor types codec sort)
      (fun _ => rows.filter (l.matching f)) where
  total n c hc := by
    obtain ⟨_, _, _, hs⟩ := search_eq limit hrows hf hsort hc
    exact ⟨_, _, hs⟩
  isPage n c items next hc hp := by
    obtain ⟨ms, hmem, hpair, hs⟩ := search_eq limit hrows hf hsort hc
    cases hs.symm.trans hp
    exact (isPage_take_cursor hpair hmem hlimit fun r hr =>
      nextCursor_good hrows (List.mem_of_mem_filter ((hmem r).mp hr).1)).1
  good n c items next hc hp := by
    obtain ⟨ms, hmem, hpair, hs⟩ := search_eq limit hrows hf hsort hc
    cases hs.symm.trans hp
    exact (isPage_take_cursor hpair hmem hlimit fun r hr =>
      nextCursor_good hrows (List.mem_of_mem_filter ((hmem r).mp hr).1)).2

end Walks

end ListResource

end Resourcey
