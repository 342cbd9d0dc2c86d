import Mathlib.Data.List.Find
import Mathlib.Data.List.Nodup
import Resourcey.List.ListService
import Resourcey.Logic.PyDict
import Resourcey.Mongo.StoredQueries
import Resourcey.Sql.SqlService

/-!
# Batch reads

`batch_read` is `read`, position by position. Where it is written as a dictionary by identifier,
though, the dictionary keeps the last item of an identifier, and `read` returns the first one. So
over a list, or a table whose identifier column is but a part of its key, the two agree exactly where
the first and the last item of an identifier are the same (`list_reads_iff`, `sql_reads_iff`). A
collection holds no two documents with one identifier (`mongo_reads`).
-/

namespace Resourcey

/-! ## Python's equality as a key -/

/-- What `==` compares of a scalar: its number, or else the scalar. -/
def Scalar.pyKey (s : Scalar) : ℤ ⊕ Scalar := s.number?.elim (.inr s) .inl

/-- What `==` compares of a value. -/
def Value.pyKey : Value → Option ((ℤ ⊕ Scalar) ⊕ List (ℤ ⊕ Scalar))
  | .none => Option.none
  | .scalar s => some (.inl s.pyKey)
  | .list items => some (.inr (items.map Scalar.pyKey))

theorem Scalar.pyEq_iff_pyKey (a b : Scalar) : a.pyEq b = true ↔ a.pyKey = b.pyKey := by
  unfold Scalar.pyEq Scalar.pyKey
  cases a.number? <;> cases b.number? <;> simp

theorem Value.pyEqItems_iff_pyKey (as bs : List Scalar) :
    pyEqItems as bs = true ↔ as.map Scalar.pyKey = bs.map Scalar.pyKey := by
  induction as generalizing bs with
  | nil => cases bs <;> simp [pyEqItems]
  | cons a as ih =>
      cases bs with
      | nil => simp [pyEqItems]
      | cons b bs => simp [pyEqItems, ih, Scalar.pyEq_iff_pyKey]

theorem Value.pyEq_iff_pyKey (v w : Value) : v.pyEq w = true ↔ v.pyKey = w.pyKey := by
  cases v <;> cases w <;> simp [pyEq, pyKey, Scalar.pyEq_iff_pyKey, pyEqItems_iff_pyKey]

theorem Value.pyEq_equivalence : Equivalence fun v w : Value => v.pyEq w = true := by
  simp only [Value.pyEq_iff_pyKey]
  exact ⟨fun _ => rfl, Eq.symm, Eq.trans⟩

/-! ## The first and the last -/

section
variable {ρ : Type} {p : ρ → Bool} {rows : List ρ}

/-- The first and the last of the items with a property are the same. -/
def EndsAgree (p : ρ → Bool) (rows : List ρ) : Prop :=
  ∀ front r back front' s back', rows = front ++ r :: back → rows = front' ++ s :: back' →
    p r = true → p s = true → (∀ x ∈ front, p x = false) → (∀ x ∈ back', p x = false) → r = s

theorem find?_eq_some_iff_front {r : ρ} : rows.find? p = some r ↔
    p r = true ∧ ∃ front back, rows = front ++ r :: back ∧ ∀ x ∈ front, p x = false := by
  simp [List.find?_eq_some_iff_append]

theorem find?_reverse_eq_some_iff {s : ρ} : rows.reverse.find? p = some s ↔
    p s = true ∧ ∃ front back, rows = front ++ s :: back ∧ ∀ x ∈ back, p x = false := by
  rw [find?_eq_some_iff_front]
  refine and_congr_right fun _ => ?_
  constructor
  · rintro ⟨front, back, hrows, hfront⟩
    refine ⟨back.reverse, front.reverse, ?_, fun x hx => hfront x (List.mem_reverse.mp hx)⟩
    rw [List.reverse_eq_iff.mp hrows]
    simp
  · rintro ⟨front, back, rfl, hback⟩
    exact ⟨back.reverse, front.reverse, by simp, fun x hx => hback x (List.mem_reverse.mp hx)⟩

/-- Searching from either end finds the same. -/
theorem endsAgree_iff : EndsAgree p rows ↔ rows.reverse.find? p = rows.find? p := by
  constructor
  · intro h
    cases hfirst : rows.find? p with
    | none =>
        rw [List.find?_eq_none] at hfirst ⊢
        exact fun x hx => hfirst x (List.mem_reverse.mp hx)
    | some r =>
        obtain ⟨hr, front, back, hrows, hfront⟩ := find?_eq_some_iff_front.mp hfirst
        have hmem : r ∈ rows.reverse := List.mem_reverse.mpr (List.mem_of_find?_eq_some hfirst)
        obtain ⟨s, hlast⟩ := Option.isSome_iff_exists.mp (List.find?_isSome.mpr ⟨r, hmem, hr⟩)
        obtain ⟨hs, front', back', hrows', hback⟩ := find?_reverse_eq_some_iff.mp hlast
        rw [hlast, h front r back front' s back' hrows hrows' hr hs hfront hback]
  · intro h front r back front' s back' hrows hrows' hr hs hfront hback
    have hfirst := find?_eq_some_iff_front.mpr ⟨hr, front, back, hrows, hfront⟩
    have hlast := find?_reverse_eq_some_iff.mpr ⟨hs, front', back', hrows', hback⟩
    exact Option.some.inj (hfirst.symm.trans (h.symm.trans hlast))

/-- If no two items have the property, the first and the last are the same. -/
theorem EndsAgree.of_unique (h : ∀ r ∈ rows, ∀ s ∈ rows, p r = true → p s = true → r = s) :
    EndsAgree p rows := by
  intro front r back front' s back' hrows hrows' hr hs _ _
  exact h r (by simp [hrows]) s (by simp [hrows']) hr hs

end

/-! ## What a batch read should give -/

/-- The entry is what `read` returns, and nothing exactly if `read` raises `NotFoundError`. -/
def Reads {ρ : Type} (read : Value → Except ResourceyError ρ) (id : Value) (item : Option ρ) :
    Prop :=
  (∀ r, item = some r ↔ read id = .ok r) ∧ (item = none ↔ read id = .error (.notFound id))

/-- An entry that is searched for as `read` searches, from the other end. -/
theorem forall₂_reads_iff {ρ : Type} {read : Value → Except ResourceyError ρ}
    {p : Value → ρ → Bool} {rows : List ρ} {ids : List Value}
    (hread : ∀ id, read id = match rows.find? (p id) with
      | some r => .ok r
      | none => .error (.notFound id)) :
    List.Forall₂ (Reads read) ids (ids.map fun id => rows.reverse.find? (p id)) ↔
      ∀ id ∈ ids, EndsAgree (p id) rows := by
  rw [List.forall₂_map_right_iff, List.forall₂_same]
  refine forall₂_congr fun id _ => ?_
  rw [endsAgree_iff, Reads, hread]
  cases hfirst : rows.find? (p id) with
  | none =>
      constructor
      · rintro ⟨-, hnone⟩
        exact hnone.mpr rfl
      · intro hlast
        simp [hlast]
  | some r =>
      constructor
      · rintro ⟨hsome, -⟩
        exact (hsome r).mpr rfl
      · intro hlast
        simp [hlast]

/-! ## Lists -/

/-- `TypeError`: `unhashable type: '<typeName>'`. -/
structure Unhashable where
  typeName : String

/-- Whether a value has a hash: a list has none. -/
def Value.hashable : Value → Bool
  | .list _ => false
  | _ => true

/-- A value as the key of a dictionary. -/
def Value.hashed (v : Value) : Except Unhashable Value :=
  if v.hashable then .ok v else .error ⟨v.typeName⟩

theorem mapM_hashed {α β : Type} (key : α → Value) (f : α → Value → β) {xs : List α} {ys : List β} :
    (xs.mapM fun x => (key x).hashed.map (f x)) = .ok ys ↔
      (∀ x ∈ xs, (key x).hashable = true) ∧ ys = xs.map fun x => f x (key x) := by
  induction xs generalizing ys with
  | nil =>
      constructor
      · intro h
        cases h
        exact ⟨by simp, rfl⟩
      · rintro ⟨-, rfl⟩
        rfl
  | cons x xs ih =>
      rw [mapM_cons_eq_ok, List.forall_mem_cons, List.map_cons]
      constructor
      · rintro ⟨y, ys, hy, hys, rfl⟩
        obtain ⟨hall, rfl⟩ := ih.mp hys
        by_cases hx : (key x).hashable = true
        · rw [Value.hashed, if_pos hx] at hy
          cases hy
          exact ⟨⟨hx, hall⟩, rfl⟩
        · rw [Value.hashed, if_neg hx] at hy
          cases hy
      · rintro ⟨⟨hx, hall⟩, rfl⟩
        exact ⟨_, _, by rw [Value.hashed, if_pos hx]; rfl, ih.mpr ⟨hall, rfl⟩, rfl⟩

namespace ListResource

variable {ρ : Type} (l : ListResource ρ)

/-- `ListService.batch_read` with its dictionary `by_id`. -/
def batchReadById (rows : List ρ) (ids : List Value) : Except Unhashable (List (Option ρ)) :=
  if ids = [] then .ok []
  else do
    let entries ← rows.mapM fun r => (l.idOf r).hashed.map fun key => (key, r)
    let byId := PyDict.ofList Value.pyEq entries
    ids.mapM fun id => id.hashed.map fun key => PyDict.get Value.pyEq byId key

/-- If every identifier has a hash, it is found what `batchRead` finds. -/
theorem batchReadById_eq_ok_iff {rows : List ρ} {ids : List Value} {items : List (Option ρ)} :
    l.batchReadById rows ids = .ok items ↔
      (ids ≠ [] → (∀ r ∈ rows, (l.idOf r).hashable = true) ∧ ∀ id ∈ ids, id.hashable = true) ∧
        items = l.batchRead rows ids := by
  have hget (id : Value) : PyDict.get Value.pyEq
      (PyDict.ofList Value.pyEq (rows.map fun r => (l.idOf r, r))) id =
        rows.reverse.find? fun r => (l.idOf r).pyEq id := by
    rw [PyDict.get_ofList Value.pyEq_equivalence, ← List.map_reverse, List.find?_map, Option.map_map]
    exact congrFun Option.map_id _
  by_cases hids : ids = []
  · subst hids
    constructor
    · intro h
      cases h
      exact ⟨fun h => absurd rfl h, rfl⟩
    · rintro ⟨-, rfl⟩
      rfl
  · rw [batchReadById, if_neg hids, bind_eq_ok]
    constructor
    · rintro ⟨entries, hentries, hitems⟩
      obtain ⟨hrows, rfl⟩ := (mapM_hashed _ _).mp hentries
      obtain ⟨hall, rfl⟩ := (mapM_hashed _ _).mp hitems
      simp only [hget]
      exact ⟨fun _ => ⟨hrows, hall⟩, rfl⟩
    · rintro ⟨hall, rfl⟩
      obtain ⟨hrows, hall⟩ := hall hids
      refine ⟨_, (mapM_hashed _ _).mpr ⟨hrows, rfl⟩, (mapM_hashed _ _).mpr ⟨hall, ?_⟩⟩
      simp only [hget]
      rfl

/-- Over a list a batch read is `read` exactly if what it looks up has a hash, and the first and the
last item of each identifier are the same. -/
theorem reads_iff (rows : List ρ) (ids : List Value) :
    (∃ items, l.batchReadById rows ids = .ok items ∧ List.Forall₂ (Reads (l.read rows)) ids items) ↔
      (ids ≠ [] → (∀ r ∈ rows, (l.idOf r).hashable = true) ∧ ∀ id ∈ ids, id.hashable = true) ∧
        ∀ id ∈ ids, EndsAgree (fun r => (l.idOf r).pyEq id) rows := by
  simp only [batchReadById_eq_ok_iff]
  have hreads : List.Forall₂ (Reads (l.read rows)) ids (l.batchRead rows ids) ↔
      ∀ id ∈ ids, EndsAgree (fun r => (l.idOf r).pyEq id) rows := forall₂_reads_iff fun _ => rfl
  rw [← hreads]
  constructor
  · rintro ⟨items, ⟨hhash, rfl⟩, hreads⟩
    exact ⟨hhash, hreads⟩
  · rintro ⟨hhash, hreads⟩
    exact ⟨_, ⟨hhash, rfl⟩, hreads⟩

end ListResource

/-! ## Without duplicates -/

section
variable {α : Type} {r : α → α → Bool}

/-- What is dropped as a duplicate is one of something that stays. -/
theorem exists_mem_eraseDupsBy {l : List α} {a : α} (ha : a ∈ l) :
    ∃ b ∈ l.eraseDupsBy r, b ∈ l ∧ (b = a ∨ r a b = true) := by
  induction h : l.length using Nat.strong_induction_on generalizing l with
  | _ n ih =>
      subst h
      cases l with
      | nil => cases ha
      | cons x l =>
          rw [List.eraseDupsBy_cons]
          by_cases hx : a = x ∨ r a x = true
          · exact ⟨x, List.mem_cons_self, List.mem_cons_self, hx.imp Eq.symm id⟩
          · push Not at hx
            have hmem : a ∈ l.filter fun b => r b x = false :=
              List.mem_filter.mpr ⟨(List.mem_cons.mp ha).resolve_left hx.1, by simpa using hx.2⟩
            have hlt : (l.filter fun b => r b x = false).length < (x :: l).length :=
              Nat.lt_succ_of_le (List.length_filter_le _ _)
            obtain ⟨b, hb, hbl, hab⟩ := ih _ hlt hmem rfl
            exact ⟨b, List.mem_cons_of_mem _ hb, List.mem_cons_of_mem _ (List.mem_of_mem_filter hbl),
              hab⟩

theorem mem_of_mem_eraseDupsBy {l : List α} {a : α} (ha : a ∈ l.eraseDupsBy r) : a ∈ l := by
  induction h : l.length using Nat.strong_induction_on generalizing l with
  | _ n ih =>
      subst h
      cases l with
      | nil => cases ha
      | cons x l =>
          rw [List.eraseDupsBy_cons] at ha
          rcases List.mem_cons.mp ha with rfl | ha
          · exact List.mem_cons_self
          · have hlt : (l.filter fun b => r b x = false).length < (x :: l).length :=
              Nat.lt_succ_of_le (List.length_filter_le _ _)
            exact List.mem_cons_of_mem _ (List.mem_of_mem_filter (ih _ hlt ha rfl))

end

/-! ## Tables -/

variable [TextRules]

/-- A row of a table is fetched if its identifier is not null and is one of those looked up. -/
theorem SqlTable.selects_isIn {ρ : Type} (t : SqlTable ρ) (ids : List Value) (r : ρ) :
    t.selects [.isIn t.idColumn ids] r = true ↔ t.idOf r ≠ .none ∧ t.idOf r ∈ ids := by
  have hmember : SqlExpr.member (t.idOf r) ids = .true ↔ t.idOf r ≠ .none ∧ t.idOf r ∈ ids := by
    rw [SqlExpr.member, Kleene.Truth.any_eq_true]
    simp only [List.mem_map, SqlExpr.compare_eq_true, decide_eq_true_eq]
    constructor
    · rintro ⟨id, hid, hrow, -, heq⟩
      exact ⟨hrow, heq ▸ hid⟩
    · rintro ⟨hrow, hid⟩
      exact ⟨_, hid, hrow, hrow, rfl⟩
  rw [← hmember, SqlTable.selects, List.all_cons, List.all_nil, Bool.and_true, SqlExpr.keeps,
    decide_eq_true_iff]
  rfl

/-- Over a table a batch read is `read` exactly if the first and the last row of each identifier are
the same. -/
theorem SqlTable.reads_iff {ρ : Type} (t : SqlTable ρ) (rows : List ρ) (ids : List Value) :
    List.Forall₂ (Reads (t.read rows)) ids (t.batchRead rows ids) ↔
      ∀ id ∈ ids, EndsAgree (fun r => t.idOf r ≠ .none && t.idOf r = id) rows := by
  have hkeeps (id : Value) : (fun r => (SqlExpr.eq t.idColumn id).keeps (t.row r)) =
      fun r => t.idOf r ≠ .none && t.idOf r = id := by
    funext r
    rw [Bool.eq_iff_iff]
    simp only [SqlExpr.keeps, SqlExpr.eval_eq, decide_eq_true_eq, Bool.and_eq_true]
    exact ⟨fun h => ⟨fun hnone => h.1 (h.2.symm.trans hnone), h.2⟩, fun h => ⟨h.2 ▸ h.1, h.2⟩⟩
  have hbatch : t.batchRead rows ids =
      ids.map fun id => rows.reverse.find? fun r => t.idOf r ≠ .none && t.idOf r = id := by
    refine List.map_congr_left fun id hid => ?_
    rw [← List.filter_reverse, List.find?_filter]
    congr 1
    funext r
    rw [Bool.eq_iff_iff]
    simp only [t.selects_isIn, decide_eq_true_eq, Bool.and_eq_true]
    exact ⟨fun h => ⟨h.1.1, h.2⟩, fun h => ⟨⟨h.1, h.2 ▸ hid⟩, h.2⟩⟩
  rw [hbatch]
  exact forall₂_reads_iff (p := fun id r => t.idOf r ≠ .none && t.idOf r = id) fun id => by
    rw [SqlTable.read, hkeeps] <;> rfl

/-! ## Collections -/

namespace MongoResource

variable {ρ π φ : Type} {m : MongoResource ρ π φ} {rows : List ρ} {ids : List Value} {k : Kind}

/-- What a collection holds: documents whose identifiers are distinct and are no arrays. -/
structure Admits (m : MongoResource ρ π φ) (rows : List ρ) : Prop where
  distinct : (rows.map m.idOf).Nodup
  plain : ∀ r ∈ rows, ∀ items, m.idOf r ≠ .list items

omit [TextRules] in
theorem anyItem_eq {v : Value} (h : ∀ items, v ≠ .list items) (test : Value → Bool) :
    anyItem test v = test v := by
  cases v with
  | none | scalar _ => rfl
  | list items => exact absurd rfl (h items)

/-- The document of an identifier is found by it. -/
theorem matches_idQuery (h : m.Admits rows) {r : ρ} (hr : r ∈ rows) (id : Value) :
    (idQuery id).matches (m.document r) = true ↔ m.idOf r = encodeValue id := by
  rw [idQuery, dict_single, FieldTest.matches]
  exact (Bool.eq_iff_iff.mp (anyItem_eq (h.plain r hr) _)).trans decide_eq_true_iff

theorem ofKind_stored {v : Value} (h : v.OfKind k) : (encodeValue v).OfKind k.stored := by
  cases v with
  | none => trivial
  | scalar s =>
      have hs : s.kind = k := h
      rw [encodeValue_scalar, ← hs]
      exact s.kind_stored
  | list _ => cases h

/-- What the bulk fetch of a batch read finds. -/
theorem matches_isIn (h : m.Admits rows) {r : ρ} (hr : r ∈ rows) (ids : List Value) :
    (MongoQuery.dict [(mongoIdField, .isIn (ids.map encodeValue))]).matches (m.document r) = true ↔
      ∃ id ∈ ids, m.idOf r = encodeValue id := by
  rw [dict_single, FieldTest.matches]
  refine (Bool.eq_iff_iff.mp (anyItem_eq (h.plain r hr) _)).trans ?_
  rw [decide_eq_true_iff, List.mem_map]
  exact exists_congr fun id => and_congr_right fun _ => eq_comm

/-- **Over a collection a batch read is `read`**: as many documents are fetched as there are different
identifiers, and there are no more. -/
theorem reads (h : m.Admits rows) (hids : ∀ id ∈ ids, id.OfKind k) :
    List.Forall₂ (Reads (m.read rows)) ids (m.batchRead rows ids) := by
  let unique := ids.eraseDupsBy Value.pyEq
  let query := MongoQuery.dict [(mongoIdField, .isIn (unique.map encodeValue))]
  have hunique : ∀ id ∈ unique, id.OfKind k := fun id hid => hids id (mem_of_mem_eraseDupsBy hid)
  have hmem : ∀ id ∈ ids, id ∈ unique := by
    intro id hid
    obtain ⟨other, hother, hmem, rfl | hpy⟩ := exists_mem_eraseDupsBy (r := Value.pyEq) hid
    · exact hother
    · exact (Value.pyEq_iff (hids id hid) (hids other hmem)).mp hpy ▸ hother
  have hlength : (rows.filter fun r => query.matches (m.document r)).length ≤ unique.length := by
    have hsub : ((rows.filter fun r => query.matches (m.document r)).map m.idOf) ⊆
        unique.map encodeValue := by
      intro v hv
      obtain ⟨r, hr, rfl⟩ := List.mem_map.mp hv
      obtain ⟨hr, hmatches⟩ := List.mem_filter.mp hr
      obtain ⟨id, hid, heq⟩ := (matches_isIn h hr unique).mp hmatches
      exact List.mem_map.mpr ⟨id, hid, heq.symm⟩
    have hnodup := h.distinct.sublist ((List.filter_sublist (p := fun r =>
      query.matches (m.document r)) (l := rows)).map m.idOf)
    simpa using (List.subperm_of_subset hnodup hsub).length_le
  have hbatch : m.batchRead rows ids =
      ids.map fun id => rows.reverse.find? fun r => (idQuery id).matches (m.document r) := by
    refine List.map_congr_left fun id hid => ?_
    rw [List.take_of_length_le hlength, ← List.filter_reverse, List.find?_filter]
    refine List.find?_congr fun r hr => ?_
    have hr := List.mem_reverse.mp hr
    rw [Bool.eq_iff_iff, matches_idQuery h hr]
    simp only [decide_eq_true_eq, query, matches_isIn h hr]
    constructor
    · rintro ⟨⟨other, hother, heq⟩, hpy⟩
      rw [heq] at hpy ⊢
      exact (Value.pyEq_iff (ofKind_stored (hunique other hother))
        (ofKind_stored (hids id hid))).mp hpy
    · intro heq
      exact ⟨⟨id, hmem id hid, heq⟩, heq ▸ Value.pyEq_equivalence.refl _⟩
  rw [hbatch]
  refine (forall₂_reads_iff (p := fun id r => (idQuery id).matches (m.document r))
    fun id => rfl).mpr fun id _ => .of_unique ?_
  intro r hr s hs hmr hms
  exact List.inj_on_of_nodup_map h.distinct hr hs
    (((matches_idQuery h hr id).mp hmr).trans ((matches_idQuery h hs id).mp hms).symm)

end MongoResource

/-! ## The three services -/

/-- **A batch read is `read`, position by position**: over a list exactly if everything that is
looked up has a hash and the first and the last item of each identifier are the same, over a table
exactly if its first and last row of each identifier are the same, and over every collection. -/
theorem batchRead_reads_iff {ρ π φ : Type} (ids : List Value) :
    (∀ (l : ListResource ρ) (rows : List ρ),
      (∃ items, l.batchReadById rows ids = .ok items ∧
        List.Forall₂ (Reads (l.read rows)) ids items) ↔
      (ids ≠ [] → (∀ r ∈ rows, (l.idOf r).hashable = true) ∧ ∀ id ∈ ids, id.hashable = true) ∧
        ∀ id ∈ ids, EndsAgree (fun r => (l.idOf r).pyEq id) rows) ∧
    (∀ (t : SqlTable ρ) (rows : List ρ),
      List.Forall₂ (Reads (t.read rows)) ids (t.batchRead rows ids) ↔
        ∀ id ∈ ids, EndsAgree (fun r => t.idOf r ≠ .none && t.idOf r = id) rows) ∧
    ∀ (m : MongoResource ρ π φ) (rows : List ρ) (k : Kind), m.Admits rows →
      (∀ id ∈ ids, id.OfKind k) →
        List.Forall₂ (Reads (m.read rows)) ids (m.batchRead rows ids) :=
  ⟨fun l rows => l.reads_iff rows ids, fun t rows => t.reads_iff rows ids,
    fun _ _ _ h hids => MongoResource.reads h hids⟩

/-- A numbered note, by attribute. -/
def noteOf (r : ℤ × String) (name : String) : Value :=
  if name = "id" then .scalar (.int r.1) else .scalar (.str r.2)

/-- A collection of numbered notes. -/
def noteCollection : MongoResource (ℤ × String) Unit Unit where
  name := "notes"
  idField := "id"
  queryable _ := true
  sortable _ := true
  document r field := some (noteOf r (if field = mongoIdField then "id" else field))
  dto := noteOf
  id_sortable := rfl
  payloadId _ := .none
  withDefaults _ _ := id
  hasData _ := false
  write _ := id
  insert _ _ := (0, "")
  supported := []

omit [TextRules] in
/-- Of the notes 1 and 2, with an identifier that is absent and one that is repeated. -/
theorem batchRead_reads_notes :
    letI := TextRules.ascii
    List.Forall₂ (Reads (noteCollection.read [(1, "a"), (2, "b")]))
      [.scalar (.int 2), .scalar (.int 3), .scalar (.int 2)]
      (noteCollection.batchRead [(1, "a"), (2, "b")]
        [.scalar (.int 2), .scalar (.int 3), .scalar (.int 2)]) := by
  let _ := TextRules.ascii
  refine (batchRead_reads_iff _).2.2 noteCollection _ .int ⟨by decide, ?_⟩ (by decide)
  intro r _ items h
  cases h

omit [TextRules] in
/-- Of two notes with one number `read` returns the first and `batch_read` the second. -/
theorem not_reads_repeated :
    let notes : ListResource (ℤ × String) := ⟨"id", noteOf⟩
    notes.read [(1, "first"), (1, "second")] (.scalar (.int 1)) = .ok (1, "first") ∧
      notes.batchReadById [(1, "first"), (1, "second")] [.scalar (.int 1)] =
        .ok [some (1, "second")] ∧
      ¬ ∃ items, notes.batchReadById [(1, "first"), (1, "second")] [.scalar (.int 1)] = .ok items ∧
        List.Forall₂ (Reads (notes.read [(1, "first"), (1, "second")])) [.scalar (.int 1)] items := by
  intro notes
  have hread : notes.read [(1, "first"), (1, "second")] (.scalar (.int 1)) = .ok (1, "first") := rfl
  have hbatch : notes.batchReadById [(1, "first"), (1, "second")] [.scalar (.int 1)] =
      .ok [some (1, "second")] := rfl
  refine ⟨hread, hbatch, ?_⟩
  rintro ⟨items, hitems, hreads⟩
  cases hbatch.symm.trans hitems
  obtain ⟨⟨hsome, -⟩, -⟩ := List.forall₂_cons.mp hreads
  exact absurd (((hsome _).mp rfl).symm.trans hread) (by simp)

end Resourcey
