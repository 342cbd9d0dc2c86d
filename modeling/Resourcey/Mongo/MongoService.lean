import Mathlib.Data.List.Sort
import Resourcey.Core.Listing
import Resourcey.Mongo.FilterConverter

/-!
# Searching a Mongo collection

The search of `MongoService` over a collection, a collection being the list of its documents. The
sort spec is the requested field and then `_id`, the seek query follows the same order from the
cursor on, and `keysetQuery_matches` says that the two agree whenever the sort field is not the
identifier in descending order. There the seek query is a dictionary literal that names `_id`
twice, and what it asks is only that the identifier differ (`keysetQuery_id_descending`).
-/

namespace Resourcey

/-- What a resource says about its collection. `document` is the stored form of an entity and `dto`
its fields by attribute. The identifier is sortable: the transport needs a readable one. -/
structure MongoCollection (ρ : Type) where
  idField : String
  queryable : String → Bool
  sortable : String → Bool
  allowFilterIteration : Bool := false
  document : ρ → MongoDoc
  dto : ρ → String → Value
  id_sortable : sortable idField = true

/-- A sort spec: fields in turn, each ascending or descending. -/
abbrev SortSpec := List (String × Bool)

/-- How a sort spec compares two documents: null and absent come before every other value. -/
def specCompare : SortSpec → MongoDoc → MongoDoc → Ordering
  | [], _, _ => .eq
  | (field, descending) :: spec, a, b =>
    (if descending then cmp (b.get field) (a.get field) else cmp (a.get field) (b.get field)).then
      (specCompare spec a b)

/-- `_keyset_query`, each clause the dictionary its literal builds. -/
def keysetQuery (field : String) (cursorKey cursorId : Value) (ascending : Bool) : MongoQuery :=
  if ascending then
    if cursorKey = .none then
      .or [.dict [(field, .ne .none)],
        .dict [(field, .eq .none), (mongoIdField, .order .gt cursorId)]]
    else
      .or [.dict [(field, .order .gt cursorKey)],
        .dict [(field, .eq cursorKey), (mongoIdField, .order .gt cursorId)]]
  else
    if cursorKey = .none then
      .dict [(field, .eq .none), (mongoIdField, .order .gt cursorId)]
    else
      .or [.dict [(field, .order .lt cursorKey)],
        .dict [(field, .eq cursorKey), (mongoIdField, .order .gt cursorId)],
        .dict [(field, .eq .none)]]

namespace MongoCollection

variable {ρ κ : Type} (t : MongoCollection ρ)

/-- A field of a stored document. -/
def field (r : ρ) (name : String) : Value := (t.document r).get name

/-- The identifier of a stored document. -/
def idOf (r : ρ) : Value := t.field r mongoIdField

/-- `MongoResource.mongo_field_for`: the identifier is stored as `_id`. -/
def mongoFieldFor (name : String) : String := if name = t.idField then mongoIdField else name

/-- `MongoResource.build_filter_context`. -/
def filterContext : MongoFilterContext where
  fields name := if t.queryable name then some (t.mongoFieldFor name) else none

/-- `MongoSortContext.field_for` over `MongoResource.build_sort_context`. -/
def sortFieldFor (name : String) : Except ResourceyError String :=
  if t.sortable name then .ok (t.mongoFieldFor name)
  else .error (.invalidInput ("Unknown or non-sortable sort field '" ++ name ++ "'"))

/-- `_sort_spec` and `MongoSortConverter.apply`. -/
def sortSpec : Option SortOrder → Except ResourceyError SortSpec
  | none => .ok [(mongoIdField, false)]
  | some s => do
    let field ← t.sortFieldFor s.attrName
    let idField ← t.sortFieldFor t.idField
    return [(field, s.descending), (idField, false)]

/-- What the cursor past a document says, under the sort its page was built with. -/
def cursorState (sort : Option SortOrder) (r : ρ) : CursorState where
  sortField := sort.map (·.attrName)
  ascending := !isDescending sort
  sortKey := match sort with
    | none => t.idOf r
    | some s => t.field r (t.mongoFieldFor s.attrName)
  idValue := t.idOf r

/-- `_next_cursor`. -/
def nextCursor (codec : CursorCodec κ) (sort : Option SortOrder) (r : ρ) : κ :=
  codec.encode (t.cursorState sort r)

variable [TextRules]

/-- `_cursor_predicate`: the seek query of a request's cursor, refused under another sort. -/
def cursorPredicate (codec : CursorCodec κ) (cursor : Option κ) (sort : Option SortOrder) :
    Except ResourceyError (Option MongoQuery) :=
  match cursor with
  | none => .ok none
  | some cursor =>
    match codec.decode cursor with
    | .error message => .error (.invalidInput ("Invalid or tampered cursor: " ++ message))
    | .ok c =>
      if c.sortField ≠ sort.map (·.attrName) ∨ c.ascending ≠ !isDescending sort then
        .error (.invalidInput ("Cursor was built for a different sort than the current request; " ++
          "start a new search without a cursor when changing sort."))
      else
        match sort with
        | none => .ok (some (.dict [(mongoIdField, .order .gt (encodeValue c.idValue))]))
        | some s => .ok (some (keysetQuery (t.mongoFieldFor s.attrName) (encodeValue c.sortKey)
            (encodeValue c.idValue) c.ascending))

/-- `_iterated_documents`: the documents whose entity matches in memory. -/
def iteratedDocuments (f : SearchFilter) : List ρ → Except ResourceyError (List ρ)
  | [] => .ok []
  | r :: rows => do
    let b ← (f.matches (.object (t.dto r))).mapError .typeError
    let matching ← iteratedDocuments f rows
    return if b then r :: matching else matching

/-- What a filter restricts a search to: `_filter_query`, and for one that does not convert, if the
resource opted into the scan, the identifiers of the documents that match in memory. -/
def filterQuery (rows : List ρ) : Option SearchFilter → Except ResourceyError (Option MongoQuery)
  | none => .ok none
  | some f =>
    match mongoCondition t.filterContext f none false with
    | .error (.unsupportedFilter message) =>
      if t.allowFilterIteration then do
        let matching ← t.iteratedDocuments f rows
        return some (.dict [(mongoIdField, .isIn (matching.map t.idOf))])
      else .error (.unsupportedFilter message)
    | q => q

/-- `find(query).sort(spec).to_list(length)`. -/
def find (rows : List ρ) (q : Option MongoQuery) (spec : SortSpec) (length : ℕ) : List ρ :=
  ((rows.filter fun r => finds q (t.document r)).insertionSort
    fun a b => specCompare spec (t.document a) (t.document b) ≠ .gt).take length

/-- `MongoService.search`, and `_search_by_iteration` with it: the two differ only in what the
filter restricts the query to. -/
def search (codec : CursorCodec κ) (rows : List ρ) (searchFilter : Option SearchFilter)
    (sort : Option SortOrder) (cursor : Option κ) (limit : ℕ) :
    Except ResourceyError (Page ρ κ) := do
  let query ← t.filterQuery rows searchFilter
  let predicate ← t.cursorPredicate codec cursor sort
  let spec ← t.sortSpec sort
  return Page.ofFound limit (t.nextCursor codec sort)
    (t.find rows (mergeQuery query predicate) spec (limit + 1))

end MongoCollection

/-! ## The seek query -/

section Keyset

variable [TextRules] {field : String} {key id : Value} {d : MongoDoc}

/-- **Off the identifier, or ascending, the seek query is the strict successor relation of the
order.** It matches exactly the documents that sort after the cursor's position. -/
theorem keysetQuery_matches {kf ki : Kind} {ascending : Bool}
    (hfield : field = mongoIdField → ascending = true ∧ key = id)
    (hd : (d.get field).OfKind kf) (hdid : (d.get mongoIdField).OfKind ki)
    (hdne : d.get mongoIdField ≠ .none) (hkey : key.OfKind kf) (hid : id.OfKind ki)
    (hidne : id ≠ .none) : (keysetQuery field key id ascending).matches d = true ↔
      sortsBefore (!ascending) (key, id) (positionOf field mongoIdField d.get) := by
  have hgt : (FieldTest.order .gt id).matches (d.get mongoIdField) = true ↔
      id < d.get mongoIdField := by
    simp [order_matches .gt hdid hid hidne, hdne, OrderOp.holds]
  have hlt := Value.not_lt_none (d.get field)
  rw [sortsBefore_iff, sortValueBefore, positionOf]
  unfold keysetQuery
  by_cases hf : field = mongoIdField
  · obtain ⟨rfl, rfl⟩ := hfield hf
    subst hf
    rw [if_pos rfl, if_neg hidne]
    simp only [MongoQuery.matches, matchesSome, dict_single, dict_pair_self, Bool.or_false,
      Bool.or_self, hgt, Bool.not_true, Bool.false_eq_true, if_false]
    exact ⟨.inl, fun h => h.elim (fun h => h) And.right⟩
  · cases ascending
    · by_cases hk : key = .none
      · subst hk
        simp only [Bool.false_eq_true, if_false, if_true, dict_pair_of_ne hf, Bool.and_eq_true,
          eq_matches hd, hgt, Bool.not_false, hlt, false_or, @eq_comm Value .none]
      · have hsort := order_matches .lt hd hkey hk
        simp only [Bool.false_eq_true, if_false, hk, MongoQuery.matches, matchesSome, dict_single,
          dict_pair_of_ne hf, Bool.or_false, Bool.or_eq_true, Bool.and_eq_true, hsort,
          eq_matches hd, hgt, Bool.not_false, if_true, OrderOp.holds, decide_eq_true_eq]
        grind [Value.none_lt_iff]
    · by_cases hk : key = .none
      · subst hk
        simp only [if_true, MongoQuery.matches, matchesSome, dict_single, dict_pair_of_ne hf,
          Bool.or_false, Bool.or_eq_true, Bool.and_eq_true, ne_matches hd, eq_matches hd, hgt,
          Bool.not_true, Bool.false_eq_true, if_false, Value.none_lt_iff, @eq_comm Value .none]
      · have hsort := order_matches .gt hd hkey hk
        simp only [if_true, hk, if_false, MongoQuery.matches, matchesSome, dict_single,
          dict_pair_of_ne hf, Bool.or_false, Bool.or_eq_true, Bool.and_eq_true, hsort,
          eq_matches hd, hgt, Bool.not_true, Bool.false_eq_true, OrderOp.holds,
          decide_eq_true_eq]
        grind [Value.not_lt_none]

/-- **By descending identifier the seek query asks only for another identifier.** Its second clause
names `_id` twice and keeps the tie-breaker's ascending test, so the query also matches the
documents before the cursor. -/
theorem keysetQuery_id_descending {ki : Kind} (hd : (d.get mongoIdField).OfKind ki)
    (hdne : d.get mongoIdField ≠ .none) (hid : id.OfKind ki) (hidne : id ≠ .none) :
    (keysetQuery mongoIdField id id false).matches d = true ↔ d.get mongoIdField ≠ id := by
  have hgt := order_matches .gt hd hid hidne
  have hlt := order_matches .lt hd hid hidne
  unfold keysetQuery
  simp only [Bool.false_eq_true, if_false, hidne, MongoQuery.matches, matchesSome, dict_single,
    dict_pair_self, Bool.or_false, Bool.or_eq_true, hgt, hlt, eq_matches hd, hdne, ne_eq,
    not_false_eq_true, true_and, or_false, OrderOp.holds, decide_eq_true_eq]
  exact lt_or_lt_iff_ne

end Keyset

end Resourcey
