import Resourcey.Core.Service
import Resourcey.Logic.PyDict
import Resourcey.Util.ObjectFilter

/-!
# Filter parameters

A resource may declare a filter class, and the `<attribute>__<op>` fields of the class are then the
filter parameters of its routes. The surface that the parameters are made of keeps one annotation
for an attribute, that of the last field declared on it, and no default. A request gives a parameter
as text: request validation reads it by the kept annotation, or takes the text itself for `contains`
and `in`, and the items of `in` are read one by one when the tree is built.
-/

namespace Resourcey

open SearchFilter

/-- What a validation is given of a query: the text of a parameter, or the texts of a key. -/
inductive QueryInput where
  | text (text : String)
  | texts (texts : List String)

/-- What the filter parameters rest on: `TypeAdapter(annotation).validate_python` with the text of
its error, FastAPI's test for an annotation of a sequence, the text of the error that carries the
message of a validator, and `repr` of a list of names. -/
structure FilterLibrary (A : Type) where
  validate : A → QueryInput → Except String Value
  isSequence : A → Bool
  validationError : String → String
  reprNames : List String → String

/-- A field `<attribute>__<op>` of a filter class: `field.annotation`, the constraints and the
validators beside it that a value must pass, and the default. -/
structure FilterField (A : Type) where
  name : String
  attrName : String
  op : String
  annotation : A
  constraints : Value → Bool
  default : Value
  named : clauseName name = some (attrName, op)
  standard : op ∈ opNodes

/-- Why a filter is not made: the parameters that request validation rejects, an
`InvalidInputError`, or an operator that has no node. -/
inductive FilterError where
  | requestValidation (names : List String)
  | invalidInput (message : String)
  | keyError (op : String)
  deriving DecidableEq, Repr

/-- The filter surface: the annotation and the operators of an attribute. -/
abbrev FilterSurface (A : Type) := List (String × A × List String)

/-- The equality of attributes as keys. -/
abbrev sameName (a b : String) : Bool := decide (a = b)

/-- The message of `InFilter._enforce_cap`. -/
def capMessage (n : ℕ) : String :=
  "InFilter permits at most " ++ toString maxInValues ++ " values; got " ++ toString n ++
    ". Push the set down as a store join / subquery (the materialized-ACL path) instead of a " ++
    "literal IN list."

/-! ## The class -/

/-- The size of the set of a field. -/
def setSize : String × Value → Option ℕ
  | (name, v) => match clauseName name with
    | some (_, "in") => some (setOf v).length
    | _ => none

/-- A filter of the class with the values of its fields, whose tree is built at once. -/
def construct (values : List (String × Value)) : Except String SearchFilter :=
  match (values.filterMap setSize).find? (maxInValues < ·) with
  | some n => .error (capMessage n)
  | none => .ok (objectFilter values)

/-! ## The surface -/

section
variable {A : Type}

/-- One iteration of `_filter_surface`. -/
def addField (surface : FilterSurface A) (f : FilterField A) : FilterSurface A :=
  match clauseName f.name with
  | none => surface
  | some (attrName, op) =>
    let ops := ((PyDict.get sameName surface attrName).map (·.2)).getD []
    PyDict.set sameName surface attrName (f.annotation, ops.insert op)

/-- `_filter_surface` of a declared class. -/
def filterSurface (fields : List (FilterField A)) : FilterSurface A := fields.foldl addField []

/-- The annotation of a parameter, where it is not `str`. -/
def valueAnnotation (op : String) ( annotation : A) : Option A :=
  if op = "contains" ∨ op = "in" then none else some annotation

/-- The parameters that `_filter_dependency` gives its signature. -/
def filterParameters (surface : FilterSurface A) : List (String × Option A) :=
  surface.flatMap fun (attrName, annotation, ops) =>
    (ops.insertionSort (· ≤ ·)).map fun op =>
      (attrName ++ "__" ++ op, valueAnnotation op annotation)

end

/-- The texts of a key of a query. -/
def textsOf (query : List (String × String)) (name : String) : List String :=
  (query.filter fun p => p.1 = name).map (·.2)

/-- The items of a comma-separated text. -/
def wireItems (text : String) : List String :=
  (((text.toList.splitOn ',').map SearchFilter.strip).filter (· ≠ [])).map String.ofList

namespace FilterLibrary

variable {A : Type} (py : FilterLibrary A)

/-- What request validation makes of the texts of a parameter, `None` if there are none. Of the
texts of a parameter that is no sequence, the last one counts. -/
def readParameter ( annotation : Option A) (texts : List String) : Except String Value :=
  match texts.getLast? with
  | none => .ok .none
  | some text => match annotation with
    | none => .ok (.scalar (.str text))
    | some a => py.validate a (if py.isSequence a then .texts texts else .text text)

/-- Request validation of the filter parameters, and the values that are not `None`. -/
def filterDependency (surface : FilterSurface A) (query : List (String × String)) :
    Except FilterError (List (String × Value)) :=
  let read := (filterParameters surface).map fun p =>
    (p.1, py.readParameter p.2 (textsOf query p.1))
  let invalid := read.filter fun p => p.2.toOption.isNone
  if invalid = [] then
    .ok (read.filterMap fun p => match p.2 with
      | .error _ | .ok .none => none
      | .ok v => some (p.1, v))
  else .error (.requestValidation (invalid.map (·.1)))

/-- `_coerce_filter_value`. -/
def coerceFilterValue (op : String) (v : Value) ( annotation : Option A) :
    Except FilterError ClauseOperand :=
  match op, v with
  | "in", .scalar (.str text) => match annotation with
    | none => .ok (.many ((wireItems text).map fun item => .scalar (.str item)))
    | some a => match (wireItems text).mapM fun item => py.validate a (.text item) with
      | .ok vs => .ok (.many vs)
      | .error exc => .error (.invalidInput ("Invalid value for 'in' filter: " ++ exc))
  | _, v => .ok (.one v)

/-- `_leaf_for`, with the cap of a set. -/
def wireLeaf (op : String) : ClauseOperand → Except FilterError SearchFilter
  | .many vs =>
    if vs.length ≤ maxInValues then .ok (.isIn vs)
    else .error (.invalidInput ("Invalid filter value: " ++
      py.validationError (capMessage vs.length)))
  | .one v => match leafFor op v with
    | some leaf => .ok leaf
    | none => .error (.keyError op)

/-- `build_filter`. -/
def buildWireFilter (clauses : List (String × String × ClauseOperand)) :
    Except FilterError SearchFilter := do
  let children ← clauses.mapM fun c => (py.wireLeaf c.2.1 c.2.2).map (attr_ c.1)
  return and_ children

/-- The keys of a query that are filter parameters. -/
def presentKeys (query : List (String × String)) : List String :=
  ((query.map (·.1)).filter fun key => separator <:+: key.toList).dedup

/-- The check of the keys in `_resolve_filters`. -/
def checkKeys (surface : FilterSurface A) (query : List (String × String)) :
    Except FilterError Unit :=
  let known := (filterParameters surface).map (·.1)
  if known = [] then
    .error (.invalidInput ("Filter parameters " ++
      py.reprNames ((presentKeys query).insertionSort (· ≤ ·)) ++
      " are not supported on this resource"))
  else
    let unknown := (presentKeys query).filter fun key => key ∉ known
    if unknown = [] then .ok ()
    else .error (.invalidInput ("Unknown filter parameters " ++
      py.reprNames (unknown.insertionSort (· ≤ ·))))

/-- The clauses that `_resolve_filters` makes of the values. -/
def wireClauses (surface : FilterSurface A) (values : List (String × Value)) :
    Except FilterError (List (String × String × ClauseOperand)) :=
  (values.filterMap fun p => (clauseName p.1).map fun c => (c.1, c.2, p.2)).mapM fun c => do
    let operand ← py.coerceFilterValue c.2.1 c.2.2
      ((PyDict.get sameName surface c.1).map (·.1))
    return (c.1, c.2.1, operand)

/-- `_resolve_filters`. -/
def resolveFilters (surface : FilterSurface A) (query : List (String × String))
    (values : List (String × Value)) : Except FilterError (Option SearchFilter) := do
  if presentKeys query = [] then return none
  py.checkKeys surface query
  let clauses ← py.wireClauses surface values
  if clauses.isEmpty then return none
  return some (← py.buildWireFilter clauses)

/-- The filter of a request to a route of a resource that declares the class. -/
def requestFilter (fields : List (FilterField A)) (query : List (String × String)) :
    Except FilterError (Option SearchFilter) := do
  let surface := filterSurface fields
  py.resolveFilters surface query (← py.filterDependency surface query)

/-! ## What a class means -/

/-- A field takes the texts of its parameter as the value: the last one, the items of the last one
for `in`, or all of them for another operator with an annotation of a sequence. -/
def Reads (f : FilterField A) (texts : List String) (v : Value) : Prop :=
  f.constraints v = true ∧ ∃ text, texts.getLast? = some text ∧
    (py.validate f.annotation (.text text) = .ok v ∨
      f.op = "in" ∧ py.validate f.annotation (.texts (wireItems text)) = .ok v ∨
      f.op ≠ "in" ∧ py.isSequence f.annotation = true ∧
        py.validate f.annotation (.texts texts) = .ok v)

/-- The query gives some of the fields a value in its wire form, and has no other filter
parameter. -/
structure Forms (fields : List (FilterField A)) (query : List (String × String))
    (values : String → Option Value) : Prop where
  known : ∀ p ∈ query, separator <:+: p.1.toList → ∃ f ∈ fields, f.name = p.1
  unset : ∀ f ∈ fields, values f.name = none → textsOf query f.name = []
  reads : ∀ f ∈ fields, ∀ v, values f.name = some v → py.Reads f (textsOf query f.name) v

end FilterLibrary

/-- The annotation that the surface keeps for an attribute: that of the last field on it. -/
def keptAnnotation {A : Type} (fields : List (FilterField A)) (name : String) : Option A :=
  ((fields.filter fun f => f.attrName = name).getLast?).map fun f => f.annotation

/-- The clause that REST makes of a field and the texts of its parameter. -/
def FilterLibrary.restClause {A : Type} (py : FilterLibrary A) (fields : List (FilterField A))
    (f : FilterField A) (texts : List String) : Except FilterError (Option SearchFilter) :=
  match keptAnnotation fields f.attrName with
  | none => .ok none
  | some a => match py.readParameter ( valueAnnotation f.op a) texts with
    | .error _ => .error (.requestValidation [f.name])
    | .ok .none => .ok none
    | .ok v => do
      let operand ← py.coerceFilterValue f.op v (some a)
      return some (attr_ f.attrName (← py.wireLeaf f.op operand))

/-! ## The surface of a class -/

section
variable {A : Type} {fields : List (FilterField A)}

/-- The surface has one entry for an attribute: the annotation of the last field on it, and the
operators of all. -/
theorem get_filterSurface (fields : List (FilterField A)) :
    ((filterSurface fields).map (·.1)).Nodup ∧ ∀ name,
      (PyDict.get sameName (filterSurface fields) name).map (·.1) = keptAnnotation fields name ∧
      ∀ op, op ∈ ((PyDict.get sameName (filterSurface fields) name).map (·.2)).getD [] ↔
        ∃ f ∈ fields, f.attrName = name ∧ f.op = op := by
  have hequiv : Equivalence fun a b => sameName a b = true := by
    simp only [sameName, decide_eq_true_eq]
    exact eq_equivalence
  induction fields using List.reverseRecOn with
  | nil => exact ⟨List.nodup_nil, fun name => ⟨rfl, by simp [filterSurface, PyDict.get]⟩⟩
  | append_singleton fields f ih =>
      obtain ⟨hnodup, hget⟩ := ih
      have hsurface : filterSurface (fields ++ [f]) = PyDict.set sameName (filterSurface fields)
          f.attrName (f.annotation,
            (((PyDict.get sameName (filterSurface fields) f.attrName).map (·.2)).getD []).insert
              f.op) := by
        rw [filterSurface, List.foldl_append, ← filterSurface, List.foldl_cons, List.foldl_nil,
          addField, f.named]
      rw [hsurface]
      refine ⟨?_, fun name => ?_⟩
      · rw [PyDict.keys_set]
        split
        · exact hnodup
        · next hfresh => exact List.concat_eq_append ▸ hnodup.concat hfresh
      · rw [PyDict.get_set hequiv]
        by_cases hname : f.attrName = name
        · subst hname
          refine ⟨by simp [sameName, keptAnnotation], fun op => ?_⟩
          simp only [sameName, decide_true, if_true, Option.map_some, Option.getD_some,
            List.mem_insert_iff, (hget f.attrName).2, List.mem_append, List.mem_singleton]
          constructor
          · rintro (rfl | ⟨g, hg, hattr, hop⟩)
            · exact ⟨f, .inr rfl, rfl, rfl⟩
            · exact ⟨g, .inl hg, hattr, hop⟩
          · rintro ⟨g, hg | rfl, hattr, rfl⟩
            · exact .inr ⟨g, hg, hattr, rfl⟩
            · exact .inl rfl
        · have hne : sameName f.attrName name = false := by simpa [sameName] using hname
          rw [hne, if_neg Bool.false_ne_true]
          refine ⟨by simp [(hget name).1, keptAnnotation, hname], fun op => ?_⟩
          rw [(hget name).2]
          simp [hname]

/-- An attribute that a field is on has an annotation. -/
theorem exists_keptAnnotation {f : FilterField A} (hf : f ∈ fields) :
    ∃ a, keptAnnotation fields f.attrName = some a := by
  have hmem : f ∈ fields.filter fun g => g.attrName = f.attrName := by simpa using hf
  obtain ⟨g, hg⟩ := Option.isSome_iff_exists.mp
    (List.getLast?_isSome.mpr (List.ne_nil_of_mem hmem))
  exact ⟨g.annotation, by rw [ keptAnnotation, hg, Option.map_some]⟩

/-- The annotation kept for an attribute is that of a field on it. -/
theorem mem_of_keptAnnotation {name : String} {a : A} (h : keptAnnotation fields name = some a) :
    ∃ g ∈ fields, g.attrName = name ∧ g.annotation = a := by
  obtain ⟨g, hg, rfl⟩ := Option.map_eq_some_iff.mp h
  obtain ⟨hg, hattr⟩ := List.mem_filter.mp (List.mem_of_getLast? hg)
  exact ⟨g, hg, of_decide_eq_true hattr, rfl⟩

/-- The filter parameters are those of the fields, each with the annotation kept for its
attribute unless it is `str`. -/
theorem mem_filterParameters {name : String} { annotation : Option A} :
    (name, annotation) ∈ filterParameters (filterSurface fields) ↔
      ∃ f ∈ fields, ∃ a, keptAnnotation fields f.attrName = some a ∧ f.name = name ∧
        valueAnnotation f.op a = annotation := by
  obtain ⟨hnodup, hget⟩ := get_filterSurface fields
  rw [filterParameters, List.mem_flatMap]
  constructor
  · rintro ⟨⟨attrName, a, ops⟩, hentry, hparameter⟩
    obtain ⟨op, hop, heq⟩ := List.mem_map.mp hparameter
    rw [Prod.mk.injEq] at heq
    have hentry := (PyDict.mem_iff_get hnodup).mp hentry
    obtain ⟨hkept, hops⟩ := hget attrName
    rw [hentry] at hkept hops
    obtain ⟨f, hf, rfl, rfl⟩ := (hops op).mp ((List.mem_insertionSort _).mp hop)
    exact ⟨f, hf, a, hkept.symm, (clauseName_eq f.named).trans heq.1, heq.2⟩
  · rintro ⟨f, hf, a, hkept, rfl, rfl⟩
    obtain ⟨hkept', hops⟩ := hget f.attrName
    rw [hkept] at hkept'
    obtain ⟨⟨_, ops⟩, hentry, rfl⟩ := Option.map_eq_some_iff.mp hkept'
    rw [hentry] at hops
    refine ⟨_, (PyDict.mem_iff_get hnodup).mpr hentry, List.mem_map.mpr ⟨f.op, ?_, ?_⟩⟩
    · exact (List.mem_insertionSort _).mpr ((hops f.op).mpr ⟨f, hf, rfl, rfl⟩)
    · rw [← clauseName_eq f.named]

end

/-! ## The steps of a request -/

namespace FilterLibrary

variable {A : Type} {py : FilterLibrary A} {fields : List (FilterField A)}
  {query : List (String × String)}

/-- Request validation that succeeds reads every parameter, and keeps what is not `None`. -/
theorem mem_of_filterDependency {surface : FilterSurface A} {values : List (String × Value)}
    (h : py.filterDependency surface query = .ok values) :
    (∀ p ∈ filterParameters surface, ∃ v, py.readParameter p.2 (textsOf query p.1) = .ok v) ∧
      ∀ name v, (name, v) ∈ values ↔ v ≠ .none ∧ ∃ annotation,
        (name, annotation) ∈ filterParameters surface ∧
          py.readParameter annotation (textsOf query name) = .ok v := by
  simp only [filterDependency] at h
  split at h
  · next hinvalid =>
      cases h
      rw [List.filter_eq_nil_iff] at hinvalid
      refine ⟨fun p hp => ?_, fun name v => ?_⟩
      · have hsome := hinvalid _ (List.mem_map_of_mem hp)
        cases hread : py.readParameter p.2 (textsOf query p.1) with
        | error e => simp [hread, Except.toOption] at hsome
        | ok v => exact ⟨v, rfl⟩
      · rw [List.mem_filterMap]
        constructor
        · rintro ⟨q, hq, hv⟩
          obtain ⟨p, hp, rfl⟩ := List.mem_map.mp hq
          cases hread : py.readParameter p.2 (textsOf query p.1) with
          | error e => simp [hread] at hv
          | ok w =>
              simp only [hread] at hv
              cases w with
              | none => cases hv
              | scalar _ | list _ =>
                  cases hv
                  exact ⟨by simp, p.2, hp, hread⟩
        · rintro ⟨hne, a, hp, hread⟩
          refine ⟨_, List.mem_map_of_mem hp, ?_⟩
          cases v with
          | none => exact absurd rfl hne
          | scalar _ | list _ => simp only [hread]
  · cases h

/-- Request validation that fails names the parameters that it rejects. -/
theorem exists_of_filterDependency_error {surface : FilterSurface A} {e : FilterError}
    (h : py.filterDependency surface query = .error e) :
    ∃ names, e = .requestValidation names ∧
      (∀ p ∈ filterParameters surface, ∀ exc,
        py.readParameter p.2 (textsOf query p.1) = .error exc → p.1 ∈ names) ∧
      ∃ p ∈ filterParameters surface, ∃ exc,
        py.readParameter p.2 (textsOf query p.1) = .error exc := by
  simp only [filterDependency] at h
  split at h
  · cases h
  · next hinvalid =>
      cases h
      refine ⟨_, rfl, fun p hp exc hread => ?_, ?_⟩
      · refine List.mem_map.mpr ⟨_, List.mem_filter.mpr ⟨List.mem_map_of_mem hp, ?_⟩, rfl⟩
        simp [hread, Except.toOption]
      obtain ⟨q, hq⟩ := List.exists_mem_of_ne_nil _ hinvalid
      obtain ⟨hq, hnone⟩ := List.mem_filter.mp hq
      obtain ⟨p, hp, rfl⟩ := List.mem_map.mp hq
      refine ⟨p, hp, ?_⟩
      cases hread : py.readParameter p.2 (textsOf query p.1) with
      | error exc => exact ⟨exc, rfl⟩
      | ok v => simp [hread, Except.toOption] at hnone

/-- A value that cannot be coerced is invalid input. -/
theorem invalidInput_of_coerceFilterValue {op : String} {v : Value} {a : Option A}
    {e : FilterError} (h : py.coerceFilterValue op v a = .error e) :
    ∃ m, e = .invalidInput m := by
  unfold coerceFilterValue at h
  split at h
  · split at h
    · cases h
    · split at h
      · cases h
      · cases h
        exact ⟨_, rfl⟩
  · cases h

/-- A standard operator has a node. -/
theorem exists_leafFor {op : String} (hop : op ∈ opNodes) (v : Value) :
    ∃ leaf, leafFor op v = some leaf := by
  simp only [opNodes, List.mem_cons, List.not_mem_nil, or_false] at hop
  rcases hop with rfl | rfl | rfl | rfl | rfl | rfl | rfl
  all_goals exact ⟨_, rfl⟩

/-- A clause of a standard operator that has no leaf is invalid input. -/
theorem invalidInput_of_wireLeaf {op : String} (hop : op ∈ opNodes) {operand : ClauseOperand}
    {e : FilterError} (h : py.wireLeaf op operand = .error e) : ∃ m, e = .invalidInput m := by
  cases operand with
  | many vs =>
      simp only [wireLeaf] at h
      split at h
      · cases h
      · cases h
        exact ⟨_, rfl⟩
  | one v =>
      obtain ⟨leaf, hleaf⟩ := exists_leafFor hop v
      simp only [wireLeaf, hleaf] at h
      cases h

/-- The clause of a field whose parameter is read as a value. -/
theorem restClause_eq {f : FilterField A} {a : A} {texts : List String} {v : Value}
    (hkept : keptAnnotation fields f.attrName = some a)
    (hread : py.readParameter ( valueAnnotation f.op a) texts = .ok v) (hv : v ≠ .none) :
    py.restClause fields f texts = (do
      let operand ← py.coerceFilterValue f.op v (some a)
      return some (attr_ f.attrName (← py.wireLeaf f.op operand))) := by
  cases v with
  | none => exact absurd rfl hv
  | scalar _ | list _ => simp only [restClause, hkept, hread]

/-- A parameter that is read as `None` gives no clause. -/
theorem restClause_none {f : FilterField A} {a : A} {texts : List String}
    (hkept : keptAnnotation fields f.attrName = some a)
    (hread : py.readParameter ( valueAnnotation f.op a) texts = .ok .none) :
    py.restClause fields f texts = .ok none := by
  simp only [restClause, hkept, hread]

/-- A parameter that cannot be read is rejected by request validation. -/
theorem restClause_error {f : FilterField A} {a : A} {texts : List String} {exc : String}
    (hkept : keptAnnotation fields f.attrName = some a)
    (hread : py.readParameter ( valueAnnotation f.op a) texts = .error exc) :
    py.restClause fields f texts = .error (.requestValidation [f.name]) := by
  simp only [restClause, hkept, hread]

/-- A field whose parameter is read, by the annotation kept for its attribute, as a value. -/
structure Gives (py : FilterLibrary A) (fields : List (FilterField A))
    (query : List (String × String)) (f : FilterField A) (a : A) (v : Value) : Prop where
  mem : f ∈ fields
  kept : keptAnnotation fields f.attrName = some a
  read : py.readParameter ( valueAnnotation f.op a) (textsOf query f.name) = .ok v
  ne_none : v ≠ .none

section
variable {values : List (String × Value)}

/-- The values of request validation are those that fields give. -/
theorem mem_values (h : py.filterDependency (filterSurface fields) query = .ok values)
    {name : String} {v : Value} :
    (name, v) ∈ values ↔ ∃ f a, Gives py fields query f a v ∧ f.name = name := by
  rw [(mem_of_filterDependency h).2]
  constructor
  · rintro ⟨hne, annotation, hp, hread⟩
    obtain ⟨f, hf, a, hkept, rfl, rfl⟩ := mem_filterParameters.mp hp
    exact ⟨f, a, ⟨hf, hkept, hread, hne⟩, rfl⟩
  · rintro ⟨f, a, hgives, rfl⟩
    exact ⟨hgives.ne_none, _, mem_filterParameters.mpr ⟨f, hgives.mem, a, hgives.kept, rfl, rfl⟩,
      hgives.read⟩

/-- What is coerced is the attribute, the operator and the value of the fields. -/
theorem mem_split (h : py.filterDependency (filterSurface fields) query = .ok values)
    {c : String × String × Value} :
    c ∈ values.filterMap (fun p => (clauseName p.1).map fun c => (c.1, c.2, p.2)) ↔
      ∃ f a, Gives py fields query f a c.2.2 ∧ c = (f.attrName, f.op, c.2.2) := by
  rw [List.mem_filterMap]
  constructor
  · rintro ⟨⟨name, v⟩, hv, hc⟩
    obtain ⟨f, a, hgives, rfl⟩ := (mem_values h).mp hv
    rw [f.named, Option.map_some, Option.some.injEq] at hc
    subst hc
    exact ⟨f, a, hgives, rfl⟩
  · rintro ⟨f, a, hgives, heq⟩
    refine ⟨(f.name, c.2.2), (mem_values h).mpr ⟨f, a, hgives, rfl⟩, ?_⟩
    rw [f.named, Option.map_some, ← heq]

/-- The annotation by which a clause is coerced is the one kept for its attribute. -/
theorem coerce_gives {f : FilterField A} {a : A} {v : Value}
    (hgives : Gives py fields query f a v) :
    py.coerceFilterValue f.op v
        ((PyDict.get sameName (filterSurface fields) f.attrName).map (·.1)) =
      py.coerceFilterValue f.op v (some a) := by
  rw [((get_filterSurface fields).2 f.attrName).1, hgives.kept]

/-- If the clauses cannot be coerced, that of a field cannot, as invalid input. -/
theorem exists_of_wireClauses_error
    (h : py.filterDependency (filterSurface fields) query = .ok values) {e : FilterError}
    (he : py.wireClauses (filterSurface fields) values = .error e) :
    ∃ m, e = .invalidInput m ∧
      ∃ f ∈ fields, py.restClause fields f (textsOf query f.name) = .error e := by
  obtain ⟨c, hc, hfail⟩ := exists_of_mapM_error he
  obtain ⟨f, a, hgives, heq⟩ := (mem_split h).mp hc
  rcases bind_eq_error.mp hfail with hfail | ⟨operand, -, hfail⟩
  · rw [heq, coerce_gives hgives] at hfail
    obtain ⟨m, rfl⟩ := invalidInput_of_coerceFilterValue hfail
    refine ⟨m, rfl, f, hgives.mem, ?_⟩
    rw [restClause_eq hgives.kept hgives.read hgives.ne_none, hfail]
    rfl
  · cases hfail

/-- The coerced clauses are those of the fields. -/
theorem mem_of_wireClauses
    (h : py.filterDependency (filterSurface fields) query = .ok values)
    {clauses : List (String × String × ClauseOperand)}
    (hclauses : py.wireClauses (filterSurface fields) values = .ok clauses) :
    (∀ f a v, Gives py fields query f a v →
      ∃ operand, py.coerceFilterValue f.op v (some a) = .ok operand) ∧
    ∀ c, c ∈ clauses ↔ ∃ f a v, Gives py fields query f a v ∧
      py.coerceFilterValue f.op v (some a) = .ok c.2.2 ∧ c = (f.attrName, f.op, c.2.2) := by
  obtain ⟨hall, hmem⟩ := mem_of_mapM_ok hclauses
  constructor
  · intro f a v hgives
    obtain ⟨c, hc⟩ := hall (f.attrName, f.op, v) ((mem_split h).mpr ⟨f, a, hgives, rfl⟩)
    obtain ⟨operand, hoperand, -⟩ := bind_eq_ok.mp hc
    exact ⟨operand, (coerce_gives hgives).symm.trans hoperand⟩
  · intro c
    rw [hmem]
    constructor
    · rintro ⟨s, hs, hc⟩
      obtain ⟨f, a, hgives, heq⟩ := (mem_split h).mp hs
      obtain ⟨operand, hoperand, hc⟩ := bind_eq_ok.mp hc
      cases hc
      rw [heq] at hoperand ⊢
      exact ⟨f, a, _, hgives, (coerce_gives hgives).symm.trans hoperand, rfl⟩
    · rintro ⟨f, a, v, hgives, hoperand, heq⟩
      refine ⟨(f.attrName, f.op, v), (mem_split h).mpr ⟨f, a, hgives, rfl⟩, ?_⟩
      rw [heq]
      exact bind_eq_ok.mpr ⟨_, (coerce_gives hgives).trans hoperand, rfl⟩

/-- A parameter is not given, is rejected, or gives a value. -/
theorem restClause_cases (h : py.filterDependency (filterSurface fields) query = .ok values)
    {f : FilterField A} (hf : f ∈ fields) :
    py.restClause fields f (textsOf query f.name) = .ok none ∨
      ∃ a v, Gives py fields query f a v := by
  obtain ⟨a, hkept⟩ := exists_keptAnnotation hf
  obtain ⟨v, hread⟩ := (mem_of_filterDependency h).1 _
    (mem_filterParameters.mpr ⟨f, hf, a, hkept, rfl, rfl⟩)
  by_cases hv : v = .none
  · subst hv
    exact .inl (restClause_none hkept hread)
  · exact .inr ⟨a, v, hf, hkept, hread, hv⟩

end

end FilterLibrary

end Resourcey
