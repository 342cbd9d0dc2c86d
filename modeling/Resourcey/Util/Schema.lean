import Resourcey.Util.Value

/-!
# Typed values and their dump

A field of a model has an annotation, a value is validated against it, and a dump turns a model into
the members that were set. What the validation of a scalar does with one of another type is a
parameter (`ModelLibrary`), of which only this matters: a scalar of the right type is taken as it is,
and the answer is always of the right type.

A dump that is validated again gives the value back exactly if every scalar is of its type and every
member that was left out has the value that its default has now (`validate_dump_iff`).
-/

namespace Resourcey

/-- A value of a field: a model has its fields with whether they were set, and a dump of it is a
dictionary. -/
inductive DtoValue where
  | none
  | missing
  | scalar (s : Scalar)
  | secret (plain : String)
  | model (name : String) (fields : List (String × Bool × DtoValue))
  | dict (members : List (String × DtoValue))

/-- An annotation: a scalar type, `SecretStr`, a union with `None`, an `Annotated` one, and a model
with its fields. The default of a field, a value or a factory, depends on when it is asked for. -/
inductive Annotation where
  | scalar (k : Kind)
  | secret
  | nullable (a : Annotation)
  | annotated (a : Annotation)
  | model (name : String) (fields : List (String × Annotation × Option (ℕ → DtoValue)))

/-- What the model library does with scalars: `lax` takes one for a type if it can, and `str` is the
text of a value. -/
structure ModelLibrary where
  lax : Kind → Scalar → Option Scalar
  exact : ∀ s, lax s.kind s = some s
  kind : ∀ {k s t}, lax k s = some t → t.kind = k
  str : DtoValue → String

namespace Annotation

/-- `_strip_annotated`: the annotation without its metadata, also within a union. -/
def strip : Annotation → Annotation
  | .annotated a => a.strip
  | .nullable a => .nullable a.strip
  | a => a

mutual

/-- The fields of every model have different names. -/
def WellFormed : Annotation → Prop
  | .nullable a | .annotated a => a.WellFormed
  | .model _ fields => (fields.map (·.1)).Nodup ∧ WellFormedFields fields
  | _ => True

def WellFormedFields : List (String × Annotation × Option (ℕ → DtoValue)) → Prop
  | [] => True
  | (_, a, _) :: fields => a.WellFormed ∧ WellFormedFields fields

end

mutual

/-- No default of a model depends on when it is asked for. -/
def Steady : Annotation → Prop
  | .nullable a | .annotated a => a.Steady
  | .model _ fields => SteadyFields fields
  | _ => True

def SteadyFields : List (String × Annotation × Option (ℕ → DtoValue)) → Prop
  | [] => True
  | (_, a, default) :: fields =>
    a.Steady ∧ (∀ d ∈ default, ∀ t t', d t = d t') ∧ SteadyFields fields

end

theorem WellFormed.strip {a : Annotation} (h : a.WellFormed) : a.strip.WellFormed := by
  induction a using Annotation.strip.induct with
  | case1 a ih => exact ih h
  | case2 a ih => exact ih h
  | case3 a hannotated hnullable =>
      cases a with
      | annotated a => exact absurd rfl (hannotated a)
      | nullable a => exact absurd rfl (hnullable a)
      | _ => exact h

end Annotation

/-! ## Validation and dump -/

section
variable (lib : ModelLibrary) (now : ℕ)

mutual

/-- A value that was read, or dumped, against an annotation. -/
def validate : Annotation → DtoValue → Option DtoValue
  | .annotated a, v => validate a v
  | .nullable _, .none => some .none
  | .nullable a, v => validate a v
  | .scalar k, .scalar s => (lib.lax k s).map .scalar
  | .secret, .secret plain => some (.secret plain)
  | .secret, .scalar (.str s) => some (.secret s)
  | .model name fields, .dict members => (validateFields fields members).map (.model name)
  | _, _ => none

/-- The fields of a model, each set or by its default. -/
def validateFields : List (String × Annotation × Option (ℕ → DtoValue)) →
    List (String × DtoValue) → Option (List (String × Bool × DtoValue))
  | [], _ => some []
  | (name, a, default) :: fields, members =>
    match members.lookup name with
    | some v => do
      let v ← validate a v
      let rest ← validateFields fields members
      return (name, true, v) :: rest
    | none => do
      let d ← default
      let rest ← validateFields fields members
      return (name, false, d now) :: rest

end

end

mutual

/-- `model_dump(exclude_unset=True)`: a model becomes the dictionary of the members that were set. -/
def dump : DtoValue → DtoValue
  | .model _ fields => .dict (dumpFields fields)
  | v => v

def dumpFields : List (String × Bool × DtoValue) → List (String × DtoValue)
  | [] => []
  | (name, true, v) :: fields => (name, dump v) :: dumpFields fields
  | (_, false, _) :: fields => dumpFields fields

end

section
variable (now : ℕ)

mutual

/-- Every scalar is of its type, and every member that was left out has the value that its default
has now. -/
def Intact : Annotation → DtoValue → Prop
  | .annotated a, v => Intact a v
  | .nullable _, .none => True
  | .nullable a, v => Intact a v
  | .scalar k, .scalar s => s.kind = k
  | .secret, .secret _ => True
  | .model name fields, .model name' values => name = name' ∧ IntactFields fields values
  | _, _ => False

def IntactFields : List (String × Annotation × Option (ℕ → DtoValue)) →
    List (String × Bool × DtoValue) → Prop
  | [], [] => True
  | (name, a, _) :: fields, (name', true, v) :: values =>
    name = name' ∧ Intact a v ∧ IntactFields fields values
  | (name, _, default) :: fields, (name', false, v) :: values =>
    name = name' ∧ (∃ d, default = some d ∧ d now = v) ∧ IntactFields fields values
  | _, _ => False

end

end

/-! ## The dump of what was validated -/

section
variable {lib : ModelLibrary} {now : ℕ}

theorem lookup_dumpFields_eq_none {values : List (String × Bool × DtoValue)} {name : String}
    (h : name ∉ values.map (·.1)) : (dumpFields values).lookup name = none := by
  induction values with
  | nil => rfl
  | cons value values ih =>
      obtain ⟨name', set, v⟩ := value
      rw [List.map_cons, List.mem_cons, not_or] at h
      cases set with
      | false => exact ih h.2
      | true => rw [dumpFields, List.lookup_cons, beq_false_of_ne h.1]; exact ih h.2

/-- The dump of a model has the members that were set. -/
theorem lookup_dumpFields {values : List (String × Bool × DtoValue)}
    (hnodup : (values.map (·.1)).Nodup) {name : String} {set : Bool} {v : DtoValue}
    (h : (name, set, v) ∈ values) :
    (dumpFields values).lookup name = if set then some (dump v) else none := by
  induction values with
  | nil => cases h
  | cons value values ih =>
      obtain ⟨hnew, hrest⟩ := List.nodup_cons.mp hnodup
      rcases List.mem_cons.mp h with rfl | hmem
      · cases set with
        | false => rw [dumpFields]; exact lookup_dumpFields_eq_none hnew
        | true => rw [dumpFields, List.lookup_cons, beq_self_eq_true]; rfl
      · obtain ⟨name', set', v'⟩ := value
        have hne : name ≠ name' := by
          rintro rfl
          exact hnew (List.mem_map.mpr ⟨_, hmem, rfl⟩)
        cases set' with
        | false => exact ih hrest hmem
        | true => rw [dumpFields, List.lookup_cons, beq_false_of_ne hne]; exact ih hrest hmem

theorem map_fst_of_validateFields
    {fields : List (String × Annotation × Option (ℕ → DtoValue))}
    {members : List (String × DtoValue)} {values : List (String × Bool × DtoValue)}
    (h : validateFields lib now fields members = some values) :
    values.map (·.1) = fields.map (·.1) := by
  induction fields generalizing values with
  | nil =>
      cases h
      rfl
  | cons field fields ih =>
      obtain ⟨name, a, default⟩ := field
      rw [validateFields] at h
      split at h
      all_goals
        obtain ⟨_, -, h⟩ := Option.bind_eq_some_iff.mp h
        obtain ⟨rest, hrest, h⟩ := Option.bind_eq_some_iff.mp h
        cases h
        exact congrArg _ (ih hrest)

theorem map_fst_of_intactFields {fields : List (String × Annotation × Option (ℕ → DtoValue))}
    {values : List (String × Bool × DtoValue)} (h : IntactFields now fields values) :
    values.map (·.1) = fields.map (·.1) := by
  induction fields generalizing values with
  | nil =>
      cases values with
      | nil => rfl
      | cons value values => cases h
  | cons field fields ih =>
      obtain ⟨name, a, default⟩ := field
      rcases values with _ | ⟨⟨name', set, v⟩, values⟩
      · cases h
      · cases set with
        | false =>
            obtain ⟨rfl, -, hrest⟩ := h
            exact congrArg _ (ih hrest)
        | true =>
            obtain ⟨rfl, -, hrest⟩ := h
            exact congrArg _ (ih hrest)

mutual

/-- **A dump that is validated again gives the value back** exactly if it keeps its types and
defaults. -/
theorem validate_dump_iff : ∀ (a : Annotation) (v : DtoValue), a.WellFormed →
    (validate lib now a (dump v) = some v ↔ Intact now a v)
  | .annotated a, v, h => by
    rw [validate, Intact]
    exact validate_dump_iff a v h
  | .nullable a, v, h => by
    have hinner := validate_dump_iff a v h
    cases v with
    | none => simp [dump, validate, Intact]
    | _ =>
        simp only [dump] at hinner
        simpa only [dump, validate, Intact] using hinner
  | .scalar k, v, _ => by
    cases v with
    | scalar s =>
        simp only [dump, validate, Intact, Option.map_eq_some_iff, DtoValue.scalar.injEq,
          exists_eq_right]
        constructor
        · exact lib.kind
        · rintro rfl
          exact lib.exact s
    | _ => simp [dump, validate, Intact]
  | .secret, v, _ => by
    cases v with
    | scalar s => cases s <;> simp [dump, validate, Intact]
    | _ => simp [dump, validate, Intact]
  | .model name fields, v, h => by
    cases v with
    | model name' values =>
        have hfields : ∀ hnodup : (values.map (·.1)).Nodup,
            (validateFields lib now fields (dumpFields values) = some values
              ↔ IntactFields now fields values) := fun hnodup =>
          validateFields_dump_iff fields values (dumpFields values) h.2
            fun value hvalue => lookup_dumpFields hnodup hvalue
        simp only [dump, validate, Intact, Option.map_eq_some_iff, DtoValue.model.injEq]
        constructor
        · rintro ⟨values', hvalues, rfl, rfl⟩
          have hnames := map_fst_of_validateFields hvalues
          exact ⟨rfl, (hfields (hnames ▸ h.1)).mp hvalues⟩
        · rintro ⟨rfl, hintact⟩
          have hnames := map_fst_of_intactFields hintact
          exact ⟨values, (hfields (hnames ▸ h.1)).mpr hintact, rfl, rfl⟩
    | _ => simp [dump, validate, Intact]

theorem validateFields_dump_iff : ∀ (fields : List (String × Annotation × Option (ℕ → DtoValue)))
    (values : List (String × Bool × DtoValue)) (members : List (String × DtoValue)),
    Annotation.WellFormedFields fields →
    (∀ value ∈ values, members.lookup value.1
      = if value.2.1 then some (dump value.2.2) else none) →
    (validateFields lib now fields members = some values ↔ IntactFields now fields values)
  | [], values, members, _, _ => by
    cases values <;> simp [validateFields, IntactFields]
  | (name, a, default) :: fields, values, members, h, hmembers => by
    rcases values with _ | ⟨⟨name', set, v⟩, values⟩
    · refine ⟨fun hvalid => ?_, fun hintact => (nomatch hintact)⟩
      have hnames := map_fst_of_validateFields hvalid
      cases hnames
    · obtain ⟨hvalue, hrest⟩ := List.forall_mem_cons.mp hmembers
      have hrest := validateFields_dump_iff fields values members h.2 hrest
      have hhead := validate_dump_iff a v h.1
      rcases eq_or_ne name name' with rfl | hne
      · cases set with
        | false =>
            change members.lookup name = none at hvalue
            rw [validateFields, hvalue, IntactFields, ← hrest]
            cases default <;> cases validateFields lib now fields members <;> simp
        | true =>
            change members.lookup name = some (dump v) at hvalue
            rw [validateFields, hvalue, IntactFields, ← hrest, ← hhead]
            dsimp only
            cases validate lib now a (dump v) <;> cases validateFields lib now fields members <;> simp
      · refine ⟨fun hvalid => ?_, fun hintact => ?_⟩
        · have hnames := map_fst_of_validateFields hvalid
          exact absurd (List.cons.inj hnames).1.symm hne
        · have hnames := map_fst_of_intactFields hintact
          exact absurd (List.cons.inj hnames).1.symm hne

end

variable {earlier : ℕ}

mutual

/-- **What was validated keeps** if no default depends on the time. -/
theorem intact_of_validate : ∀ (a : Annotation) (raw v : DtoValue), a.Steady →
    validate lib earlier a raw = some v → Intact now a v
  | .annotated a, raw, v, hsteady, h => by
    rw [validate] at h
    exact intact_of_validate a raw v hsteady h
  | .nullable a, raw, v, hsteady, h => by
    have hinner := intact_of_validate a raw v hsteady
    cases raw with
    | none =>
        rw [validate] at h
        cases h
        trivial
    | _ =>
        have hintact := hinner (by simpa only [validate] using h)
        cases v with
        | none => trivial
        | _ => exact hintact
  | .scalar k, raw, v, _, h => by
    cases raw with
    | scalar s =>
        obtain ⟨s', hs', rfl⟩ := Option.map_eq_some_iff.mp h
        exact lib.kind hs'
    | _ => cases h
  | .secret, raw, v, _, h => by
    cases raw with
    | secret plain =>
        cases h
        trivial
    | scalar s =>
        cases s with
        | str s =>
            cases h
            trivial
        | _ => cases h
    | _ => cases h
  | .model name fields, raw, v, hsteady, h => by
    cases raw with
    | dict members =>
        obtain ⟨values, hvalues, rfl⟩ := Option.map_eq_some_iff.mp h
        exact ⟨rfl, intactFields_of_validateFields fields members values hsteady hvalues⟩
    | _ => cases h

theorem intactFields_of_validateFields :
    ∀ (fields : List (String × Annotation × Option (ℕ → DtoValue)))
      (members : List (String × DtoValue)) (values : List (String × Bool × DtoValue)),
      Annotation.SteadyFields fields →
      validateFields lib earlier fields members = some values → IntactFields now fields values
  | [], members, values, _, h => by
    cases h
    trivial
  | (name, a, default) :: fields, members, values, ⟨hsteady, hdefault, hfields⟩, h => by
    rw [validateFields] at h
    split at h
    · obtain ⟨v, hv, h⟩ := Option.bind_eq_some_iff.mp h
      obtain ⟨rest, hrest, h⟩ := Option.bind_eq_some_iff.mp h
      cases h
      exact ⟨rfl, intact_of_validate a _ v hsteady hv,
        intactFields_of_validateFields fields members rest hfields hrest⟩
    · obtain ⟨d, hd, h⟩ := Option.bind_eq_some_iff.mp h
      obtain ⟨rest, hrest, h⟩ := Option.bind_eq_some_iff.mp h
      cases h
      exact ⟨rfl, ⟨d, hd, hdefault d hd _ _⟩,
        intactFields_of_validateFields fields members rest hfields hrest⟩

end

end

end Resourcey
