import Mathlib.Data.List.Nodup
import Mathlib.Data.List.Sort
import Mathlib.Data.String.Basic
import Resourcey.Logic.PyDict

/-!
# The declaration of a DTO

A subclass of `DTO` is a list of fields, each with its annotation and its `DtoField`: what a class and
its bases annotate, with the conventions applied to the fields whose `DtoField` is not explicit. The
models of the six shapes are generated of the types that an annotation reduces to: its metadata is
stripped, and its unions are flattened. A declaration that is derived of another one annotates each
field with the types and with the `DtoField` of the original, so its fields are explicit and no
convention is applied to them again (`deriveDto_fields`).
-/

namespace Resourcey.Declaration

/-! ## Annotations -/

/-- What a type is, as far as filters ask: a class of some kind, or no class. -/
inductive TypeClass where
  | bool
  | container
  | model
  | orderable
  | string
  | other
  | form
  deriving DecidableEq, Repr

/-- The types that annotations are made of. A generic type with its arguments is one of them. -/
class PyTypes (τ : Type) where
  none : τ
  uuid : τ
  secretStr : τ
  classify : τ → TypeClass

/-- An annotation: a type, an `Annotated`, or a union. A union of more is one of two, of which one
is a union. -/
inductive TypeHint (τ μ : Type) where
  | type (t : τ)
  | annotated (origin : TypeHint τ μ) (metadata : List μ)
  | union (left right : TypeHint τ μ)
  deriving Repr

/-- A type, or the members of a flat union, each once. -/
@[ext]
structure UnionType (τ : Type) where
  first : τ
  rest : List τ
  nodup : (first :: rest).Nodup

namespace UnionType

variable {τ μ : Type}

def toList (u : UnionType τ) : List τ := u.first :: u.rest

theorem toList_injective {u v : UnionType τ} (h : u.toList = v.toList) : u = v :=
  UnionType.ext (List.head_eq_of_cons_eq h) (List.tail_eq_of_cons_eq h)

/-- A type as a union of one. -/
def single (t : τ) : UnionType τ := ⟨t, [], List.nodup_singleton t⟩

/-- `operator.or_`. -/
def or [DecidableEq τ] (u v : UnionType τ) : UnionType τ where
  first := u.first
  rest := u.rest ++ v.toList.filter fun t => t ∉ u.toList
  nodup := by
    show (u.toList ++ v.toList.filter fun t => t ∉ u.toList).Nodup
    refine List.nodup_append'.mpr ⟨u.nodup, v.nodup.filter _, fun t hu hv => ?_⟩
    exact of_decide_eq_true (List.mem_filter.mp hv).2 hu

theorem toList_or [DecidableEq τ] (u v : UnionType τ) :
    (u.or v).toList = u.toList ++ v.toList.filter fun t => t ∉ u.toList := rfl

/-- The annotation that it is. -/
def toHint (u : UnionType τ) : TypeHint τ μ :=
  u.rest.foldl (fun hint t => .union hint (.type t)) (.type u.first)

end UnionType

section
variable {τ μ : Type} [DecidableEq τ]

/-- `_strip_annotated`. -/
def stripAnnotated : TypeHint τ μ → UnionType τ
  | .type t => .single t
  | .annotated origin _ => stripAnnotated origin
  | .union left right => (stripAnnotated left).or (stripAnnotated right)

/-- What is stripped is reduced no further. -/
theorem stripAnnotated_toHint (u : UnionType τ) :
    stripAnnotated (u.toHint : TypeHint τ μ) = u := by
  have hfold : ∀ (rest : List τ) (hint : TypeHint τ μ),
      ((stripAnnotated hint).toList ++ rest).Nodup →
        (stripAnnotated (rest.foldl (fun hint t => .union hint (.type t)) hint)).toList =
          (stripAnnotated hint).toList ++ rest := by
    intro rest
    induction rest with
    | nil =>
        intro hint _
        exact (List.append_nil _).symm
    | cons t rest ih =>
        intro hint h
        have hfresh : t ∉ (stripAnnotated hint).toList := fun hmem =>
          (List.nodup_append'.mp h).2.2 hmem List.mem_cons_self
        have hstep : (stripAnnotated (.union hint (.type t))).toList =
            (stripAnnotated hint).toList ++ [t] := by
          rw [stripAnnotated, UnionType.toList_or, stripAnnotated]
          simp [UnionType.single, UnionType.toList] at hfresh ⊢
          exact hfresh
        rw [List.foldl_cons, ih _ (by simpa [hstep] using h), hstep, List.append_assoc]
        rfl
  exact UnionType.toList_injective (hfold u.rest (.type u.first) u.nodup)

end

/-! ## Fields -/

/-- The six REST shapes. -/
inductive RestShape where
  | createRequest
  | createResponse
  | updateRequest
  | updateResponse
  | readResponse
  | searchResponse
  deriving DecidableEq, Repr

/-- A default factory. A custom one may make something else each time. -/
inductive Factory (δ : Type) where
  | uuid4
  | utcNow
  | custom (make : ℕ → δ)

/-- The default for an operation. A value and a factory exclude each other. -/
inductive OperationDefault (δ : Type) where
  | unset
  | value (v : δ)
  | factory (f : Factory δ)

/-- `has_default_for`. -/
def OperationDefault.isSet {δ : Type} : OperationDefault δ → Bool
  | .unset => false
  | _ => true

/-- The `references` of a field. -/
inductive Reference where
  | unset
  | suppressed
  | resource (name : String)
  deriving DecidableEq, Repr

/-- `DtoField`: the shapes that a field is in, its defaults, its type in requests, and what it
refers to. -/
structure DtoField (τ κ δ : Type) where
  included : RestShape → Bool := fun _ => true
  defaultForCreate : OperationDefault δ := .unset
  defaultForUpdate : OperationDefault δ := .unset
  requestType : Option (TypeHint τ κ) := none
  references : Reference := .unset

/-- Metadata of an `Annotated`: a `DtoField`, or what Pydantic makes a constraint or a validator
of. -/
inductive Metadata (τ κ δ : Type) where
  | field (config : DtoField τ κ δ)
  | constraint (k : κ)

/-- The annotation of a field. -/
abbrev FieldHint (τ κ δ : Type) := TypeHint τ (Metadata τ κ δ)

/-- `_annotated_metadata`. An `Annotated` of an `Annotated` is flattened. -/
def annotatedMetadata {τ μ : Type} : TypeHint τ μ → List μ
  | .annotated origin metadata => annotatedMetadata origin ++ metadata
  | _ => []

theorem UnionType.annotatedMetadata_toHint {τ μ : Type} (u : UnionType τ) :
    annotatedMetadata (u.toHint : TypeHint τ μ) = [] := by
  rw [UnionType.toHint]
  rcases List.eq_nil_or_concat u.rest with hnil | ⟨rest, t, hrest⟩
  · rw [hnil]
    rfl
  · rw [hrest, List.concat_eq_append, List.foldl_append]
    rfl

namespace DtoField

variable {τ κ δ : Type}

/-- `with_overrides`, of flags. -/
def withFlags (config : DtoField τ κ δ) (flags : RestShape → Option Bool) : DtoField τ κ δ :=
  { config with included := fun shape => (flags shape).getD (config.included shape) }

/-- The field is not in the shapes. -/
def exclude (config : DtoField τ κ δ) (shapes : List RestShape) : DtoField τ κ δ :=
  config.withFlags fun shape => if shape ∈ shapes then some false else none

end DtoField

/-- A value in the body of a class. -/
inductive ClassValue (τ κ δ : Type) where
  | field (config : DtoField τ κ δ)
  | default (v : δ)

/-- What a class annotates a name with. -/
inductive Member (τ κ δ : Type) where
  | classVar
  | hint (hint : FieldHint τ κ δ)

/-- The body of a class. Each name is annotated once. -/
structure ClassBody (τ κ δ : Type) where
  annotations : List (String × Member τ κ δ)
  values : String → Option (ClassValue τ κ δ) := fun _ => none

/-- Whether a name can be that of a field. -/
def isFieldName (name : String) : Bool :=
  name.toList.head? ≠ some '_' && name ∉ ["metadata", "id_field_name"]

section
variable {τ κ δ : Type} [DecidableEq τ] [PyTypes τ]

/-- `_is_uuid_annotation`. -/
def isUuidHint (hint : FieldHint τ κ δ) : Bool :=
  (stripAnnotated hint).toList = [PyTypes.uuid]

/-- `_is_secret_annotation`. -/
def isSecretHint (hint : FieldHint τ κ δ) : Bool :=
  (stripAnnotated hint).toList = [PyTypes.secretStr]

omit [DecidableEq τ] [PyTypes τ] in
/-- `_config_from`. -/
def configFrom (value : Option (ClassValue τ κ δ)) (hint : FieldHint τ κ δ) :
    DtoField τ κ δ × Bool :=
  let declared := (annotatedMetadata hint).findSome? fun
    | .field config => some config
    | .constraint _ => none
  match declared, value with
  | some config, _ => (config, true)
  | none, some (.field config) => (config, true)
  | none, some (.default v) => ({ defaultForCreate := .value v }, false)
  | none, none => ({}, false)

/-- `_apply_conventions`. -/
def applyConventions (name idFieldName : String) (hint : FieldHint τ κ δ)
    (config : DtoField τ κ δ) (explicit : Bool) : DtoField τ κ δ :=
  if explicit then config
  else if name = idFieldName then
    let config := config.exclude
      (if name = "id" then [.updateRequest, .createRequest] else [.updateRequest])
    if name = "id" && isUuidHint hint && !config.defaultForCreate.isSet then
      { config with defaultForCreate := .factory .uuid4 }
    else config
  else if name = "created_at" ∨ name = "updated_at" then
    let config := config.exclude [.createRequest, .updateRequest]
    let config :=
      if config.defaultForCreate.isSet then config
      else { config with defaultForCreate := .factory .utcNow }
    if name = "updated_at" && !config.defaultForUpdate.isSet then
      { config with defaultForUpdate := .factory .utcNow }
    else config
  else config

/-- A field of a declaration: its name, its annotation and its `DtoField`. -/
abbrev Field (τ κ δ : Type) := String × FieldHint τ κ δ × DtoField τ κ δ

/-- The fields that a class declares. -/
def ClassBody.fields (body : ClassBody τ κ δ) (idFieldName : String) : List (Field τ κ δ) :=
  body.annotations.filterMap fun
    | (_, .classVar) => none
    | (name, .hint hint) =>
      if isFieldName name then
        let config := configFrom (body.values name) hint
        some (name, hint, applyConventions name idFieldName hint config.1 config.2)
      else none

/-- `_collect_dto_fields`, over a class and its bases, the bases first. -/
def collectDtoFields (idFieldName : String) (mro : List (ClassBody τ κ δ)) : List (Field τ κ δ) :=
  PyDict.ofList (fun a b => decide (a = b)) (mro.flatMap fun body => body.fields idFieldName)

theorem collectDtoFields_nodup (idFieldName : String) (mro : List (ClassBody τ κ δ)) :
    ((collectDtoFields idFieldName mro).map (·.1)).Nodup :=
  (PyDict.keys_ofList _).1

theorem isFieldName_of_mem_fields {body : ClassBody τ κ δ} {idFieldName : String}
    {field : Field τ κ δ} (h : field ∈ body.fields idFieldName) : isFieldName field.1 = true := by
  obtain ⟨⟨name, member⟩, -, hsome⟩ := List.mem_filterMap.mp h
  cases member with
  | classVar => cases hsome
  | hint hint =>
      dsimp only at hsome
      split at hsome
      · next hname =>
          cases hsome
          exact hname
      · cases hsome

theorem isFieldName_of_mem_collect {idFieldName : String} {mro : List (ClassBody τ κ δ)}
    {field : Field τ κ δ} (h : field ∈ collectDtoFields idFieldName mro) :
    isFieldName field.1 = true := by
  obtain ⟨body, -, hfield⟩ := List.mem_flatMap.mp (PyDict.mem_of_mem_ofList h)
  exact isFieldName_of_mem_fields hfield

end

/-! ## Declarations -/

/-- What the declaration of a class raises. -/
inductive DeclarationError where
  | typeError (message : String)
  | keyError (message : String)
  deriving DecidableEq

/-- A subclass of `DTO`: its fields, of which one is the identifier. -/
structure Dto (τ κ δ : Type) where
  name : String
  fields : List (Field τ κ δ)
  idFieldName : String
  nodup : (fields.map (·.1)).Nodup
  names : ∀ field ∈ fields, isFieldName field.1 = true
  idNamed : idFieldName ≠ ""
  identified : idFieldName ∈ fields.map (·.1)

/-- The repr of a name. -/
def reprName (name : String) : String := "'" ++ name ++ "'"

section
variable {τ κ δ : Type} [DecidableEq τ] [PyTypes τ]

/-- `__init_subclass__`, with the identifier's name that is declared and the one that is
inherited. -/
def initSubclass (name : String) (declared : Option String) (inherited : String)
    (mro : List (ClassBody τ κ δ)) : Except DeclarationError (Dto τ κ δ) :=
  let idFieldName := declared.getD inherited
  if hnamed : idFieldName = "" then
    .error (.typeError (name ++ " needs id_field_name to be a non-empty string, got ''"))
  else
    let fields := collectDtoFields idFieldName mro
    if h : idFieldName ∈ fields.map (·.1) then
      .ok
        { name, fields, idFieldName
          nodup := collectDtoFields_nodup _ _
          names := fun _ => isFieldName_of_mem_collect
          idNamed := hnamed
          identified := h }
    else .error (.typeError (name ++ " declares id_field_name=" ++ reprName idFieldName ++
      " but has no such field (fields: " ++
      (if fields = [] then "none" else ", ".intercalate (fields.map (·.1))) ++ ")"))

theorem initSubclass_eq_ok {name inherited : String} {declared : Option String}
    {mro : List (ClassBody τ κ δ)} {D : Dto τ κ δ}
    (h : initSubclass name declared inherited mro = .ok D) :
    D.fields = collectDtoFields (declared.getD inherited) mro ∧
      D.idFieldName = declared.getD inherited := by
  simp only [initSubclass] at h
  split at h
  · cases h
  · split at h
    · cases h
      exact ⟨rfl, rfl⟩
    · cases h

/-- The `DtoField` of a field with the overrides by field name. -/
def merged (overrides : List (String × (DtoField τ κ δ → DtoField τ κ δ))) (name : String)
    (config : DtoField τ κ δ) : DtoField τ κ δ :=
  ((overrides.lookup name).getD id) config

/-- A field as it is declared again. -/
def derivedField (overrides : List (String × (DtoField τ κ δ → DtoField τ κ δ)))
    (field : Field τ κ δ) : Field τ κ δ :=
  let config := merged overrides field.1 field.2.2
  (field.1, .annotated (stripAnnotated field.2.1).toHint [.field config], config)

omit [PyTypes τ] in
/-- The `DtoField` of a field that is declared again is explicit. -/
theorem configFrom_derivedField (overrides : List (String × (DtoField τ κ δ → DtoField τ κ δ)))
    (field : Field τ κ δ) (value : Option (ClassValue τ κ δ)) :
    configFrom value (derivedField overrides field).2.1 =
      (merged overrides field.1 field.2.2, true) := by
  have hmetadata : annotatedMetadata (derivedField overrides field).2.1 =
      [.field (merged overrides field.1 field.2.2)] := by
    show annotatedMetadata (stripAnnotated field.2.1).toHint ++ _ = _
    rw [UnionType.annotatedMetadata_toHint]
    rfl
  unfold configFrom
  rw [hmetadata]
  rfl

/-- `derive_dto`. An override replaces attributes of a `DtoField`. -/
def deriveDto (D : Dto τ κ δ) (overrides : List (String × (DtoField τ κ δ → DtoField τ κ δ)))
    (name : Option String := none) : Except DeclarationError (Dto τ κ δ) :=
  let unknown := (overrides.map (·.1)).filter fun name => name ∉ D.fields.map (·.1)
  if unknown ≠ [] then
    .error (.keyError (D.name ++ " has no field(s) [" ++
      ", ".intercalate ((unknown.insertionSort (· ≤ ·)).map reprName) ++ "] to override"))
  else
    initSubclass (name.getD (D.name ++ "View")) (some D.idFieldName) "id"
      [{ annotations := D.fields.map fun field =>
          (field.1, .hint (derivedField overrides field).2.1) }]

/-- **No convention is applied again.** A derived declaration has the fields of the original, each
with the types of its annotation and its `DtoField` with the overrides. -/
theorem deriveDto_fields {D D' : Dto τ κ δ}
    {overrides : List (String × (DtoField τ κ δ → DtoField τ κ δ))} {name : Option String}
    (h : deriveDto D overrides name = .ok D') :
    D'.fields = D.fields.map (derivedField overrides) ∧ D'.idFieldName = D.idFieldName := by
  have hbody : ClassBody.fields
      { annotations := D.fields.map fun field =>
          (field.1, .hint (derivedField overrides field).2.1) } D.idFieldName =
      D.fields.map (derivedField overrides) := by
    rw [ClassBody.fields, List.filterMap_map]
    refine (List.filterMap_congr fun field hfield => ?_).trans
      (congrFun List.filterMap_eq_map D.fields)
    show (if isFieldName field.1 = true then _ else none) = _
    rw [if_pos (D.names field hfield)]
    dsimp only
    rw [configFrom_derivedField]
    rfl
  have hnodup : ((D.fields.map (derivedField overrides)).map (·.1)).Nodup := by
    rw [List.map_map]
    exact D.nodup
  simp only [deriveDto] at h
  split at h
  · cases h
  · obtain ⟨hfields, hid⟩ := initSubclass_eq_ok h
    refine ⟨?_, hid⟩
    rw [hfields, collectDtoFields, Option.getD_some, List.flatMap_cons, List.flatMap_nil,
      List.append_nil, hbody, PyDict.ofList_of_nodup hnodup]

/-- Derivations in sequence. -/
def deriveAll (D : Dto τ κ δ) :
    List (List (String × (DtoField τ κ δ → DtoField τ κ δ))) → Except DeclarationError (Dto τ κ δ)
  | [] => .ok D
  | overrides :: chain => do
    let D' ← deriveDto D overrides
    deriveAll D' chain

/-- The `DtoField` of a field after the overrides of each derivation. -/
def mergedAll (chain : List (List (String × (DtoField τ κ δ → DtoField τ κ δ)))) (name : String)
    (config : DtoField τ κ δ) : DtoField τ κ δ :=
  chain.foldl (fun config overrides => merged overrides name config) config

/-- The fields of one declaration are those of another in their order, each with the types of its
annotation, and with what `g` makes of its `DtoField`. -/
structure Redeclares (g : String → DtoField τ κ δ → DtoField τ κ δ) (D D' : Dto τ κ δ) : Prop where
  fields : D'.fields.map (fun field => (field.1, stripAnnotated field.2.1, field.2.2)) =
    D.fields.map fun field => (field.1, stripAnnotated field.2.1, g field.1 field.2.2)
  idFieldName : D'.idFieldName = D.idFieldName

namespace Redeclares

variable {g g' : String → DtoField τ κ δ → DtoField τ κ δ} {D D' D₁ : Dto τ κ δ} {name : String}

omit [PyTypes τ]

theorem refl (D : Dto τ κ δ) : Redeclares (fun _ config => config) D D := ⟨rfl, rfl⟩

theorem trans (h : Redeclares g D D₁) (h' : Redeclares g' D₁ D') :
    Redeclares (fun name config => g' name (g name config)) D D' where
  fields := by
    have hcompose := congrArg (List.map fun entry : String × UnionType τ × DtoField τ κ δ =>
      (entry.1, entry.2.1, g' entry.1 entry.2.2)) h.fields
    rw [List.map_map, List.map_map] at hcompose
    exact h'.fields.trans hcompose
  idFieldName := h'.idFieldName.trans h.idFieldName

/-- A field of the one is a field of the other. -/
theorem exists_of_mem (h : Redeclares g D D') {hint' : FieldHint τ κ δ}
    {config' : DtoField τ κ δ} (hmem : (name, hint', config') ∈ D'.fields) :
    ∃ hint config, (name, hint, config) ∈ D.fields ∧ stripAnnotated hint' = stripAnnotated hint ∧
      config' = g name config := by
  have himage : (name, stripAnnotated hint', config') ∈
      D'.fields.map fun field => (field.1, stripAnnotated field.2.1, field.2.2) :=
    List.mem_map.mpr ⟨_, hmem, rfl⟩
  rw [h.fields] at himage
  obtain ⟨⟨name', hint, config⟩, hfield, heq⟩ := List.mem_map.mp himage
  simp only [Prod.mk.injEq] at heq
  obtain ⟨rfl, hstrip, rfl⟩ := heq
  exact ⟨hint, config, hfield, hstrip.symm, rfl⟩

/-- And back. -/
theorem exists_mem (h : Redeclares g D D') {hint : FieldHint τ κ δ} {config : DtoField τ κ δ}
    (hmem : (name, hint, config) ∈ D.fields) :
    ∃ hint', (name, hint', g name config) ∈ D'.fields ∧
      stripAnnotated hint' = stripAnnotated hint := by
  have himage : (name, stripAnnotated hint, g name config) ∈
      D.fields.map fun field => (field.1, stripAnnotated field.2.1, g field.1 field.2.2) :=
    List.mem_map.mpr ⟨_, hmem, rfl⟩
  rw [← h.fields] at himage
  obtain ⟨⟨name', hint', config'⟩, hfield, heq⟩ := List.mem_map.mp himage
  simp only [Prod.mk.injEq] at heq
  obtain ⟨rfl, hstrip, rfl⟩ := heq
  exact ⟨hint', hfield, hstrip⟩

/-- The names are the same. -/
theorem names (h : Redeclares g D D') : D'.fields.map (·.1) = D.fields.map (·.1) := by
  have hnames := congrArg (List.map Prod.fst) h.fields
  rw [List.map_map, List.map_map] at hnames
  exact hnames

end Redeclares

/-- A derived declaration declares the fields again, with the overrides. -/
theorem deriveDto_redeclares {D D' : Dto τ κ δ}
    {overrides : List (String × (DtoField τ κ δ → DtoField τ κ δ))} {name : Option String}
    (h : deriveDto D overrides name = .ok D') : Redeclares (merged overrides) D D' := by
  obtain ⟨hfields, hid⟩ := deriveDto_fields h
  refine ⟨?_, hid⟩
  rw [hfields, List.map_map]
  refine List.map_congr_left fun field _ => ?_
  show (field.1, stripAnnotated (stripAnnotated field.2.1).toHint, _) = _
  rw [stripAnnotated_toHint]
  rfl

/-- **Derivations in sequence** declare the fields again, with all overrides in turn. -/
theorem deriveAll_redeclares {D D' : Dto τ κ δ}
    {chain : List (List (String × (DtoField τ κ δ → DtoField τ κ δ)))}
    (h : deriveAll D chain = .ok D') : Redeclares (mergedAll chain) D D' := by
  induction chain generalizing D with
  | nil =>
      cases h
      exact .refl _
  | cons overrides chain ih =>
      rw [deriveAll] at h
      rcases hderive : deriveDto D overrides with error | D₁
      · rw [hderive] at h
        cases h
      · rw [hderive] at h
        exact (deriveDto_redeclares hderive).trans (ih h)

/-! ## Models -/

/-- A field of a generated model: its types, and whether it is loaded and dumped as a secret. -/
structure ModelField (τ δ : Type) where
  name : String
  types : UnionType τ
  secret : Bool
  default : OperationDefault δ := .unset

namespace Dto

variable (D : Dto τ κ δ)

/-- The types of a field in a request. -/
def requestTypes (hint : FieldHint τ κ δ) (config : DtoField τ κ δ) : UnionType τ :=
  match config.requestType with
  | none => stripAnnotated hint
  | some requestType => stripAnnotated requestType

/-- `_build_create_request_model`. -/
def createRequestModel : List (ModelField τ δ) :=
  (D.fields.filter fun field => field.2.2.included .createRequest).map fun (name, hint, config) =>
    { name, types := requestTypes hint config, secret := isSecretHint hint
      default := config.defaultForCreate }

/-- `_build_update_request_model`. Every field may be omitted. -/
def updateRequestModel : List (ModelField τ δ) :=
  (D.fields.filter fun field => field.2.2.included .updateRequest).map fun (name, hint, config) =>
    { name, types := requestTypes hint config, secret := isSecretHint hint }

/-- `_build_response_model`. -/
def responseModel (shape : RestShape) : List (ModelField τ δ) :=
  (D.fields.filter fun field => field.2.2.included shape).map fun (name, hint, _) =>
    { name, types := stripAnnotated hint, secret := isSecretHint hint }

/-- `get_rest_models`. -/
def restModel : RestShape → List (ModelField τ δ)
  | .createRequest => D.createRequestModel
  | .updateRequest => D.updateRequestModel
  | shape => D.responseModel shape

/-- The names of a shape's fields. -/
def shapeFields (shape : RestShape) : List String := (D.restModel shape).map (·.name)

theorem mem_shapeFields {D : Dto τ κ δ} {shape : RestShape} {name : String} :
    name ∈ D.shapeFields shape ↔
      ∃ hint config, (name, hint, config) ∈ D.fields ∧ config.included shape = true := by
  have hnames : D.shapeFields shape =
      (D.fields.filter fun field => field.2.2.included shape).map (·.1) := by
    cases shape <;> exact List.map_map
  rw [hnames, List.mem_map]
  constructor
  · rintro ⟨⟨name', hint, config⟩, hfield, rfl⟩
    obtain ⟨hmem, hincluded⟩ := List.mem_filter.mp hfield
    exact ⟨hint, config, hmem, hincluded⟩
  · rintro ⟨hint, config, hmem, hincluded⟩
    exact ⟨(name, hint, config), List.mem_filter.mpr ⟨hmem, hincluded⟩, rfl⟩

omit [DecidableEq τ] [PyTypes τ] in
/-- A name has one field. -/
theorem field_unique {D : Dto τ κ δ} {name : String} {hint hint' : FieldHint τ κ δ}
    {config config' : DtoField τ κ δ} (h : (name, hint, config) ∈ D.fields)
    (h' : (name, hint', config') ∈ D.fields) : hint' = hint ∧ config' = config := by
  have heq := List.inj_on_of_nodup_map D.nodup h h' rfl
  cases heq
  exact ⟨rfl, rfl⟩

end Dto

end

/-! ## Some types -/

/-- Built-in types, as the examples use them. -/
inductive BuiltinType where
  | none
  | bool
  | int
  | str
  | bytes
  | uuid
  | datetime
  | secretStr
  deriving DecidableEq, Repr

instance : PyTypes BuiltinType where
  none := .none
  uuid := .uuid
  secretStr := .secretStr
  classify
    | .bool => .bool
    | .int | .datetime => .orderable
    | .str | .uuid => .string
    | .none | .bytes | .secretStr => .other

end Resourcey.Declaration
