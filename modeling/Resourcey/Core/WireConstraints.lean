import Resourcey.Core.Declaration
import Resourcey.Logic.BestMatch

/-!
# Constraints of a request

The annotation of a field may have constraints and validators beside its `DtoField`. The models of
the requests are generated of the types that are left when the metadata is stripped, of unions too,
so a constraint does not reach them: what they accept is what the annotation accepts exactly if it
has no constraint (`requests_validate_iff`). Deriving the declaration again changes nothing of it.

Pydantic is a parameter: what it makes of a type and of a constraint. A union takes the leftmost of
the members that fit best.
-/

namespace Resourcey.Declaration

open BestMatch

/-! ## Validation -/

/-- What a validator makes of a value, with how well it fits. -/
abbrev Validator (ρ ℓ : Type) := ρ → Option (ℓ × ρ)

/-- The validation library, over values `ρ`: the validator of a type, what a constraint makes of the
validator it is put on, and what a secret is before it is validated. -/
structure ValidatorLibrary (τ κ ρ ℓ : Type) where
  type : τ → Validator ρ ℓ
  constrain : κ → Validator ρ ℓ → Validator ρ ℓ
  loadSecret : ρ → ρ

section
variable {τ κ δ ρ ℓ μ : Type} [LinearOrder ℓ]

/-- The constraint among metadata. Other metadata is ignored. -/
def Metadata.constraint? : Metadata τ κ δ → Option κ
  | .field _ => none
  | .constraint k => some k

/-- The validator of an annotation. Each constraint is put on what is before it. -/
def validateHint (lib : ValidatorLibrary τ κ ρ ℓ) (constraint? : μ → Option κ) :
    TypeHint τ μ → Validator ρ ℓ
  | .type t => lib.type t
  | .annotated origin metadata =>
    (metadata.filterMap constraint?).foldl (fun v k => lib.constrain k v)
      (validateHint lib constraint? origin)
  | .union left right => fun raw =>
    pick (validateHint lib constraint? left raw) (validateHint lib constraint? right raw)

/-- What a generated model holds of a value that is supplied for a field. -/
def ModelField.validate (lib : ValidatorLibrary τ κ ρ ℓ) (field : ModelField τ δ) (raw : ρ) :
    Option ρ :=
  (validateHint lib some field.types.toHint (if field.secret then lib.loadSecret raw else raw)).map
    (·.2)

/-- What a model holds whose field has the annotation, or the request type. -/
def validateDeclared (lib : ValidatorLibrary τ κ ρ ℓ) (hint : FieldHint τ κ δ)
    (config : DtoField τ κ δ) (raw : ρ) : Option ρ :=
  match config.requestType with
  | none => (validateHint lib Metadata.constraint? hint raw).map (·.2)
  | some requestType => (validateHint lib some requestType raw).map (·.2)

end

/-! ## Constraints -/

section
variable {τ κ δ μ : Type}

/-- The constraints of an annotation, at any depth. -/
def TypeHint.constraints (constraint? : μ → Option κ) : TypeHint τ μ → List κ
  | .type _ => []
  | .annotated origin metadata =>
    origin.constraints constraint? ++ metadata.filterMap constraint?
  | .union left right => left.constraints constraint? ++ right.constraints constraint?

/-- The constraints of the annotation of a field, or of its request type. -/
def declaredConstraints (hint : FieldHint τ κ δ) (config : DtoField τ κ δ) : List κ :=
  match config.requestType with
  | none => hint.constraints Metadata.constraint?
  | some requestType => requestType.constraints some

variable [DecidableEq τ] {ρ ℓ : Type} [LinearOrder ℓ]

/-- **Without constraints** an annotation is validated as its types are. -/
theorem validateHint_of_constraints_eq_nil (lib : ValidatorLibrary τ κ ρ ℓ)
    {constraint? : μ → Option κ} {hint : TypeHint τ μ} (h : hint.constraints constraint? = [])
    (raw : ρ) : validateHint lib constraint? hint raw =
      best ((stripAnnotated hint).toList.map fun t => lib.type t raw) := by
  induction hint with
  | type t => exact (pick_none _).symm
  | annotated origin metadata ih =>
      obtain ⟨horigin, hmetadata⟩ := List.append_eq_nil_iff.mp h
      rw [validateHint, hmetadata]
      exact ih horigin
  | union left right ihleft ihright =>
      obtain ⟨hleft, hright⟩ := List.append_eq_nil_iff.mp h
      show pick (validateHint lib constraint? left raw) (validateHint lib constraint? right raw) = _
      rw [ihleft hleft, ihright hright, stripAnnotated, UnionType.toList_or, List.map_append,
        best_append, pick_best_filter]

omit [DecidableEq τ] in
theorem UnionType.constraints_toHint {constraint? : μ → Option κ} (u : UnionType τ) :
    (u.toHint : TypeHint τ μ).constraints constraint? = [] := by
  have hfold : ∀ (rest : List τ) (hint : TypeHint τ μ), hint.constraints constraint? = [] →
      (rest.foldl (fun hint t => .union hint (.type t)) hint).constraints constraint? = [] := by
    intro rest
    induction rest with
    | nil => exact fun _ h => h
    | cons t rest ih =>
        intro hint h
        refine ih _ ?_
        rw [TypeHint.constraints, h]
        rfl
  exact hfold u.rest _ rfl

theorem validateHint_toHint (lib : ValidatorLibrary τ κ ρ ℓ) (u : UnionType τ) (raw : ρ) :
    validateHint lib some u.toHint raw = best (u.toList.map fun t => lib.type t raw) := by
  rw [validateHint_of_constraints_eq_nil lib u.constraints_toHint, stripAnnotated_toHint]

/-- A library whose types reject everything, and whose constraints accept it. -/
def ValidatorLibrary.contrary (τ κ : Type) : ValidatorLibrary τ κ Unit ℕ where
  type _ _ := none
  constrain _ _ _ := some (0, ())
  loadSecret := id

omit [DecidableEq τ] in
/-- Any constraint makes the difference. -/
theorem validateHint_contrary {constraint? : μ → Option κ} {hint : TypeHint τ μ}
    (h : hint.constraints constraint? ≠ []) :
    validateHint (ValidatorLibrary.contrary τ κ) constraint? hint () ≠ none := by
  induction hint with
  | type t => exact absurd rfl h
  | annotated origin metadata ih =>
      rw [validateHint]
      rcases List.eq_nil_or_concat (metadata.filterMap constraint?) with hnil | ⟨ks, k, hks⟩
      · rw [hnil]
        rw [TypeHint.constraints, hnil, List.append_nil] at h
        exact ih h
      · rw [hks, List.concat_eq_append, List.foldl_append]
        exact Option.some_ne_none _
  | union left right ihleft ihright =>
      intro hnone
      obtain ⟨hnoleft, hnoright⟩ := pick_eq_none_iff.mp hnone
      refine h (List.append_eq_nil_iff.mpr ⟨?_, ?_⟩)
      · exact not_not.mp fun hleft => ihleft hleft hnoleft
      · exact not_not.mp fun hright => ihright hright hnoright

end

/-! ## Requests -/

/-- The shapes of requests. -/
def RestShape.isRequest : RestShape → Bool
  | .createRequest | .updateRequest => true
  | _ => false

section
variable {τ κ δ : Type} [DecidableEq τ] [PyTypes τ]

omit [DecidableEq τ] [PyTypes τ] in
/-- No derivation overrides the request type of a field. -/
def KeepsRequestType (chain : List (List (String × (DtoField τ κ δ → DtoField τ κ δ))))
    (name : String) : Prop :=
  ∀ overrides ∈ chain, ∀ config : DtoField τ κ δ,
    (merged overrides name config).requestType = config.requestType

omit [DecidableEq τ] [PyTypes τ] in
theorem KeepsRequestType.mergedAll
    {chain : List (List (String × (DtoField τ κ δ → DtoField τ κ δ)))} {name : String}
    (h : KeepsRequestType chain name) (config : DtoField τ κ δ) :
    (mergedAll chain name config).requestType = config.requestType := by
  induction chain generalizing config with
  | nil => rfl
  | cons overrides chain ih =>
      have hrest := ih (fun other hother => h other (List.mem_cons_of_mem _ hother))
        (merged overrides name config)
      exact hrest.trans (h overrides List.mem_cons_self config)

/-- A field of a request has the types of a declared one. -/
theorem mem_restModel_iff {D : Dto τ κ δ} {shape : RestShape} (hshape : shape.isRequest = true)
    {name : String} {types : UnionType τ} {secret : Bool} :
    (∃ field ∈ D.restModel shape, field.name = name ∧ field.types = types ∧
        field.secret = secret) ↔
      ∃ hint config, (name, hint, config) ∈ D.fields ∧ config.included shape = true ∧
        Dto.requestTypes hint config = types ∧ isSecretHint hint = secret := by
  constructor
  · rintro ⟨field, hfield, rfl, rfl, rfl⟩
    cases shape with
    | createRequest | updateRequest =>
        obtain ⟨⟨name, hint, config⟩, hmem, rfl⟩ := List.mem_map.mp hfield
        obtain ⟨hmem, hincluded⟩ := List.mem_filter.mp hmem
        exact ⟨hint, config, hmem, hincluded, rfl, rfl⟩
    | createResponse | updateResponse | readResponse | searchResponse => cases hshape
  · rintro ⟨hint, config, hmem, hincluded, rfl, rfl⟩
    have hfiltered : (name, hint, config) ∈
        D.fields.filter fun field => field.2.2.included shape :=
      List.mem_filter.mpr ⟨hmem, hincluded⟩
    cases shape with
    | createRequest | updateRequest =>
        exact ⟨_, List.mem_map.mpr ⟨_, hfiltered, rfl⟩, rfl, rfl, rfl⟩
    | createResponse | updateResponse | readResponse | searchResponse => cases hshape

omit [PyTypes τ] in
theorem validateDeclared_of_constraints_eq_nil {ρ ℓ : Type} [LinearOrder ℓ]
    (lib : ValidatorLibrary τ κ ρ ℓ) {hint : FieldHint τ κ δ} {config : DtoField τ κ δ}
    (h : declaredConstraints hint config = []) (raw : ρ) :
    validateDeclared lib hint config raw =
      (best ((Dto.requestTypes hint config).toList.map fun t => lib.type t raw)).map (·.2) := by
  unfold declaredConstraints at h
  unfold validateDeclared Dto.requestTypes
  cases hrequest : config.requestType with
  | none =>
      simp only [hrequest] at h
      exact congrArg (Option.map Prod.snd) (validateHint_of_constraints_eq_nil lib h raw)
  | some requestType =>
      simp only [hrequest] at h
      exact congrArg (Option.map Prod.snd) (validateHint_of_constraints_eq_nil lib h raw)

omit [DecidableEq τ] [PyTypes τ] in
theorem validateDeclared_contrary {hint : FieldHint τ κ δ} {config : DtoField τ κ δ}
    (h : declaredConstraints hint config ≠ []) :
    validateDeclared (.contrary τ κ) hint config () ≠ none := by
  unfold declaredConstraints at h
  unfold validateDeclared
  split at h
  · exact fun hnone => validateHint_contrary h (Option.map_eq_none_iff.mp hnone)
  · exact fun hnone => validateHint_contrary h (Option.map_eq_none_iff.mp hnone)

/-- **The constraints of a field reach a request**: whatever they are, the model of the request, and
those of all declarations that are derived for views, accept of a value that is supplied for the
field what the annotation, or the request type, accepts, and hold the same. -/
def ReachesWire (D : Dto τ κ δ) (shape : RestShape) (name : String) (hint : FieldHint τ κ δ)
    (config : DtoField τ κ δ) : Prop :=
  ∀ (ρ ℓ : Type) [LinearOrder ℓ] (lib : ValidatorLibrary τ κ ρ ℓ)
    (chain : List (List (String × (DtoField τ κ δ → DtoField τ κ δ)))) (D' : Dto τ κ δ),
    KeepsRequestType chain name → deriveAll D chain = .ok D' →
      ∀ field ∈ D'.restModel shape, field.name = name →
        ∀ raw, field.validate lib raw = validateDeclared lib hint config raw

/-- A model of a request holds of a field what its types make of it. -/
theorem validate_of_derived {D D' : Dto τ κ δ} {shape : RestShape}
    (hshape : shape.isRequest = true) {name : String} {hint : FieldHint τ κ δ}
    {config : DtoField τ κ δ} (hfield : (name, hint, config) ∈ D.fields)
    (hsecret : isSecretHint hint = false)
    {chain : List (List (String × (DtoField τ κ δ → DtoField τ κ δ)))}
    (hkeeps : KeepsRequestType chain name) (hderive : deriveAll D chain = .ok D')
    {field : ModelField τ δ} (hmem : field ∈ D'.restModel shape) (hname : field.name = name)
    {ρ ℓ : Type} [LinearOrder ℓ] (lib : ValidatorLibrary τ κ ρ ℓ) (raw : ρ) :
    field.validate lib raw =
      (best ((Dto.requestTypes hint config).toList.map fun t => lib.type t raw)).map (·.2) := by
  obtain ⟨hint', config', hmem', -, htypes, hsecret'⟩ :=
    (mem_restModel_iff hshape).mp ⟨field, hmem, hname, rfl, rfl⟩
  obtain ⟨hint₀, config₀, hmem₀, hstrip, rfl⟩ := (deriveAll_redeclares hderive).exists_of_mem hmem'
  obtain ⟨rfl, rfl⟩ := Dto.field_unique hfield hmem₀
  have hsame : Dto.requestTypes hint' (mergedAll chain name config₀) =
      Dto.requestTypes hint₀ config₀ := by
    rw [Dto.requestTypes, hkeeps.mergedAll, hstrip, Dto.requestTypes]
  have hnot : field.secret = false := by
    rw [← hsecret', isSecretHint, hstrip]
    exact hsecret
  rw [ModelField.validate, hnot, if_neg Bool.false_ne_true, validateHint_toHint, ← htypes, hsame]

/-- **When the constraints of a field reach the wire**: a field that is no secret is validated in a
request as its annotation, or its request type, says if and only if that has no constraint. -/
theorem requests_validate_iff {D : Dto τ κ δ} {shape : RestShape}
    (hshape : shape.isRequest = true) {name : String} {hint : FieldHint τ κ δ}
    {config : DtoField τ κ δ} (hfield : (name, hint, config) ∈ D.fields)
    (hincluded : config.included shape = true) (hsecret : isSecretHint hint = false) :
    ReachesWire D shape name hint config ↔ declaredConstraints hint config = [] := by
  have hmodel : ∀ chain D', KeepsRequestType chain name → deriveAll D chain = .ok D' →
      ∀ field ∈ D'.restModel shape, field.name = name → ∀ (ρ ℓ : Type) [LinearOrder ℓ]
        (lib : ValidatorLibrary τ κ ρ ℓ) (raw : ρ), field.validate lib raw =
          (best ((Dto.requestTypes hint config).toList.map fun t => lib.type t raw)).map (·.2) :=
    fun chain D' hkeeps hderive field hmem hname ρ ℓ _ lib raw =>
      validate_of_derived hshape hfield hsecret hkeeps hderive hmem hname lib raw
  constructor
  · intro h
    obtain ⟨field, hmem, hname, -⟩ := (mem_restModel_iff hshape).mpr
      ⟨hint, config, hfield, hincluded, rfl, rfl⟩
    have hkeeps : KeepsRequestType ([] : List (List (String × (DtoField τ κ δ → _)))) name :=
      fun overrides hnone => absurd hnone List.not_mem_nil
    by_contra hconstrained
    have hnone := h Unit ℕ (.contrary τ κ) [] D hkeeps rfl field hmem hname ()
    rw [hmodel [] D hkeeps rfl field hmem hname Unit ℕ (.contrary τ κ) ()] at hnone
    have hrejects : best ((Dto.requestTypes hint config).toList.map fun t =>
        (ValidatorLibrary.contrary τ κ).type t ()) = none := by
      induction (Dto.requestTypes hint config).toList with
      | nil => rfl
      | cons t ts ih => exact ih
    rw [hrejects] at hnone
    exact validateDeclared_contrary hconstrained hnone.symm
  · intro hnone ρ ℓ _ lib chain D' hkeeps hderive field hmem hname raw
    rw [hmodel chain D' hkeeps hderive field hmem hname ρ ℓ lib raw]
    exact (validateDeclared_of_constraints_eq_nil lib hnone raw).symm

end

/-! ## An age -/

/-- A person with an identifier and an age. -/
def Dto.person (age : FieldHint BuiltinType ℤ Unit) : Dto BuiltinType ℤ Unit where
  name := "Person"
  fields :=
    [("id", .type .uuid, { ({} : DtoField BuiltinType ℤ Unit).exclude [.updateRequest, .createRequest]
        with defaultForCreate := .factory .uuid4 }),
      ("age", age, {})]
  idFieldName := "id"
  nodup := by simp
  names field hfield := by
    rcases List.mem_cons.mp hfield with rfl | hfield
    · simp [isFieldName]
    · obtain rfl := List.mem_singleton.mp hfield
      simp [isFieldName]
  idNamed := by simp
  identified := List.mem_cons_self

/-- The age that may be null is validated in a request as it is annotated. -/
theorem requests_validate_optional :
    ReachesWire (.person (.union (.type .int) (.type .none))) .createRequest "age"
      (.union (.type .int) (.type .none)) {} :=
  (requests_validate_iff rfl (List.mem_cons_of_mem _ List.mem_cons_self) rfl (by decide)).mpr rfl

/-- Numbers, of which a constraint is a lower bound. -/
def ValidatorLibrary.lowerBounds : ValidatorLibrary BuiltinType ℤ ℤ ℕ where
  type _ raw := some (0, raw)
  constrain bound v raw := (v raw).filter fun result => bound ≤ result.2
  loadSecret := id

/-- An age of `Annotated[int, Ge(0)]` may be negative in a request. -/
theorem not_reachesWire_age :
    (∃ field ∈ (Dto.person (.annotated (.type .int) [.constraint 0])).createRequestModel,
      field.name = "age" ∧ field.validate .lowerBounds (-1) = some (-1)) ∧
    validateDeclared .lowerBounds (.annotated (.type .int) [.constraint 0])
      ({} : DtoField BuiltinType ℤ Unit) (-1) = none ∧
    ¬ ReachesWire (.person (.annotated (.type .int) [.constraint 0])) .createRequest "age"
      (.annotated (.type .int) [.constraint 0]) {} := by
  have haccepts : ∃ field ∈
      (Dto.person (.annotated (.type .int) [.constraint 0])).createRequestModel,
        field.name = "age" ∧ field.validate .lowerBounds (-1) = some (-1) :=
    ⟨_, List.mem_singleton_self _, rfl, rfl⟩
  refine ⟨haccepts, rfl, fun h => ?_⟩
  obtain ⟨field, hmem, hname, haccepted⟩ := haccepts
  have hsame := h ℤ ℕ .lowerBounds [] _ (fun overrides hnone => absurd hnone List.not_mem_nil) rfl
    field hmem hname (-1)
  rw [haccepted] at hsame
  cases hsame

end Resourcey.Declaration
