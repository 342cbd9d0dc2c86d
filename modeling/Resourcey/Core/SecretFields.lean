import Resourcey.Core.Dto

/-!
# Secret fields

A field of a generated model that has the serializer and the validator of a secret is dumped and
loaded as the context says. Which fields have them is decided by the annotation without its metadata,
and a union with `None` is not `SecretStr`. So a secret that may be null is always dumped as its
stars, whatever the context, and its ciphertext is loaded as it is (`secretFollows_iff`).
-/

namespace Resourcey

/-! ## Annotations -/

/-- An annotation that is `SecretStr` but for metadata and unions with `None`. -/
inductive Annotation.OfSecret : Annotation → Prop
  | secret : OfSecret .secret
  | annotated {a} : OfSecret a → OfSecret (.annotated a)
  | nullable {a} : OfSecret a → OfSecret (.nullable a)

/-- Whether there is a union with `None` in an annotation. -/
def Annotation.hasNone : Annotation → Bool
  | .nullable _ => true
  | .annotated a => a.hasNone
  | _ => false

namespace Annotation.OfSecret

variable {a : Annotation}

/-- Without a union with `None` the metadata are all there is. -/
theorem strip_of_not_hasNone (h : a.OfSecret) (hnone : a.hasNone = false) : a.strip = .secret := by
  induction h with
  | secret => rfl
  | annotated _ ih =>
      rw [strip]
      exact ih hnone
  | nullable => cases hnone

theorem strip_of_hasNone (h : a.OfSecret) (hnone : a.hasNone = true) :
    ∃ b, a.strip = .nullable b ∧ b.OfSecret := by
  induction h with
  | secret => cases hnone
  | annotated _ ih =>
      rw [strip]
      exact ih hnone
  | @nullable a h ih =>
      refine ⟨a.strip, by rw [strip], ?_⟩
      cases hinner : a.hasNone with
      | false =>
          rw [h.strip_of_not_hasNone hinner]
          exact .secret
      | true =>
          obtain ⟨b, hb, hsecret⟩ := ih hinner
          rw [hb]
          exact .nullable hsecret

theorem isSecretAnnotation_eq (h : a.OfSecret) : isSecretAnnotation a = !a.hasNone := by
  cases hnone : a.hasNone with
  | false => exact isSecretAnnotation_iff.mpr (h.strip_of_not_hasNone hnone)
  | true =>
      obtain ⟨b, hb, -⟩ := h.strip_of_hasNone hnone
      rw [ isSecretAnnotation, hb]
      rfl

end Annotation.OfSecret

theorem Annotation.strip_strip (a : Annotation) : a.strip.strip = a.strip := by
  induction a using Annotation.strip.induct with
  | case1 a ih => rw [strip, ih]
  | case2 a ih => rw [strip, strip, ih]
  | case3 a hannotated hnullable =>
      cases a with
      | annotated a => exact absurd rfl (hannotated a)
      | nullable a => exact absurd rfl (hnullable a)
      | _ => rfl

/-! ## Generated models -/

namespace DtoDeclaration

variable (D : DtoDeclaration)

/-- `_build_response_model`, of the fields that are included. -/
def responseModel (included : String → Bool) : List ModelField :=
  (D.fields.filter fun field => included field.1).map fun (name, annotation, _) =>
    { name, annotation := annotation.strip, secret := isSecretAnnotation annotation }

/-- `derive_dto`: every field is declared again with the base of its annotation and with its merged
configuration. -/
def derive (merge : String → DtoField → DtoField) : DtoDeclaration where
  fields := D.fields.map fun (name, annotation, config) =>
    (name, .annotated annotation.strip, merge name config)
  nodup := by
    rw [List.map_map]
    exact D.nodup
  wellFormed field hfield := by
    obtain ⟨declared, hdeclared, rfl⟩ := List.mem_map.mp hfield
    exact (D.wellFormed declared hdeclared).strip

/-- A chain of derivations. -/
def deriveAll (merges : List (String → DtoField → DtoField)) : DtoDeclaration :=
  merges.foldl derive D

end DtoDeclaration

/-! ## Dumps in JSON mode -/

section
variable (json : Scalar → Scalar)

mutual

/-- `model_dump(mode="json")` of a value without a serializer of its own, with how a scalar is
written. -/
def dumpJson : DtoValue → DtoValue
  | .model _ fields => .dict (dumpJsonFields fields)
  | .secret plain => .scalar (.str (maskSecret plain))
  | .scalar s => .scalar (json s)
  | v => v

def dumpJsonFields : List (String × Bool × DtoValue) → List (String × DtoValue)
  | [] => []
  | (name, _, v) :: fields => (name, dumpJson v) :: dumpJsonFields fields

end

variable (lib : ModelLibrary)

/-- The dump of a field in JSON mode. -/
def ModelField.dumpJson (field : ModelField) (ctx : SecretContext) (v : DtoValue) : DtoValue :=
  if field.secret then serializeSecret lib ctx v else Resourcey.dumpJson json v

/-- **A secret field should follow the context**: redacted without one, in plaintext if it exposes
secrets, and a ciphertext if it has an encryption service, which is loaded as the value again. A null
is kept, if the field admits it. -/
structure SecretFollows (field : ModelField) : Prop where
  redacted : ∀ s, field.dumpJson json lib {} (.secret s) = .scalar (.str (maskSecret s))
  exposed : ∀ s, field.dumpJson json lib { exposeSecrets := true } (.secret s) = .scalar (.str s)
  encrypted : ∀ encrypt decrypt exposeSecrets s, field.dumpJson json lib
    ⟨some encrypt, some decrypt, exposeSecrets⟩ (.secret s) = .scalar (.str (encrypt s))
  loaded : ∀ encrypt decrypt exposeSecrets s now, decrypt (encrypt s) = s →
    field.load lib ⟨some encrypt, some decrypt, exposeSecrets⟩ now (.scalar (.str (encrypt s))) =
      some (.secret s)
  dumpedNone : ∀ ctx, field.dumpJson json lib ctx .none = .none
  loadedNone : ∀ ctx now, field.annotation.hasNone = true → field.load lib ctx now .none = some .none

end

section
variable {json : Scalar → Scalar} {lib : ModelLibrary} {field : ModelField}

/-- A field with the serializer and the validator of a secret follows the context. -/
theorem secretFollows_of_secret (hsecret : field.secret = true) (ha : field.annotation = .secret) :
    SecretFollows json lib field where
  redacted s := by simp [ModelField.dumpJson, hsecret, serializeSecret, dumpSecretStr]
  exposed s := by simp [ModelField.dumpJson, hsecret, serializeSecret, dumpSecretStr]
  encrypted encrypt decrypt exposeSecrets s := by
    simp [ModelField.dumpJson, hsecret, serializeSecret, dumpSecretStr]
  loaded encrypt decrypt exposeSecrets s now h := by
    simp [ModelField.load, hsecret, ha, validateSecret, loadSecretStr, pyStr, h, validate]
  dumpedNone ctx := by simp [ModelField.dumpJson, hsecret, serializeSecret]
  loadedNone ctx now h := by
    rw [ha] at h
    cases h

/-- One without them does not: it is redacted even for a context that exposes secrets. -/
theorem not_secretFollows (hsecret : field.secret = false) : ¬ SecretFollows json lib field := by
  intro h
  have hexposed := h.exposed "a"
  rw [ModelField.dumpJson, hsecret, if_neg Bool.false_ne_true, Resourcey.dumpJson] at hexposed
  exact absurd (Scalar.str.inj (DtoValue.scalar.inj hexposed)) (by decide)

end

/-- The fields of a derived declaration have the stripped annotations of those derived from. -/
theorem DtoDeclaration.mem_deriveAll {D : DtoDeclaration}
    {merges : List (String → DtoField → DtoField)} {name : String} {a : Annotation}
    {config : DtoField} (h : (name, a, config) ∈ (D.deriveAll merges).fields) :
    ∃ b config', (name, b, config') ∈ D.fields ∧ a.strip = b.strip := by
  induction merges generalizing D with
  | nil => exact ⟨a, config, h, rfl⟩
  | cons merge merges ih =>
      obtain ⟨b, config', hmem, hstrip⟩ := ih (D := D.derive merge) h
      obtain ⟨⟨name', c, config''⟩, hdeclared, heq⟩ := List.mem_map.mp hmem
      cases heq
      refine ⟨c, config'', hdeclared, ?_⟩
      rw [hstrip, Annotation.strip, Annotation.strip_strip]

/-- No field is lost. -/
theorem DtoDeclaration.exists_mem_deriveAll {D : DtoDeclaration}
    {merges : List (String → DtoField → DtoField)} {name : String} {a : Annotation}
    {config : DtoField} (h : (name, a, config) ∈ D.fields) :
    ∃ b config', (name, b, config') ∈ (D.deriveAll merges).fields := by
  induction merges generalizing D a config with
  | nil => exact ⟨a, config, h⟩
  | cons merge merges ih => exact ih (D := D.derive merge) (List.mem_map.mpr ⟨_, h, rfl⟩)

/-- A field of the DTO model or of a response model. -/
theorem DtoDeclaration.mem_generated {D : DtoDeclaration} {included : String → Bool}
    {field : ModelField} (h : field ∈ D.dtoModel ∨ field ∈ D.responseModel included) :
    ∃ a config, (field.name, a, config) ∈ D.fields ∧ field.annotation = a.strip ∧
      field.secret = isSecretAnnotation a := by
  rcases h with h | h
  · obtain ⟨⟨name, a, config⟩, hmem, rfl⟩ := List.mem_map.mp h
    exact ⟨a, config, hmem, rfl, rfl⟩
  · obtain ⟨⟨name, a, config⟩, hmem, rfl⟩ := List.mem_map.mp h
    exact ⟨a, config, (List.mem_filter.mp hmem).1, rfl, rfl⟩

/-- **A secret field of the DTO model and of every response model follows the context** exactly if
its annotation has no union with `None`, in the declaration and in all that are derived of it. -/
theorem secretFollows_iff (json : Scalar → Scalar) (lib : ModelLibrary) (D : DtoDeclaration)
    (merges : List (String → DtoField → DtoField)) (included : String → Bool) {name : String}
    {a : Annotation} {config : DtoField} (hdeclared : (name, a, config) ∈ D.fields)
    (ha : a.OfSecret) :
    (∀ field, field ∈ (D.deriveAll merges).dtoModel ∨
        field ∈ (D.deriveAll merges).responseModel included → field.name = name →
          SecretFollows json lib field) ↔ a.hasNone = false := by
  have hgenerated : ∀ field, field ∈ (D.deriveAll merges).dtoModel ∨
      field ∈ (D.deriveAll merges).responseModel included → field.name = name →
        field.annotation = a.strip ∧ field.secret = isSecretAnnotation a := by
    rintro field hfield rfl
    obtain ⟨b, config', hmem, hstripped, hsecret⟩ := DtoDeclaration.mem_generated hfield
    obtain ⟨c, config'', hsource, hstrip⟩ := DtoDeclaration.mem_deriveAll hmem
    have hsame := List.inj_on_of_nodup_map D.nodup hsource hdeclared rfl
    cases hsame
    exact ⟨hstripped.trans hstrip, by rw [hsecret, isSecretAnnotation, hstrip, isSecretAnnotation]⟩
  constructor
  · intro h
    obtain ⟨b, config', hmem⟩ : ∃ b config', (name, b, config') ∈ (D.deriveAll merges).fields :=
      DtoDeclaration.exists_mem_deriveAll hdeclared
    let field : ModelField :=
      { name, annotation := b.strip, secret := isSecretAnnotation b, orMissing := true,
        default := some fun _ => .missing }
    have hfield : field ∈ (D.deriveAll merges).dtoModel := List.mem_map.mpr ⟨_, hmem, rfl⟩
    by_contra hnone
    have hsecret := (hgenerated field (.inl hfield) rfl).2
    rw [ha.isSecretAnnotation_eq, Bool.eq_true_of_not_eq_false hnone] at hsecret
    exact not_secretFollows hsecret (h field (.inl hfield) rfl)
  · intro hnone field hfield hname
    obtain ⟨hstripped, hsecret⟩ := hgenerated field hfield hname
    rw [ha.isSecretAnnotation_eq, hnone] at hsecret
    exact secretFollows_of_secret hsecret (hstripped.trans (ha.strip_of_not_hasNone hnone))

/-- The secret of an account, in a response of a view of it. -/
theorem secretFollows_account :
    SecretFollows id .strict { name := "token", annotation := .secret, secret := true } :=
  (@secretFollows_iff id .strict .account [fun _ config => config] (fun _ => true) "token" .secret {}
    (by simp [DtoDeclaration.account]) .secret).mpr rfl _ (.inr (by simp [DtoDeclaration.deriveAll, DtoDeclaration.derive,
      DtoDeclaration.account, DtoDeclaration.responseModel, isSecretAnnotation, Annotation.strip]))
      rfl

/-- A declaration with a secret that may be null. -/
def DtoDeclaration.guest : DtoDeclaration where
  fields := [("token", .nullable .secret, {})]
  nodup := by simp
  wellFormed field hfield := by
    obtain rfl := List.mem_singleton.mp hfield
    trivial

/-- A secret that may be null is its stars to a context that exposes secrets and to one that encrypts
them, and a ciphertext of it is loaded as it is. -/
theorem not_secretFollows_guest : ∃ field ∈ DtoDeclaration.guest.dtoModel,
    field.name = "token" ∧
    field.dumpJson id .strict { exposeSecrets := true } (.secret "hunter2") =
      .scalar (.str "**********") ∧
    field.dumpJson id .strict ⟨some ("jwe:" ++ ·), some fun s => String.ofList (s.toList.drop 4), false⟩
      (.secret "hunter2") = .scalar (.str "**********") ∧
    field.load .strict ⟨some ("jwe:" ++ ·), some fun s => String.ofList (s.toList.drop 4), false⟩ 0
      (.scalar (.str "jwe:hunter2")) = some (.secret "jwe:hunter2") ∧
    ¬ SecretFollows id .strict field := by
  exact ⟨_, List.mem_cons_self, rfl, rfl, rfl, rfl, not_secretFollows rfl⟩

end Resourcey
