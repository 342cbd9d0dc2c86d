import Mathlib.Data.Int.Notation
import Resourcey.Logic.JsonText

/-!
# The encryption service

`EncryptionService` encrypts values and claims as JWE tokens under the encryption key of a
configuration, and decrypts a token under the key that its `kid` names. The JWE library is a
parameter, of which only this matters: it decrypts under the key it encrypted with and no other, and
carries the header (`JweLibrary`). Whether a key's tokens are decrypted under a configuration depends
on the key alone (`decrypt_encrypt_iff`); `rotatesKeys_iff` says what that makes of a history of
configurations.

What is encrypted is a JSON object, not its text.
-/

namespace Resourcey

/-! ## Claims -/

/-- A JSON object, each key once. -/
abbrev Claims := List (String × JsonTree)

/-- `{**claims, key: value}`. -/
def Claims.set : Claims → String → JsonTree → Claims
  | [], key, value => [(key, value)]
  | (k, v) :: claims, key, value =>
    if k = key then (key, value) :: claims else (k, v) :: set claims key value

theorem Claims.lookup_set (claims : Claims) (key key' : String) (value : JsonTree) :
    (claims.set key value).lookup key' = if key' = key then some value else claims.lookup key' := by
  induction claims with
  | nil =>
      rw [Claims.set, List.lookup_cons]
      rcases eq_or_ne key' key with rfl | h
      · rw [beq_self_eq_true, if_pos rfl]
      · rw [beq_eq_false_iff_ne.mpr h, if_neg h]
  | cons claim claims ih =>
      obtain ⟨k, v⟩ := claim
      rw [Claims.set]
      rcases eq_or_ne k key with rfl | hk
      · rw [if_pos rfl, List.lookup_cons, List.lookup_cons]
        rcases eq_or_ne key' k with rfl | h
        · rw [beq_self_eq_true, if_pos rfl]
        · rw [beq_eq_false_iff_ne.mpr h, if_neg h]
      · rw [if_neg hk, List.lookup_cons, ih, List.lookup_cons]
        rcases eq_or_ne key' k with rfl | h
        · simp [hk]
        · simp [beq_eq_false_iff_ne.mpr h]

/-! ## Keys -/

/-- `EncryptionKeyConfig`. -/
structure EncryptionKeyConfig where
  id : String := "default"
  value : String
  deriving DecidableEq

/-- `_default_encryption_key`. -/
def defaultEncryptionKey : EncryptionKeyConfig where
  value := "changeme"

/-- An `EncryptionKeysConfig` that was accepted: the encryption key's id is among those of the
decryption keys. -/
structure EncryptionKeysConfig where
  encryptionKey : EncryptionKeyConfig
  decryptionKeys : List EncryptionKeyConfig
  included : ∃ k ∈ decryptionKeys, k.id = encryptionKey.id

/-- `_ensure_encryption_key_in_decryption_keys`. -/
def EncryptionKeysConfig.validate (encryptionKey : EncryptionKeyConfig := defaultEncryptionKey)
    (decryptionKeys : List EncryptionKeyConfig := []) : EncryptionKeysConfig :=
  if h : ∃ k ∈ decryptionKeys, k.id = encryptionKey.id then ⟨encryptionKey, decryptionKeys, h⟩
  else ⟨encryptionKey, encryptionKey :: decryptionKeys, encryptionKey, List.mem_cons_self, rfl⟩

/-- `_decryption_keys`: of the keys with an id, the last. -/
def EncryptionKeysConfig.decryptionKey? (c : EncryptionKeysConfig) (id : String) :
    Option EncryptionKeyConfig :=
  c.decryptionKeys.reverse.find? fun k => k.id = id

/-! ## Tokens -/

/-- The JWE library. A token is encrypted with a nonce, under a header with a `kid` and a key. What
its protected header says of the `kid` can be read if the token has the format of one, and
decryption raises, or finds no plaintext or the one that was encrypted. -/
structure JweLibrary (σ τ : Type) [DecidableEq σ] where
  encryptCompact : ℕ → String → σ → Claims → τ
  protectedHeader : τ → Option (Option String)
  decryptCompact : τ → σ → Option (Option Claims)
  header_encrypt : ∀ nonce kid key claims,
    protectedHeader (encryptCompact nonce kid key claims) = some (some kid)
  decrypt_encrypt : ∀ nonce kid key claims key',
    decryptCompact (encryptCompact nonce kid key claims) key' =
      if key' = key then some (some claims) else none

/-- What decryption raises. -/
inductive DecryptionError where
  | valueError (message : String)
  | keyError (key : String)
  deriving DecidableEq

/-- The seconds of a time in microseconds: `int(t.timestamp())`. -/
def timestamp (t : ℤ) : ℤ := t.tdiv 1000000

/-- `EncryptionService`: its configuration and what it uses of its environment. `deriveKey` is
`_derive_symmetric_key`, and `str` makes a text of a JSON value. -/
structure EncryptionService (σ τ : Type) [DecidableEq σ] where
  config : EncryptionKeysConfig
  library : JweLibrary σ τ
  deriveKey : String → σ
  str : JsonTree → String
  str_str : ∀ s, str (.str s) = s

namespace EncryptionService

variable {σ τ : Type} [DecidableEq σ] (e : EncryptionService σ τ)

/-- `_jwe_kid`. -/
def jweKid (token : τ) : Except DecryptionError String :=
  match e.library.protectedHeader token with
  | none => .error (.valueError "Invalid JWE token format")
  | some none => .error (.valueError "Token does not contain 'kid' header with key ID")
  | some (some id) =>
    if id = "" then .error (.valueError "Token does not contain 'kid' header with key ID")
    else .ok id

/-- `_get_decryption_key`. -/
def getDecryptionKey (id : String) : Except DecryptionError EncryptionKeyConfig :=
  match e.config.decryptionKey? id with
  | none => .error (.valueError ("Key ID '" ++ id ++ "' not found"))
  | some key => .ok key

/-- What `create_jwe_token` and `encrypt_value` share. -/
def encrypt (nonce : ℕ) (claims : Claims) : τ :=
  e.library.encryptCompact nonce e.config.encryptionKey.id
    (e.deriveKey e.config.encryptionKey.value) claims

/-- The claims of a token with its times. -/
def stamped (now : ℤ) (claims : Claims) (expiresIn : Option ℤ) : Claims :=
  let stamped := claims.set "iat" (.int (timestamp now))
  match expiresIn with
  | none => stamped
  | some d => stamped.set "exp" (.int (timestamp (now + d)))

/-- `create_jwe_token`. -/
def createJweToken (nonce : ℕ) (now : ℤ) (claims : Claims) (expiresIn : Option ℤ) : τ :=
  e.encrypt nonce (stamped now claims expiresIn)

/-- `decrypt_jwe_token`. -/
def decryptJweToken (token : τ) : Except DecryptionError Claims := do
  let id ← e.jweKid token
  let key ← e.getDecryptionKey id
  match e.library.decryptCompact token (e.deriveKey key.value) with
  | none => throw (.valueError "Token decryption failed")
  | some none => throw (.valueError "Decryption produced no plaintext")
  | some (some claims) => return claims

/-- `encrypt_value`. -/
def encryptValue (nonce : ℕ) (plaintext : String) : τ := e.encrypt nonce [("v", .str plaintext)]

/-- `decrypt_value`. -/
def decryptValue (ciphertext : τ) : Except DecryptionError String := do
  let claims ← e.decryptJweToken ciphertext
  match claims.lookup "v" with
  | none => throw (.keyError "v")
  | some v => return e.str v

end EncryptionService

/-! ## Round trips and rotation -/

/-- Tokens under the key are decrypted with the keys: it has an id, and the last of the keys with
that id is derived from the same secret. -/
def Opens {σ : Type} (deriveKey : String → σ) (keys : List EncryptionKeyConfig)
    (k : EncryptionKeyConfig) : Prop :=
  k.id ≠ "" ∧ ∃ before k' after, keys = before ++ k' :: after ∧ k'.id = k.id ∧
    (∀ other ∈ after, other.id ≠ k.id) ∧ deriveKey k'.value = deriveKey k.value

theorem EncryptionKeysConfig.decryptionKey?_eq_some_iff (c : EncryptionKeysConfig) {id : String}
    {k : EncryptionKeyConfig} :
    c.decryptionKey? id = some k ↔ k.id = id ∧ ∃ before after,
      c.decryptionKeys = before ++ k :: after ∧ ∀ other ∈ after, other.id ≠ id := by
  rw [decryptionKey?, List.find?_eq_some_iff_append]
  constructor
  · rintro ⟨hk, after, before, heq, hafter⟩
    refine ⟨by simpa using hk, before.reverse, after.reverse, ?_, by simpa using hafter⟩
    rw [← List.reverse_reverse c.decryptionKeys, heq]
    simp
  · rintro ⟨hk, before, after, heq, hafter⟩
    refine ⟨by simpa using hk, after.reverse, before.reverse, ?_, by simpa using hafter⟩
    rw [heq]
    simp

/-- A key whose id no listed key has is added, and its tokens are decrypted. -/
theorem opens_validate {σ : Type} (deriveKey : String → σ) {k : EncryptionKeyConfig}
    {keys : List EncryptionKeyConfig} (hid : k.id ≠ "") (hnew : ∀ k' ∈ keys, k'.id ≠ k.id) :
    Opens deriveKey (EncryptionKeysConfig.validate k keys).decryptionKeys k := by
  have hnone : ¬ ∃ k' ∈ keys, k'.id = k.id := by
    rintro ⟨k', hk', heq⟩
    exact hnew k' hk' heq
  rw [EncryptionKeysConfig.validate, dif_neg hnone]
  exact ⟨hid, [], k, keys, rfl, rfl, hnew, rfl⟩

namespace EncryptionService

variable {σ τ : Type} [DecidableEq σ] (e : EncryptionService σ τ)

/-- The service of another configuration. -/
def under (c : EncryptionKeysConfig) : EncryptionService σ τ := { e with config := c }

/-- **Which tokens are decrypted.** A token is decrypted under the keys that open its key, to the
claims that were encrypted. -/
theorem decrypt_encrypt_iff (c : EncryptionKeysConfig) (nonce : ℕ) (claims claims' : Claims) :
    (e.under c).decryptJweToken (e.encrypt nonce claims) = .ok claims' ↔
      Opens e.deriveKey c.decryptionKeys e.config.encryptionKey ∧ claims' = claims := by
  have hheader : (e.under c).library.protectedHeader (e.encrypt nonce claims) =
      some (some e.config.encryptionKey.id) := e.library.header_encrypt _ _ _ _
  have hdecrypt : ∀ key, (e.under c).library.decryptCompact (e.encrypt nonce claims) key =
      if key = e.deriveKey e.config.encryptionKey.value then some (some claims) else none :=
    e.library.decrypt_encrypt _ _ _ _
  rcases eq_or_ne e.config.encryptionKey.id "" with hid | hid
  · simp [decryptJweToken, jweKid, hheader, hid, Opens, bind, Except.bind]
  · rcases hkey : c.decryptionKey? e.config.encryptionKey.id with _ | k
    · -- No key has the id, so no key can be the last one that has it.
      have hclosed : ¬ Opens e.deriveKey c.decryptionKeys e.config.encryptionKey := by
        rintro ⟨-, before, k', after, heq, hk', hafter, -⟩
        have hsome := c.decryptionKey?_eq_some_iff.mpr ⟨hk', before, after, heq, hafter⟩
        rw [hkey] at hsome
        nomatch hsome
      have hconfig : (e.under c).config.decryptionKey? e.config.encryptionKey.id = none := hkey
      simp [decryptJweToken, jweKid, getDecryptionKey, hheader, hid, hconfig, hclosed, bind,
        Except.bind]
    · have hconfig : (e.under c).config.decryptionKey? e.config.encryptionKey.id = some k := hkey
      have hopens : Opens e.deriveKey c.decryptionKeys e.config.encryptionKey ↔
          e.deriveKey k.value = e.deriveKey e.config.encryptionKey.value := by
        constructor
        · rintro ⟨-, before, k', after, heq, hk', hafter, hvalue⟩
          have hsome := c.decryptionKey?_eq_some_iff.mpr ⟨hk', before, after, heq, hafter⟩
          rw [hkey] at hsome
          rwa [Option.some.inj hsome]
        · intro hvalue
          obtain ⟨hk, before, after, heq, hafter⟩ := c.decryptionKey?_eq_some_iff.mp hkey
          exact ⟨hid, before, k, after, heq, hk, hafter, hvalue⟩
      have hderive : (e.under c).deriveKey = e.deriveKey := rfl
      rcases em (e.deriveKey k.value = e.deriveKey e.config.encryptionKey.value) with h | h
      · simp [decryptJweToken, jweKid, getDecryptionKey, hheader, hid, hconfig, hdecrypt, hopens,
          hderive, h, bind, Except.bind, pure, Except.pure, eq_comm]
      · simp [decryptJweToken, jweKid, getDecryptionKey, hheader, hid, hconfig, hdecrypt, hopens,
          hderive, h, bind, Except.bind]

/-- The claims of a token are the given ones, but for its times. -/
theorem lookup_stamped (now : ℤ) (claims : Claims) (expiresIn : Option ℤ) (key : String) :
    (stamped now claims expiresIn).lookup key =
      if key = "exp" ∧ expiresIn ≠ none then
        expiresIn.map fun d => .int (timestamp (now + d))
      else if key = "iat" then some (.int (timestamp now)) else claims.lookup key := by
  rcases expiresIn with _ | d
  · simp [stamped, Claims.lookup_set]
  · simp [stamped, Claims.lookup_set]

theorem lookup_stamped_of_ne (now : ℤ) (claims : Claims) (expiresIn : Option ℤ) {key : String}
    (hexp : key ≠ "exp") (hiat : key ≠ "iat") :
    (stamped now claims expiresIn).lookup key = claims.lookup key := by
  rw [lookup_stamped, if_neg fun h => hexp h.1, if_neg hiat]

/-- What is encrypted under a configuration is decrypted under it: values as they were, claims with
the time of issue and, when it was asked for, of expiry. -/
structure RoundTrips : Prop where
  values : ∀ nonce x, e.decryptValue (e.encryptValue nonce x) = .ok x
  tokens : ∀ nonce now claims expiresIn, ∃ claims',
    e.decryptJweToken (e.createJweToken nonce now claims expiresIn) = .ok claims' ∧
      (∀ d ∈ expiresIn, claims'.lookup "exp" = some (.int (timestamp (now + d)))) ∧
      claims'.lookup "iat" = some (.int (timestamp now)) ∧
      ∀ key, key ≠ "iat" → (key = "exp" → expiresIn = none) →
        claims'.lookup key = claims.lookup key

/-- Over the history, oldest first, each configuration decrypts what it encrypted, and each later
one every value that it encrypted. -/
def RotatesKeys (history : List EncryptionKeysConfig) : Prop :=
  (∀ c ∈ history, (e.under c).RoundTrips) ∧
    history.Pairwise fun earlier later => ∀ nonce x,
      (e.under later).decryptValue ((e.under earlier).encryptValue nonce x) = .ok x

theorem decryptValue_encryptValue_iff (c : EncryptionKeysConfig) (nonce : ℕ) (x : String) :
    (e.under c).decryptValue (e.encryptValue nonce x) = .ok x ↔
      Opens e.deriveKey c.decryptionKeys e.config.encryptionKey := by
  have hiff := e.decrypt_encrypt_iff c nonce [("v", .str x)]
  constructor
  · intro h
    rcases hclaims : (e.under c).decryptJweToken (e.encryptValue nonce x) with error | claims
    · simp [decryptValue, hclaims, bind, Except.bind] at h
    · exact ((hiff claims).mp hclaims).1
  · intro h
    have hclaims : (e.under c).decryptJweToken (e.encryptValue nonce x) = .ok [("v", .str x)] :=
      (hiff _).mpr ⟨h, rfl⟩
    have hstr : (e.under c).str (.str x) = x := e.str_str x
    simp [decryptValue, hclaims, hstr, bind, Except.bind, pure, Except.pure]

theorem roundTrips_iff (c : EncryptionKeysConfig) :
    (e.under c).RoundTrips ↔ Opens e.deriveKey c.decryptionKeys c.encryptionKey := by
  have hvalues := (e.under c).decryptValue_encryptValue_iff c
  constructor
  · intro h
    exact (hvalues 0 "").mp (h.values 0 "")
  · intro h
    refine ⟨fun nonce x => (hvalues nonce x).mpr h, fun nonce now claims expiresIn => ?_⟩
    refine ⟨stamped now claims expiresIn,
      ((e.under c).decrypt_encrypt_iff c nonce _ _).mpr ⟨h, rfl⟩, ?_, ?_, ?_⟩
    · intro d hd
      rw [Option.mem_def.mp hd, lookup_stamped, if_pos ⟨rfl, Option.some_ne_none d⟩]
      rfl
    · rw [lookup_stamped, if_neg (by simp), if_pos rfl]
    · intro key hiat hexp
      rw [lookup_stamped, if_neg fun h => h.2 (hexp h.1), if_neg hiat]

/-- **When keys rotate without losing data.** Over any history of configurations, all that was
encrypted is decrypted if and only if each configuration opens its own encryption key and those of
the configurations before it. -/
theorem rotatesKeys_iff (history : List EncryptionKeysConfig) :
    e.RotatesKeys history ↔
      (∀ c ∈ history, Opens e.deriveKey c.decryptionKeys c.encryptionKey) ∧
        history.Pairwise fun earlier later =>
          Opens e.deriveKey later.decryptionKeys earlier.encryptionKey := by
  refine and_congr (forall₂_congr fun c _ => e.roundTrips_iff c) ?_
  refine List.Pairwise.iff fun earlier later => ?_
  have hiff := (e.under earlier).decryptValue_encryptValue_iff later
  constructor
  · intro h
    exact (hiff 0 "").mp (h 0 "")
  · intro h nonce x
    exact (hiff nonce x).mpr h

/-- A service whose tokens are their key and claims in clear. -/
def clear (c : EncryptionKeysConfig) : EncryptionService String (String × String × Claims) where
  config := c
  library :=
    { encryptCompact := fun _ kid key claims => (kid, key, claims)
      protectedHeader := fun token => some (some token.1)
      decryptCompact := fun token key =>
        if key = token.2.1 then some (some token.2.2) else none
      header_encrypt := fun _ _ _ _ => rfl
      decrypt_encrypt := fun _ _ _ _ _ => rfl }
  deriveKey := id
  str := fun
    | .str s => s
    | _ => ""
  str_str := fun _ => rfl

/-- The secret of the key without an id is replaced, the old key is kept for decryption, and what is
encrypted from then on is decrypted no more; nor is anything under a key whose id is empty. -/
theorem not_rotatesKeys_sharedId :
    let old : EncryptionKeyConfig := { value := "old" }
    let new : EncryptionKeyConfig := { value := "new" }
    let unnamed : EncryptionKeyConfig := { id := "", value := "secret" }
    let first := EncryptionKeysConfig.validate old []
    let second := EncryptionKeysConfig.validate new [old]
    first.encryptionKey ∈ second.decryptionKeys ∧ ¬ (clear first).RotatesKeys [first, second] ∧
      ¬ (clear first).RotatesKeys [EncryptionKeysConfig.validate unnamed []] := by
  intro old new unnamed first second
  refine ⟨by decide, fun h => ?_, fun h => ?_⟩
  · have hvalue := (h.1 second (by simp)).values 0 "x"
    nomatch hvalue
  · have hvalue := (h.1 _ (List.mem_singleton_self _)).values 0 "x"
    nomatch hvalue

end EncryptionService

end Resourcey
