import Mathlib.Data.Nat.Digits.Lemmas
import Resourcey.Auth.Authentication
import Resourcey.Logic.PyText
import Resourcey.Logic.Trace

/-!
# API keys

A key is minted from a random secret, its digest is stored, and a presented text is looked up by its
digest. The rows are created, updated and deleted through a view that hides the key, so a digest is
never written but by `create`.

What the keys are for is kept beside the table: which secrets were minted, and with what. A
presented text authenticates exactly as the ledger of the minted keys says
(`authenticate_eq_ledger`), and once a key is deleted its text is refused for ever
(`deleted_key_refused`).
-/

namespace Resourcey

/-! ## Keys -/

/-- `_BASE36_ALPHABET`. -/
def base36Alphabet : List Char := "0123456789abcdefghijklmnopqrstuvwxyz".toList

/-- A digit to the base 36. -/
def base36Digit (d : ℕ) : Char := base36Alphabet.getD d '0'

/-- `encode_base36`. -/
def encodeBase36 (value width : ℕ) : List Char :=
  ((Nat.digits 36 value).map base36Digit).reverse.leftpad width '0'

/-- `generate_api_key`, of the number of the random bytes. -/
def generateApiKey (secret : ℕ) : String := "rsk_" ++ String.ofList (encodeBase36 secret 50)

/-- The value of a digit. -/
def base36Value (c : Char) : ℕ := base36Alphabet.idxOf c

theorem base36Value_digit {d : ℕ} (h : d < 36) : base36Value (base36Digit d) = d := by
  have hall : ∀ d < 36, base36Value (base36Digit d) = d := by decide
  exact hall d h

/-- The number is read back from its digits, whatever zeros are put before it. -/
theorem ofDigits_encodeBase36 (value width : ℕ) :
    Nat.ofDigits 36 ((encodeBase36 value width).reverse.map base36Value) = value := by
  have hdigits : ((Nat.digits 36 value).map base36Digit).map base36Value = Nat.digits 36 value := by
    rw [List.map_map]
    refine (List.map_congr_left fun d hd => ?_).trans (List.map_id _)
    exact base36Value_digit (Nat.digits_lt_base (by decide) hd)
  have hzero : base36Value '0' = 0 := by decide
  rw [encodeBase36, List.leftpad, List.reverse_append, List.reverse_reverse, List.reverse_replicate,
    List.map_append, hdigits, List.map_replicate, hzero, Nat.ofDigits_append,
    Nat.ofDigits_replicate_zero, Nat.ofDigits_digits, Nat.mul_zero, Nat.add_zero]

theorem toList_generateApiKey (secret : ℕ) :
    (generateApiKey secret).toList = "rsk_".toList ++ encodeBase36 secret 50 := by
  simp only [generateApiKey, String.toList_append, String.toList_ofList]

/-- Different secrets make different keys. -/
theorem generateApiKey_injective : Function.Injective generateApiKey := by
  intro x y h
  have hlist := congrArg String.toList h
  rw [toList_generateApiKey, toList_generateApiKey, List.append_cancel_left_eq] at hlist
  rw [← ofDigits_encodeBase36 x 50, hlist, ofDigits_encodeBase36]

/-- All keys are of one length: 256 bits fit in 50 digits. -/
theorem length_generateApiKey {secret : ℕ} (h : secret < 2 ^ 256) :
    (generateApiKey secret).toList.length = 54 := by
  have hdigits : (Nat.digits 36 secret).length ≤ 50 :=
    (Nat.digits_length_le_iff (by decide) secret).mpr (h.trans (by norm_num))
  rw [toList_generateApiKey, List.length_append, encodeBase36, List.length_leftpad,
    List.length_reverse, List.length_map, Nat.max_eq_left hdigits]
  rfl

theorem generateApiKey_ne_empty (secret : ℕ) : generateApiKey secret ≠ "" := by
  intro h
  have hlist := congrArg String.toList h
  rw [toList_generateApiKey] at hlist
  cases hlist

/-! ## Rows -/

/-- The columns of a key that requests write. Times are instants. -/
structure ApiKeyFields where
  name : Option String := none
  userId : Option ℕ := none
  roles : List String := []
  active : Bool := true
  expiresAt : Option ℤ := none

/-- `ApiKey`. Its key is the digest. -/
structure ApiKey extends ApiKeyFields where
  id : ℕ
  key : String

/-- An update of a key. A field that is absent stays. -/
structure ApiKeyUpdate where
  name : Option (Option String) := none
  userId : Option (Option ℕ) := none
  roles : Option (List String) := none
  active : Option Bool := none
  expiresAt : Option (Option ℤ) := none

/-- The fields after an update. -/
def ApiKeyUpdate.apply (u : ApiKeyUpdate) (f : ApiKeyFields) : ApiKeyFields where
  name := u.name.getD f.name
  userId := u.userId.getD f.userId
  roles := u.roles.getD f.roles
  active := u.active.getD f.active
  expiresAt := u.expiresAt.getD f.expiresAt

/-- `_key_is_live`. -/
def ApiKeyFields.isLive (f : ApiKeyFields) (now : ℤ) : Bool :=
  f.active && f.expiresAt.all (now < ·)

/-- `find_by_key`. -/
def findByKey (rows : List ApiKey) (digest : String) : Option ApiKey :=
  rows.find? fun row => row.key = digest

/-! ## The authenticator -/

/-- The headers that may carry a key. -/
structure KeyHeaders where
  xApiKey : Option String := none
  authorization : Option String := none

/-- `authorization[len("bearer "):].strip()`, of a header that begins so. -/
def bearerToken (authorization : Option String) : String :=
  match authorization with
  | none => ""
  | some text =>
    if "bearer ".toList <+: PyText.lower text.toList then
      String.ofList (PyText.strip (text.toList.drop 7))
    else ""

/-- The key that is presented, or nothing. -/
def KeyHeaders.presented (h : KeyHeaders) : String :=
  match h.xApiKey with
  | some text => if text = "" then bearerToken h.authorization else text
  | none => bearerToken h.authorization

/-- A key in its own header is presented. -/
theorem presented_xApiKey {text : String} (h : text ≠ "") :
    KeyHeaders.presented { xApiKey := some text } = text := if_neg h

/-- `roles_from_credential` of a list. -/
def rolesFromCredential (roles : List String) : List String :=
  (roles.map fun role => String.ofList (PyText.strip role.toList)).filter (· ≠ "")

/-- `ApiKeyAuthenticator`, on stored keys. The store of users, if there is one, finds a user or not,
and says whether they are enabled. -/
structure ApiKeyAuthenticator where
  hasKeyResource : Bool := true
  principalId : Option ℕ := none
  users : Option (ℕ → Option Bool) := none

namespace ApiKeyAuthenticator

variable (hash : String → String) (a : ApiKeyAuthenticator)

/-- `principal_is_active`. -/
def principalIsActive (principal : FullPrincipal) : Bool :=
  match a.users, principal.id with
  | some users, some id => (users id).getD false
  | _, _ => true

/-- `_principal_for`. -/
def principalFor (row : ApiKeyFields) : FullPrincipal :=
  match row.userId with
  | some owner => { id := some owner, roles := rolesFromCredential row.roles, kind := .user }
  | none => { id := a.principalId, roles := rolesFromCredential row.roles, kind := .service }

/-- `lookup_api_key`. -/
def lookupApiKey (rows : List ApiKey) (now : ℤ) (presented : String) : Option ApiKey :=
  if presented = "" ∨ ¬ a.hasKeyResource then none
  else (findByKey rows (hash presented)).filter fun row => row.isLive now

/-- `authenticate`. -/
def authenticate (rows : List ApiKey) (now : ℤ) (headers : KeyHeaders) : AuthResult :=
  if headers.presented = "" then .absent
  else
    match a.lookupApiKey hash rows now headers.presented with
    | none => .invalid
    | some row =>
      if a.principalIsActive (a.principalFor row.toApiKeyFields) then
        .authenticated (a.principalFor row.toApiKeyFields) false
      else .invalid

end ApiKeyAuthenticator

/-! ## The life of a key -/

/-- A key that was minted. -/
structure MintedKey where
  secret : ℕ
  id : ℕ
  fields : ApiKeyFields

/-- The table, and the keys that were minted and not deleted. -/
structure KeyState where
  rows : List ApiKey := []
  ledger : List MintedKey := []

/-- A request to the keys. A creation has the random bytes and the generated identifier. -/
inductive KeyAction where
  | create (secret id : ℕ) (fields : ApiKeyFields)
  | update (id : ℕ) (change : ApiKeyUpdate)
  | delete (id : ℕ)

section
variable (hash : String → String)

/-- The row of a minted key. -/
def MintedKey.row (m : MintedKey) : ApiKey :=
  { m.fields with id := m.id, key := hash (generateApiKey m.secret) }

/-- `StoredApiKeyService.create`. Identifiers and digests are unique. -/
def createKey (rows : List ApiKey) (secret id : ℕ) (fields : ApiKeyFields) : Option (List ApiKey) :=
  if rows.any fun row => row.id = id ∨ row.key = hash (generateApiKey secret) then none
  else some (rows ++ [{ fields with id, key := hash (generateApiKey secret) }])

/-- An update writes the fields of the row with the identifier. -/
def updateKey (rows : List ApiKey) (id : ℕ) (change : ApiKeyUpdate) : List ApiKey :=
  rows.map fun row =>
    if row.id = id then { change.apply row.toApiKeyFields with id := row.id, key := row.key }
    else row

/-- A request. -/
def keyStep (s : KeyState) : KeyAction → Option KeyState
  | .create secret id fields => (createKey hash s.rows secret id fields).map fun rows =>
    { rows, ledger := s.ledger ++ [⟨secret, id, fields⟩] }
  | .update id change => some
    { rows := updateKey s.rows id change
      ledger := s.ledger.map fun m =>
        if m.id = id then { m with fields := change.apply m.fields } else m }
  | .delete id => some
    { rows := s.rows.filter fun row => row.id ≠ id
      ledger := s.ledger.filter fun m => m.id ≠ id }

/-- **What authentication is for**: a text is accepted if it is that of a key that was minted and
not deleted, and is live, and belongs to a principal who is active. -/
def ledgerAuthenticate (a : ApiKeyAuthenticator) (ledger : List MintedKey) (now : ℤ)
    (presented : String) : AuthResult :=
  if presented = "" then .absent
  else
    match ledger.find? fun m => generateApiKey m.secret = presented with
    | none => .invalid
    | some m =>
      if a.hasKeyResource && m.fields.isLive now &&
          a.principalIsActive (a.principalFor m.fields) then
        .authenticated (a.principalFor m.fields) false
      else .invalid

end

/-! ## The table and the ledger -/

section
variable {hash : String → String} {known : String → Prop}

variable (hash) in
/-- The rows are those of the minted keys, whose identifiers and secrets are different. -/
structure KeyLedger (known : String → Prop) (s : KeyState) : Prop where
  rows : s.rows = s.ledger.map (MintedKey.row hash)
  known : ∀ m ∈ s.ledger, known (generateApiKey m.secret)
  ids : (s.ledger.map (·.id)).Nodup
  secrets : (s.ledger.map (·.secret)).Nodup

theorem KeyLedger.step {s s' : KeyState} {a : KeyAction} (h : KeyLedger hash known s)
    (hknown : ∀ secret id fields, a = .create secret id fields → known (generateApiKey secret))
    (ha : keyStep hash s a = some s') : KeyLedger hash known s' := by
  cases a with
  | create secret id fields =>
      obtain ⟨rows, hrows, rfl⟩ := Option.map_eq_some_iff.mp ha
      rw [createKey] at hrows
      split at hrows
      · cases hrows
      · next hfresh =>
          cases hrows
          simp only [List.any_eq_true, decide_eq_true_eq, not_exists, not_and, not_or, h.rows,
            List.forall_mem_map] at hfresh
          refine ⟨?_, ?_, ?_, ?_⟩
          · rw [List.map_append, ← h.rows]
            rfl
          · intro m hm
            rcases List.mem_append.mp hm with hm | hm
            · exact h.known m hm
            · rw [List.mem_singleton.mp hm]
              exact hknown secret id fields rfl
          · rw [List.map_append]
            refine h.ids.append (List.nodup_singleton _) (List.disjoint_singleton.mpr ?_)
            intro hmem
            obtain ⟨m, hm, heq⟩ := List.mem_map.mp hmem
            exact (hfresh m hm).1 heq
          · rw [List.map_append]
            refine h.secrets.append (List.nodup_singleton _) (List.disjoint_singleton.mpr ?_)
            intro hmem
            obtain ⟨m, hm, heq⟩ := List.mem_map.mp hmem
            exact (hfresh m hm).2 (congrArg (fun secret => hash (generateApiKey secret)) heq)
  | update id change =>
      cases ha
      have hkeep : ∀ {β : Type} (f : MintedKey → β),
          (∀ m, f { m with fields := change.apply m.fields } = f m) →
          (s.ledger.map fun m => if m.id = id then { m with fields := change.apply m.fields }
            else m).map f = s.ledger.map f := by
        intro β f hf
        rw [List.map_map]
        refine List.map_congr_left fun m _ => ?_
        rw [Function.comp]
        split
        · exact hf m
        · rfl
      refine ⟨?_, ?_, ?_, ?_⟩
      · rw [updateKey, h.rows, List.map_map, List.map_map]
        refine List.map_congr_left fun m _ => ?_
        rcases eq_or_ne m.id id with heq | hne
        · simp only [Function.comp, MintedKey.row, heq, if_true]
        · simp only [Function.comp, MintedKey.row, hne, if_false]
      · intro m hm
        obtain ⟨old, hold, rfl⟩ := List.mem_map.mp hm
        split <;> exact h.known old hold
      · exact (hkeep (·.id) fun _ => rfl) ▸ h.ids
      · exact (hkeep (·.secret) fun _ => rfl) ▸ h.secrets
  | delete id =>
      cases ha
      refine ⟨?_, fun m hm => h.known m (List.mem_of_mem_filter hm),
        h.ids.sublist (List.filter_sublist.map _), h.secrets.sublist (List.filter_sublist.map _)⟩
      rw [h.rows, List.filter_map]
      rfl

/-- A text is found in the table as it is in the ledger. -/
theorem KeyLedger.findByKey_eq {s : KeyState} (h : KeyLedger hash known s)
    (hhash : ∀ x y, known x → known y → hash x = hash y → x = y) {presented : String}
    (hpresented : known presented) :
    findByKey s.rows (hash presented) =
      (s.ledger.find? fun m => generateApiKey m.secret = presented).map (MintedKey.row hash) := by
  rw [findByKey, h.rows, List.find?_map]
  congr 1
  refine List.find?_congr fun m hm => ?_
  exact decide_eq_decide.mpr ⟨hhash _ _ (h.known m hm) hpresented, congrArg hash⟩

theorem KeyLedger.authenticate_eq {s : KeyState} (h : KeyLedger hash known s)
    (hhash : ∀ x y, known x → known y → hash x = hash y → x = y) (a : ApiKeyAuthenticator) (now : ℤ)
    {headers : KeyHeaders} (hheaders : known headers.presented) :
    a.authenticate hash s.rows now headers =
      ledgerAuthenticate a s.ledger now headers.presented := by
  rw [ApiKeyAuthenticator.authenticate, ledgerAuthenticate]
  split
  · rfl
  · next hne =>
      rw [ApiKeyAuthenticator.lookupApiKey, h.findByKey_eq hhash hheaders]
      cases s.ledger.find? fun m => generateApiKey m.secret = headers.presented with
      | none => simp
      | some m =>
          have hlive : (some (MintedKey.row hash m)).filter (fun row => row.isLive now) =
              if m.fields.isLive now then some (MintedKey.row hash m) else none := rfl
          have hfields : (MintedKey.row hash m).toApiKeyFields = m.fields := rfl
          simp only [Option.map_some, hlive]
          cases a.hasKeyResource <;> cases m.fields.isLive now <;> simp [hne, hfields]

theorem KeyLedger.run {s s' : KeyState} {acts : List KeyAction} (h : KeyLedger hash known s)
    (hrun : Trace.Run (keyStep hash)
      (fun _ a => ∀ secret id fields, a = .create secret id fields → known (generateApiKey secret))
      s acts s') : KeyLedger hash known s' :=
  hrun.invariant (KeyLedger hash known) (fun h hknown ha => h.step hknown ha) h

theorem KeyLedger.empty : KeyLedger hash known {} :=
  ⟨rfl, List.forall_mem_nil _, List.nodup_nil, List.nodup_nil⟩

/-- **A key is accepted as it was minted.** In every state that requests to the keys lead to, a
request authenticates as the ledger of the minted keys says, where no two of the texts that are
minted and presented have one digest. -/
theorem authenticate_eq_ledger (hhash : ∀ x y, known x → known y → hash x = hash y → x = y)
    {acts : List KeyAction} {s : KeyState}
    (hrun : Trace.Run (keyStep hash)
      (fun _ a => ∀ secret id fields, a = .create secret id fields → known (generateApiKey secret))
      {} acts s)
    (a : ApiKeyAuthenticator) (now : ℤ) (headers : KeyHeaders)
    (hheaders : known headers.presented) :
    a.authenticate hash s.rows now headers =
      ledgerAuthenticate a s.ledger now headers.presented :=
  (KeyLedger.empty.run hrun).authenticate_eq hhash a now hheaders

/-- A key is minted and disabled. -/
theorem authenticate_eq_ledger_disabled : ∃ s : KeyState,
    Trace.Run (keyStep id) (fun _ a => ∀ secret id fields, a = .create secret id fields → True) {}
      [.create 5 0 {}, .update 0 { active := some false }] s ∧
      ApiKeyAuthenticator.authenticate id {} s.rows 0 { xApiKey := some (generateApiKey 5) } =
        ledgerAuthenticate {} s.ledger 0
          (KeyHeaders.presented { xApiKey := some (generateApiKey 5) }) := by
  have hrun : ∃ s : KeyState, Trace.Run (keyStep id)
      (fun _ a => ∀ secret id fields, a = .create secret id fields → True) {}
      [.create 5 0 {}, .update 0 { active := some false }] s :=
    ⟨_, .cons (fun _ _ _ _ => trivial) rfl (.cons (fun _ _ _ _ => trivial) rfl (.nil _))⟩
  obtain ⟨s, hs⟩ := hrun
  exact ⟨s, hs, @authenticate_eq_ledger id (fun _ => True) (fun _ _ _ _ h => h) _ s hs {} 0 _
    trivial⟩

/-! ## Keys that are gone -/

/-- A secret that is not in the ledger comes back only if it is minted. -/
theorem absent_step {s s' : KeyState} {a : KeyAction} {secret : ℕ}
    (h : ∀ m ∈ s.ledger, m.secret ≠ secret)
    (hfresh : ∀ id fields, a ≠ .create secret id fields) (ha : keyStep hash s a = some s') :
    ∀ m ∈ s'.ledger, m.secret ≠ secret := by
  cases a with
  | create other id fields =>
      obtain ⟨rows, -, rfl⟩ := Option.map_eq_some_iff.mp ha
      intro m hm
      rcases List.mem_append.mp hm with hm | hm
      · exact h m hm
      · rw [List.mem_singleton.mp hm]
        rintro rfl
        exact hfresh id fields rfl
  | update id change =>
      cases ha
      intro m hm
      obtain ⟨old, hold, rfl⟩ := List.mem_map.mp hm
      split <;> exact h old hold
  | delete id =>
      cases ha
      exact fun m hm => h m (List.mem_of_mem_filter hm)

/-- A deletion takes the only key with its secret. -/
theorem KeyLedger.absent_of_delete {s : KeyState} (h : KeyLedger hash known s) {m : MintedKey}
    (hm : m ∈ s.ledger) :
    ∀ m' ∈ s.ledger.filter (fun m' => m'.id ≠ m.id), m'.secret ≠ m.secret := by
  intro m' hm' heq
  obtain ⟨hmem, hid⟩ := List.mem_filter.mp hm'
  have hsame := List.inj_on_of_nodup_map h.secrets hmem hm heq
  rw [hsame] at hid
  simp at hid

/-- **A deleted key is refused for ever.** After a key was deleted, in whatever state further
requests lead to, its text is not accepted in any headers, at any time and by any authenticator, as
long as its secret is not drawn again. -/
theorem deleted_key_refused (hhash : ∀ x y, known x → known y → hash x = hash y → x = y)
    {before after : List KeyAction} {s s' t : KeyState}
    (hbefore : Trace.Run (keyStep hash)
      (fun _ a => ∀ secret id fields, a = .create secret id fields → known (generateApiKey secret))
      {} before s)
    {m : MintedKey} (hm : m ∈ s.ledger) (hdelete : keyStep hash s (.delete m.id) = some s')
    (hafter : Trace.Run (keyStep hash)
      (fun _ a => ∀ secret id fields, a = .create secret id fields →
        known (generateApiKey secret) ∧ secret ≠ m.secret) s' after t)
    (a : ApiKeyAuthenticator) (now : ℤ) {headers : KeyHeaders}
    (hheaders : headers.presented = generateApiKey m.secret) :
    a.authenticate hash t.rows now headers = .invalid := by
  have hledger := KeyLedger.empty.run hbefore
  have hknown : known headers.presented := hheaders ▸ hledger.known m hm
  have habsent : ∀ m' ∈ t.ledger, m'.secret ≠ m.secret := by
    refine hafter.invariant (fun s => ∀ m' ∈ s.ledger, m'.secret ≠ m.secret)
      (fun h hfresh ha => absent_step h (fun id fields heq => ?_) ha) ?_
    · exact (hfresh _ id fields heq).2 rfl
    · cases hdelete
      exact hledger.absent_of_delete hm
  have hlast := (hledger.step (fun _ _ _ h => by cases h) hdelete).run
    (hafter.mono fun hfresh secret id fields heq => (hfresh secret id fields heq).1)
  have hnone : (t.ledger.find? fun m' => generateApiKey m'.secret = headers.presented) = none := by
    rw [List.find?_eq_none]
    intro m' hm' heq
    rw [decide_eq_true_eq, hheaders] at heq
    exact habsent m' hm' (generateApiKey_injective heq)
  rw [hlast.authenticate_eq hhash a now hknown, ledgerAuthenticate, hnone, hheaders,
    if_neg (generateApiKey_ne_empty _)]

/-- A key is minted and deleted, and then another one is minted. -/
theorem deleted_key_refused_minted : ∃ s s' t : KeyState,
    Trace.Run (keyStep id) (fun _ a => ∀ secret id fields, a = .create secret id fields → True) {}
      [.create 5 0 {}] s ∧ keyStep id s (.delete 0) = some s' ∧
      Trace.Run (keyStep id)
        (fun _ a => ∀ secret id fields, a = .create secret id fields → True ∧ secret ≠ 5) s'
        [.create 6 1 {}] t ∧
      ApiKeyAuthenticator.authenticate id {} t.rows 0 { xApiKey := some (generateApiKey 5) } =
        .invalid := by
  have hminted : ∃ s : KeyState, s.ledger = [⟨5, 0, {}⟩] ∧ Trace.Run (keyStep id)
      (fun _ a => ∀ secret id fields, a = .create secret id fields → True) {} [.create 5 0 {}] s :=
    ⟨_, rfl, .cons (fun _ _ _ _ => trivial) rfl (.nil _)⟩
  obtain ⟨s, hledger, hs⟩ := hminted
  have hafter : ∃ t : KeyState, Trace.Run (keyStep id)
      (fun _ a => ∀ secret id fields, a = .create secret id fields → True ∧ secret ≠ 5)
      ⟨s.rows.filter fun row => row.id ≠ 0, s.ledger.filter fun m => m.id ≠ 0⟩
      [.create 6 1 {}] t := by
    have hempty : KeyLedger id (fun _ => True) {} := .empty
    have hrows : s.rows = [⟨{}, 0, generateApiKey 5⟩] :=
      (hempty.run hs).rows.trans (by rw [hledger]; rfl)
    rw [hrows]
    refine ⟨_, .cons (fun secret id fields h => ?_) rfl (.nil _)⟩
    cases h
    exact ⟨trivial, by decide⟩
  obtain ⟨t, ht⟩ := hafter
  have hpresented : KeyHeaders.presented { xApiKey := some (generateApiKey 5) } =
      generateApiKey (MintedKey.mk 5 0 {}).secret := presented_xApiKey (generateApiKey_ne_empty 5)
  have hm : MintedKey.mk 5 0 {} ∈ s.ledger := hledger ▸ List.mem_singleton_self _
  exact ⟨s, _, t, hs, rfl, ht, @deleted_key_refused id (fun _ => True) (fun _ _ _ _ h => h) _ _ s
    _ t hs _ hm rfl ht {} 0 _ hpresented⟩

end

end Resourcey
