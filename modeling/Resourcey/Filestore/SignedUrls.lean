import Resourcey.Encryption.EncryptionService
import Resourcey.Filestore.PutSteps

/-!
# Signed download URLs

A medium without an object store of its own mints download capabilities: tokens with a key and an
expiry, under the key that all other tokens of the server are encrypted with. What else is issued has
no `k` claim, so the transfer route serves nothing for it (`verifySignedUrl_mint`).

What the route serves is what the medium finds under the key of the path, and that it holds the
bytes that were put under this key, and reports an object that a response can carry, is up to the
medium. On a run of calls, of tokens issued and of transfers, every answer is the right one as long
as no key is confused with the sidecar of another (`transfers_right`).

Times are in microseconds and have no bound.
-/

namespace Resourcey

/-! ## Tokens -/

/-- What a token is issued for. Lifetimes are in seconds. -/
inductive TokenPurpose where
  /-- `encrypt_value`: a cursor, or another encrypted value. -/
  | value (plaintext : String)
  /-- A session cookie. -/
  | session (sub : String) (roles : List String) (externalId : Option String) (remaining : ℕ)
  /-- The state of a login flow. -/
  | flowState (state verifier client redirectUri : String) (ttl : ℕ)
  /-- `presign_get`. -/
  | download (key : String) (expiresIn : ℕ)

/-- `PresignedUrl`: the key and the token that the URL carries, and its expiry. -/
structure PresignedUrl (τ : Type) where
  key : String
  token : τ
  expiresAt : ℤ

/-- A lifetime in microseconds. -/
def lifetime (seconds : ℕ) : ℤ := seconds * 1000000

section
variable {σ τ : Type} [DecidableEq σ] (e : EncryptionService σ τ)

/-- `mint_signed_url`. -/
def mintSignedUrl (nonce : ℕ) (now : ℤ) (key : String) (expiresIn : ℕ) : PresignedUrl τ where
  key := key
  token := e.createJweToken nonce now [("k", .str key)] (some (lifetime expiresIn))
  expiresAt := now + lifetime expiresIn

/-- The claims of a session. -/
def sessionClaims (sub : String) (roles : List String) (externalId : Option String) : Claims :=
  [("sub", .str sub), ("roles", .arr (roles.map .str))] ++
    match externalId with
    | none => []
    | some id => [("ext", .str id)]

/-- A token is issued. -/
def TokenPurpose.mint (nonce : ℕ) (now : ℤ) : TokenPurpose → τ
  | .value plaintext => e.encryptValue nonce plaintext
  | .session sub roles externalId remaining =>
    e.createJweToken nonce now (sessionClaims sub roles externalId) (some (lifetime remaining))
  | .flowState state verifier client redirectUri ttl =>
    e.createJweToken nonce now [("state", .str state), ("verifier", .str verifier),
      ("client", .str client), ("redirect", .str redirectUri)] (some (lifetime ttl))
  | .download key expiresIn => (mintSignedUrl e nonce now key expiresIn).token

/-- What the transfer route raises. -/
inductive TransferError where
  | invalidInput (message : String)
  | notFound (key : String)
  | typeError
  | file (error : FileError)
  | unicodeEncode

/-- The text of an error, as a message quotes it. -/
def DecryptionError.text : DecryptionError → String
  | .valueError message => message
  | .keyError key => "'" ++ key ++ "'"

/-- `_reject_expired`. An expiry is a number. -/
def rejectExpired (claims : Claims) (now : ℤ) : Except TransferError Unit :=
  match claims.lookup "exp" with
  | none | some .null => .error (.invalidInput "Signed URL has no expiry")
  | some (.int exp) =>
    if exp * 1000000 ≤ now then .error (.invalidInput "Signed URL has expired") else .ok ()
  | some _ => .error .typeError

/-- `verify_signed_url`. -/
def verifySignedUrl (token : τ) (now : ℤ) : Except TransferError String := do
  let claims ← (e.decryptJweToken token).mapError fun error =>
    .invalidInput ("Invalid signed URL: " ++ error.text)
  rejectExpired claims now
  match claims.lookup "k" with
  | some (.str key) =>
    if key = "" then throw (.invalidInput "Signed URL is missing its key claim") else return key
  | _ => throw (.invalidInput "Signed URL is missing its key claim")

/-- `_verify`. -/
def verifyTransfer (token : Option τ) (key : String) (now : ℤ) : Except TransferError Unit :=
  match token with
  | none => .error (.invalidInput "Missing signed-URL token")
  | some token => do
    let verifiedKey ← verifySignedUrl e token now
    if verifiedKey ≠ key then throw (.invalidInput "Signed URL is for a different object")

end

/-! ## The transfer route -/

/-- The text can be encoded as a header. -/
def Latin1 (s : String) : Prop := ∀ c ∈ s.toList, c.toNat < 256

instance (s : String) : Decidable (Latin1 s) :=
  inferInstanceAs (Decidable (∀ c ∈ s.toList, c.toNat < 256))

theorem latin1_append {s t : String} (hs : Latin1 s) (ht : Latin1 t) : Latin1 (s ++ t) := by
  intro c hc
  rw [String.toList_append] at hc
  exact (List.mem_append.mp hc).elim (hs c) (ht c)

/-- What the route answers. -/
structure TransferResponse where
  content : ByteArray
  mediaType : String
  etag : Option String

/-- The media type of what is reported with a content type. -/
def responseMediaType : Option String → String
  | none => "application/octet-stream"
  | some contentType => if contentType = "" then "application/octet-stream" else contentType

/-- The response with the bytes and what is reported of the object. -/
def TransferResponse.make (data : ByteArray) (reported : Option StoredObject) :
    Except TransferError TransferResponse :=
  let contentType := responseMediaType (reported.bind (·.contentType))
  let etag := (reported.map (·.etag)).filter (· ≠ "")
  if Latin1 contentType ∧ ∀ text ∈ etag, Latin1 text then .ok ⟨data, contentType, etag⟩
  else .error .unicodeEncode

/-- `SignedFileStore`, as the route and the calls of other routes use it. -/
structure SignedMedium (σ : Type) where
  call : σ → FileCall → Option (FileAnswer × σ)
  get : σ → String → Except FileError (Option ByteArray)
  head : σ → String → Except FileError (Option StoredObject)

/-- The handler of the transfer route. -/
def getHandler {σ τ ς : Type} [DecidableEq σ] (e : EncryptionService σ τ)
    (medium : SignedMedium ς) (store : ς) (now : ℤ) (key : String) (token : Option τ) :
    Except TransferError TransferResponse := do
  verifyTransfer e token key now
  match ← (medium.get store key).mapError .file with
  | none => throw (.notFound key)
  | some data =>
    let reported ← (medium.head store key).mapError .file
    TransferResponse.make data reported

/-! ## The media -/

/-- The media whose URLs the framework signs. -/
inductive SignedKind where
  | localFiles
  | sqlFiles
  deriving DecidableEq

/-- What a medium holds: a directory, or the rows of the blob table by their keys. -/
abbrev SignedKind.Store : SignedKind → Type
  | .localFiles => Directory
  | .sqlFiles => FileMap

/-- The store with nothing in it. -/
def SignedKind.empty : (kind : SignedKind) → kind.Store
  | .localFiles => (∅ : Directory)
  | .sqlFiles => (∅ : FileMap)

/-- `LocalFileStore` and `SqlFileStore`. The blob table has a row for each object, and a put or a
deletion is of the row of its key. -/
def SignedKind.medium (md5 : ByteArray → String) : (kind : SignedKind) → SignedMedium kind.Store
  | .localFiles =>
    { call := callStore md5
      get := getFile
      head := headFile md5 }
  | .sqlFiles =>
    { call := fun store c => some (callMap md5 store c)
      get := fun store key => .ok ((Finmap.lookup key store).map (·.data))
      head := fun store key => .ok ((Finmap.lookup key store).map (reported md5 key)) }

/-! ## Runs -/

/-- A token, with what it was issued for and when. -/
structure IssuedToken (τ : Type) where
  purpose : TokenPurpose
  time : ℤ
  token : τ

/-- A transfer, with what was stored and what had been issued at its time. -/
structure AnsweredTransfer (τ : Type) where
  key : String
  token : τ
  time : ℤ
  objects : FileMap
  issued : List (IssuedToken τ)
  answer : Except TransferError TransferResponse

/-- What a server does: time passes, its medium is called, a token is issued, or a transfer is
requested, with one of the tokens that were issued. -/
inductive TransferAction where
  | wait (d : ℕ)
  | call (c : FileCall)
  | issue (nonce : ℕ) (purpose : TokenPurpose)
  | transfer (key : String) (i : ℕ)

/-- The state of a server: its medium, the objects that were put there, the clock, and what was
issued and answered. -/
structure TransferState (ς τ : Type) where
  store : ς
  objects : FileMap := ∅
  now : ℤ := 0
  issued : List (IssuedToken τ) := []
  answered : List (AnsweredTransfer τ) := []

/-- A key that is one segment of a path. -/
def IsSegment (key : String) : Prop := key ≠ "" ∧ '/' ∉ key.toList

instance (key : String) : Decidable (IsSegment key) :=
  inferInstanceAs (Decidable (key ≠ "" ∧ '/' ∉ key.toList))

/-- The keys of a call are segments. -/
def FileCall.Segments : FileCall → Prop
  | .put key .. | .get key | .head key | .delete key => IsSegment key
  | .list .. | .count => True

instance : (c : FileCall) → Decidable c.Segments
  | .put key .. => inferInstanceAs (Decidable (IsSegment key))
  | .get key => inferInstanceAs (Decidable (IsSegment key))
  | .head key => inferInstanceAs (Decidable (IsSegment key))
  | .delete key => inferInstanceAs (Decidable (IsSegment key))
  | .list .. => inferInstanceAs (Decidable True)
  | .count => inferInstanceAs (Decidable True)

/-- The objects after a call that answered. One that raised has changed nothing. -/
def FileMap.after (md5 : ByteArray → String) (m : FileMap) (c : FileCall) : FileAnswer → FileMap
  | .error _ => m
  | _ => (callMap md5 m c).2

section
variable {σ τ : Type} [DecidableEq σ] (md5 : ByteArray → String) (e : EncryptionService σ τ)
  (kind : SignedKind)

/-- A step. The keys of calls and of transfers are segments. -/
def transferStep (s : TransferState kind.Store τ) :
    TransferAction → Option (TransferState kind.Store τ)
  | .wait d => some { s with now := s.now + d }
  | .call c =>
    if c.Segments then
      ((kind.medium md5).call s.store c).map fun (answer, store) =>
        { s with store, objects := s.objects.after md5 c answer }
    else none
  | .issue nonce purpose =>
    some { s with issued := ⟨purpose, s.now, purpose.mint e nonce s.now⟩ :: s.issued }
  | .transfer key i =>
    if IsSegment key then
      s.issued[i]?.map fun r => { s with answered :=
        { key
          token := r.token
          time := s.now
          objects := s.objects
          issued := s.issued
          answer := getHandler e (kind.medium md5) s.store s.now key (some r.token) } ::
            s.answered }
    else none

end

/-- **What a transfer should answer.** It answers bytes only if its token was minted for exactly its
key and is not expired, and then the bytes of the object with this key. And if the token was minted
for the key, its URL has a second left and there is an object with the key, it does answer. -/
structure AnsweredTransfer.Right {τ : Type} (t : AnsweredTransfer τ) : Prop where
  minted : ∀ response, t.answer = .ok response → ∀ r ∈ t.issued, r.token = t.token →
    ∃ expiresIn, r.purpose = .download t.key expiresIn ∧ t.time < r.time + lifetime expiresIn
  bytes : ∀ response, t.answer = .ok response →
    ∃ o, t.objects.lookup t.key = some o ∧ response.content = o.data
  honoured : ∀ r ∈ t.issued, r.token = t.token → ∀ expiresIn,
    r.purpose = .download t.key expiresIn → t.time + 1000000 ≤ r.time + lifetime expiresIn →
      t.key ∈ t.objects → ∃ response, t.answer = .ok response

/-- **No key is taken for a sidecar.** In a directory, no object is put under a key that ends in
`.meta`, and no deletion or transfer is of the sidecar of an object. In either medium, what is put
has a content type that can be a header. -/
def SignedKind.Distinct {τ : Type} (kind : SignedKind) (s : TransferState kind.Store τ) :
    TransferAction → Prop
  | .call (.put key _ metadata ..) =>
    (kind = .localFiles → ¬ IsMeta key) ∧ ∀ contentType ∈ metadata.contentType, Latin1 contentType
  | .call (.delete key) | .transfer key _ =>
    kind = .localFiles → ∀ other ∈ s.objects, key ≠ metaPathFor other
  | _ => True

/-! ## What a token is good for -/

section
variable {σ τ : Type} [DecidableEq σ] {e : EncryptionService σ τ} {nonce : ℕ} {now time : ℤ}
  {key : String}

theorem rejectExpired_ok {claims : Claims} (h : rejectExpired claims now = .ok ()) :
    ∃ exp, claims.lookup "exp" = some (.int exp) ∧ now < exp * 1000000 := by
  unfold rejectExpired at h
  split at h
  · cases h
  · cases h
  · next exp hexp =>
      split at h
      · cases h
      · next hnow => exact ⟨exp, hexp, not_le.mp hnow⟩
  · cases h

/-- A token is verified if it is decrypted and not expired, and is of the key. -/
theorem verifySignedUrl_eq_ok_iff {token : τ} : verifySignedUrl e token now = .ok key ↔
    ∃ claims, e.decryptJweToken token = .ok claims ∧ rejectExpired claims now = .ok () ∧
      claims.lookup "k" = some (.str key) ∧ key ≠ "" := by
  rw [verifySignedUrl]
  rcases e.decryptJweToken token with error | claims
  · simp [Except.mapError, bind, Except.bind]
  · rcases hexpired : rejectExpired claims now with error | _
    · simp [Except.mapError, hexpired, bind, Except.bind]
    · simp only [Except.mapError, hexpired, bind, Except.bind, Except.ok.injEq, exists_eq_left',
        true_and]
      split
      · next key' hkey =>
          rw [hkey]
          split
          · next hempty =>
              subst hempty
              simp [throw, throwThe, MonadExceptOf.throw]
          · next hne =>
              simp only [pure, Except.pure, Except.ok.injEq, Option.some.injEq, JsonTree.str.injEq]
              constructor
              · rintro rfl
                exact ⟨rfl, hne⟩
              · exact And.left
      · next hother =>
          constructor
          · intro h
            cases h
          · rintro ⟨hkey, -⟩
            exact absurd hkey (hother key)

/-- What a token is decrypted to is what it was made of. -/
theorem decryptJweToken_encrypt {claims claims' : Claims}
    (h : e.decryptJweToken (e.encrypt nonce claims) = .ok claims') : claims' = claims :=
  ((e.decrypt_encrypt_iff e.config nonce claims claims').mp h).2

theorem sessionClaims_lookup_k (sub : String) (roles : List String) (externalId : Option String) :
    (sessionClaims sub roles externalId).lookup "k" = none := by
  cases externalId <;> rfl

/-- **Purposes are told apart.** A token that is verified for a key was minted for it, and is not
expired. -/
theorem verifySignedUrl_mint {purpose : TokenPurpose} (htime : 0 ≤ time)
    (h : verifySignedUrl e (purpose.mint e nonce time) now = .ok key) :
    ∃ expiresIn, purpose = .download key expiresIn ∧ now < time + lifetime expiresIn := by
  obtain ⟨claims, hclaims, hexpired, hkey, -⟩ := verifySignedUrl_eq_ok_iff.mp h
  obtain ⟨exp, hexp, hnow⟩ := rejectExpired_ok hexpired
  cases purpose with
  | value plaintext =>
      obtain rfl := decryptJweToken_encrypt hclaims
      nomatch hexp
  | session sub roles externalId remaining =>
      obtain rfl := decryptJweToken_encrypt hclaims
      simp [EncryptionService.lookup_stamped, sessionClaims_lookup_k] at hkey
  | flowState state verifier client redirectUri ttl =>
      obtain rfl := decryptJweToken_encrypt hclaims
      simp only [EncryptionService.lookup_stamped] at hkey
      nomatch hkey
  | download minted expiresIn =>
      obtain rfl := decryptJweToken_encrypt hclaims
      simp only [EncryptionService.lookup_stamped] at hkey hexp
      obtain rfl : minted = key := by simpa using hkey
      obtain rfl : timestamp (time + lifetime expiresIn) = exp := by simpa using hexp
      refine ⟨expiresIn, rfl, ?_⟩
      have hlifetime : 0 ≤ lifetime expiresIn := by
        unfold lifetime
        omega
      rw [timestamp, Int.tdiv_eq_ediv_of_nonneg (by omega)] at hnow
      omega

/-- A capability with a second left is verified by a service that opens its own tokens. -/
theorem verifySignedUrl_download (htime : 0 ≤ time)
    (hopens : Opens e.deriveKey e.config.decryptionKeys e.config.encryptionKey) {expiresIn : ℕ}
    (hkey : key ≠ "") (hleft : now + 1000000 ≤ time + lifetime expiresIn) :
    verifySignedUrl e ((TokenPurpose.download key expiresIn).mint e nonce time) now = .ok key := by
  refine verifySignedUrl_eq_ok_iff.mpr ⟨_,
    (e.decrypt_encrypt_iff e.config nonce _ _).mpr ⟨hopens, rfl⟩, ?_, ?_, hkey⟩
  · have hlifetime : 0 ≤ lifetime expiresIn := by
      unfold lifetime
      omega
    have hexp : (EncryptionService.stamped time [("k", .str key)]
        (some (lifetime expiresIn))).lookup "exp" =
          some (.int (timestamp (time + lifetime expiresIn))) := by
      simp [EncryptionService.lookup_stamped]
    have hnow : ¬ timestamp (time + lifetime expiresIn) * 1000000 ≤ now := by
      rw [timestamp, Int.tdiv_eq_ediv_of_nonneg (by omega)]
      omega
    simp only [rejectExpired, hexp, if_neg hnow]
  · simp [EncryptionService.lookup_stamped]

end

/-! ## What a transfer serves -/

section
variable {σ τ ς : Type} [DecidableEq σ] {e : EncryptionService σ τ} {medium : SignedMedium ς}
  {store : ς} {now : ℤ} {key : String} {token : τ}

theorem verifyTransfer_eq_ok_iff :
    verifyTransfer e (some token) key now = .ok () ↔ verifySignedUrl e token now = .ok key := by
  simp only [verifyTransfer]
  rcases verifySignedUrl e token now with error | verifiedKey
  · simp [bind, Except.bind]
  · rcases eq_or_ne verifiedKey key with rfl | hne
    · simp [bind, Except.bind, pure, Except.pure]
    · simp [bind, Except.bind, hne, throw, throwThe, MonadExceptOf.throw]

omit [DecidableEq σ] in
theorem latin1_responseMediaType {contentType : Option String} (h : ∀ text ∈ contentType, Latin1 text) :
    Latin1 (responseMediaType contentType) := by
  have hdefault : Latin1 "application/octet-stream" := by simp [Latin1]
  cases contentType with
  | none => exact hdefault
  | some text =>
      rw [responseMediaType]
      split
      · exact hdefault
      · exact h text rfl

theorem make_eq_ok {data : ByteArray} {reported : Option StoredObject}
    {response : TransferResponse} (h : TransferResponse.make data reported = .ok response) :
    response.content = data := by
  simp only [TransferResponse.make] at h
  split at h
  · cases h
    rfl
  · cases h

/-- What is served was verified, and is what the medium found. -/
theorem getHandler_eq_ok {response : TransferResponse}
    (h : getHandler e medium store now key (some token) = .ok response) :
    verifySignedUrl e token now = .ok key ∧ medium.get store key = .ok (some response.content) := by
  rw [getHandler] at h
  rcases hverify : verifyTransfer e (some token) key now with error | _
  · simp [hverify, bind, Except.bind] at h
  · refine ⟨verifyTransfer_eq_ok_iff.mp hverify, ?_⟩
    rcases hget : medium.get store key with error | _ | data
    · simp [hverify, hget, bind, Except.bind, Except.mapError] at h
    · simp [hverify, hget, bind, Except.bind, Except.mapError, throw, throwThe,
        MonadExceptOf.throw] at h
    · rcases hhead : medium.head store key with error | reported
      · simp [hverify, hget, hhead, bind, Except.bind, Except.mapError] at h
      · simp only [hverify, hget, hhead, bind, Except.bind, Except.mapError] at h
        rw [make_eq_ok h]

/-- What is verified and found is served, if it is reported with a content type and an ETag that can
be headers. -/
theorem exists_getHandler_eq_ok {data : ByteArray} {o : StoredObject}
    (hverify : verifySignedUrl e token now = .ok key) (hget : medium.get store key = .ok (some data))
    (hhead : medium.head store key = .ok (some o))
    (hcontent : ∀ contentType ∈ o.contentType, Latin1 contentType) (hetag : Latin1 o.etag) :
    ∃ response, getHandler e medium store now key (some token) = .ok response := by
  have htransfer := verifyTransfer_eq_ok_iff.mpr hverify
  have hmedia : Latin1 (responseMediaType ((some o).bind (·.contentType))) := latin1_responseMediaType hcontent
  have htags : ∀ text ∈ ((some o).map (·.etag)).filter (· ≠ ""), Latin1 text := by
    intro text htext
    obtain ⟨hsome, -⟩ := Option.filter_eq_some_iff.mp htext
    cases hsome
    exact hetag
  simp only [getHandler, htransfer, hget, hhead, bind, Except.bind, Except.mapError,
    TransferResponse.make, if_pos (And.intro hmedia htags)]
  exact ⟨_, rfl⟩

end

/-! ## The media hold what was put -/

/-- The medium holds the objects. -/
def SignedKind.Holds : (kind : SignedKind) → kind.Store → FileMap → Prop
  | .localFiles, d, m => Stores d m
  | .sqlFiles, store, m => store = m

section
variable {md5 : ByteArray → String} {kind : SignedKind} {store store' : kind.Store} {d : Directory}
  {m : FileMap} {key : String} {path : List String} {answer : FileAnswer} {c : FileCall}

/-- A segment that is no sidecar's name is apart from the other objects. -/
theorem apart_of_segment (hkey : IsSegment key) (hpath : pathFor key = .ok path)
    (hdistinct : ∀ other ∈ m, key ≠ metaPathFor other) :
    ∀ other ∈ m, other ≠ key → path ≠ [other] ∧ path ≠ [metaPathFor other] := by
  intro other hother hne
  constructor
  · rintro rfl
    exact hne (eq_of_pathFor hkey.2 hpath)
  · rintro rfl
    exact hdistinct other hother (eq_of_pathFor hkey.2 hpath).symm

/-- The bytes that are found under a key are those of its object. -/
theorem SignedKind.Holds.get (h : kind.Holds store m) (hkey : IsSegment key)
    (hdistinct : kind = .localFiles → ∀ other ∈ m, key ≠ metaPathFor other)
    {data : Option ByteArray} (hget : (kind.medium md5).get store key = .ok data) :
    data = (m.lookup key).map (·.data) := by
  cases kind with
  | localFiles =>
      change getFile store key = _ at hget
      rcases hpath : pathFor key with error | path
      · rw [getFile, hpath] at hget
        cases hget
      · have hfound := Stores.getFile_eq h hpath (apart_of_segment hkey hpath (hdistinct rfl))
        rw [hfound] at hget
        exact (Except.ok.inj hget).symm
  | sqlFiles =>
      obtain rfl : store = m := h
      exact (Except.ok.inj hget).symm

/-- An object is found and reported under its key. -/
theorem SignedKind.Holds.found (h : kind.Holds store m) (hkey : IsSegment key)
    (hdistinct : kind = .localFiles → ∀ other ∈ m, key ≠ metaPathFor other) {o : FileObject}
    (ho : m.lookup key = some o) :
    (kind.medium md5).get store key = .ok (some o.data) ∧
      (kind.medium md5).head store key = .ok (some (reported md5 key o)) := by
  cases kind with
  | localFiles =>
      have hpath := (Stores.keys h key (Finmap.mem_of_lookup_eq_some ho)).1
      have hapart := apart_of_segment hkey hpath (hdistinct rfl)
      have hget := Stores.getFile_eq h hpath hapart
      have hhead := Stores.headFile_eq h md5 hpath hapart
      rw [ho] at hget hhead
      exact ⟨hget, hhead⟩
  | sqlFiles =>
      obtain rfl : store = m := h
      refine ⟨?_, ?_⟩
      · show Except.ok ((Finmap.lookup key store).map (·.data)) = _
        rw [ho]
        rfl
      · show Except.ok ((Finmap.lookup key store).map (reported md5 key)) = _
        rw [ho]
        rfl

/-- A call that reads leaves the objects as they are. -/
theorem after_of_read (hread : (callMap md5 m c).2 = m) (answer : FileAnswer) :
    m.after md5 c answer = m := by
  cases answer with
  | error _ => rfl
  | _ => exact hread

/-- A call of the directory keeps it in step with the objects. -/
theorem Stores.call (h : Stores d m) (hsegments : c.Segments)
    (hput : ∀ key data metadata now tmp metaTmp, c = .put key data metadata now tmp metaTmp →
      ¬ IsMeta key)
    (hdelete : ∀ key, c = .delete key → ∀ other ∈ m, key ≠ metaPathFor other) {d' : Directory}
    (hcall : callStore md5 d c = some (answer, d')) : Stores d' (m.after md5 c answer) := by
  cases c with
  | put key data metadata now tmp metaTmp =>
      rcases hpath : pathFor key with error | path
      · simp only [callStore, putFile, hpath, Option.map_some] at hcall
        cases hcall
        exact h
      · rcases path with _ | ⟨name, _ | ⟨segment, path⟩⟩
        · simp only [callStore, putFile, hpath, Option.map_some] at hcall
          cases hcall
          exact h
        · obtain rfl := eq_of_pathFor hsegments.2 hpath
          simp only [callStore, putFile, hpath] at hcall
          split at hcall
          · cases hcall
          · next htmp =>
              split at hcall
              · cases hcall
              · next hmetaTmp =>
                  cases hcall
                  exact h.insert hpath (hput _ _ _ _ _ _ rfl) htmp hmetaTmp
        · simp [callStore, putFile, hpath] at hcall
  | delete key =>
      rcases hpath : pathFor key with error | path
      · simp only [callStore, deleteFile, hpath] at hcall
        cases hcall
        exact h
      · have hapart := apart_of_segment hsegments hpath (hdelete key rfl)
        obtain ⟨dir, hdir, hstores⟩ := h.deleteFile_eq hpath hapart
        simp only [callStore, hdir] at hcall
        cases hcall
        exact hstores
  | get key =>
      cases hcall
      rw [after_of_read]
      · exact h
      · rfl
  | head key =>
      cases hcall
      rw [after_of_read]
      · exact h
      · rfl
  | list after limit =>
      cases hcall
      rw [after_of_read]
      · exact h
      · rfl
  | count =>
      cases hcall
      exact h

end

/-! ## Runs -/

section
variable {σ τ : Type} [DecidableEq σ] {md5 : ByteArray → String} {e : EncryptionService σ τ}
  {kind : SignedKind}

/-- What holds in every state of a server: its medium holds the objects, each with a content type
that can be a header; every token was minted for its purpose; and every transfer was answered as it
should be. -/
structure Serves (e : EncryptionService σ τ) (kind : SignedKind)
    (s : TransferState kind.Store τ) : Prop where
  holds : kind.Holds s.store s.objects
  contentTypes : ∀ key o, s.objects.lookup key = some o →
    ∀ contentType ∈ o.metadata.contentType, Latin1 contentType
  now : 0 ≤ s.now
  minted : ∀ r ∈ s.issued, 0 ≤ r.time ∧ ∃ nonce, r.token = r.purpose.mint e nonce r.time
  answered : ∀ t ∈ s.answered, t.Right

theorem Serves.empty (start : ℕ) :
    Serves e kind { store := kind.empty, now := start } where
  holds := by
    cases kind with
    | localFiles => exact Stores.empty
    | sqlFiles => rfl
  contentTypes key o ho := by
    rw [Finmap.lookup_empty] at ho
    cases ho
  now := by simp
  minted r hr := by simp at hr
  answered t ht := by simp at ht

/-- The objects after a call have content types that can be headers, if what was put has. -/
theorem contentTypes_after {m : FileMap} {c : FileCall} (answer : FileAnswer)
    (h : ∀ key o, m.lookup key = some o →
      ∀ contentType ∈ o.metadata.contentType, Latin1 contentType)
    (hput : ∀ key data metadata now tmp metaTmp, c = .put key data metadata now tmp metaTmp →
      ∀ contentType ∈ metadata.contentType, Latin1 contentType) (key : String) (o : FileObject)
    (ho : (m.after md5 c answer).lookup key = some o) :
    ∀ contentType ∈ o.metadata.contentType, Latin1 contentType := by
  have hafter : m.after md5 c answer = m ∨ m.after md5 c answer = (callMap md5 m c).2 := by
    cases answer with
    | error _ => exact .inl rfl
    | _ => exact .inr rfl
  rcases hafter with heq | heq
  · rw [heq] at ho
    exact h key o ho
  · rw [heq] at ho
    cases c with
    | put put data metadata now tmp metaTmp =>
        rcases eq_or_ne key put with rfl | hne
        · rw [callMap, Finmap.lookup_insert] at ho
          cases ho
          exact hput _ _ _ _ _ _ rfl
        · rw [callMap, Finmap.lookup_insert_of_ne _ hne] at ho
          exact h key o ho
    | delete deleted =>
        rcases eq_or_ne key deleted with rfl | hne
        · rw [callMap, Finmap.lookup_erase] at ho
          cases ho
        · rw [callMap, Finmap.lookup_erase_ne hne] at ho
          exact h key o ho
    | get _ | head _ | list _ _ | count => exact h key o ho

/-- A call keeps the medium in step with the objects. -/
theorem Serves.call {s : TransferState kind.Store τ} {store' : kind.Store} {c : FileCall}
    {answer : FileAnswer} (h : Serves e kind s) (hsegments : c.Segments)
    (hdistinct : kind.Distinct s (.call c))
    (hcall : (kind.medium md5).call s.store c = some (answer, store')) :
    Serves e kind { s with store := store', objects := s.objects.after md5 c answer } where
  holds := by
    cases kind with
    | localFiles =>
        refine Stores.call h.holds hsegments ?_ ?_ hcall
        · rintro key data metadata now tmp metaTmp rfl
          exact hdistinct.1 rfl
        · rintro key rfl
          exact hdistinct rfl
    | sqlFiles =>
        obtain ⟨store, objects, now, issued, answered⟩ := s
        obtain rfl : store = objects := h.holds
        cases c <;> cases hcall <;> rfl
  contentTypes := by
    refine contentTypes_after answer h.contentTypes ?_
    rintro key data metadata now tmp metaTmp rfl
    exact hdistinct.2
  now := h.now
  minted := h.minted
  answered := h.answered

/-- **A transfer is answered as it should be.** -/
theorem Serves.transfer {s : TransferState kind.Store τ} {key : String} {i : ℕ} (token : τ)
    (hopens : Opens e.deriveKey e.config.decryptionKeys e.config.encryptionKey)
    (hmd5 : ∀ data, Latin1 (md5 data)) (h : Serves e kind s) (hkey : IsSegment key)
    (hdistinct : kind.Distinct s (.transfer key i)) :
    AnsweredTransfer.Right
      { key, token
        time := s.now
        objects := s.objects
        issued := s.issued
        answer := getHandler e (kind.medium md5) s.store s.now key (some token) } where
  minted response hanswer r hr htoken := by
    obtain ⟨htime, nonce, hmint⟩ := h.minted r hr
    have hverify := (getHandler_eq_ok hanswer).1
    rw [show token = _ from htoken.symm.trans hmint] at hverify
    exact verifySignedUrl_mint htime hverify
  bytes response hanswer := by
    have hbytes := h.holds.get hkey hdistinct (getHandler_eq_ok hanswer).2
    obtain ⟨o, ho, hdata⟩ := Option.map_eq_some_iff.mp hbytes.symm
    exact ⟨o, ho, hdata.symm⟩
  honoured r hr htoken expiresIn hpurpose hleft hobject := by
    obtain ⟨o, ho⟩ := Option.isSome_iff_exists.mp (Finmap.lookup_isSome.mpr hobject)
    obtain ⟨htime, nonce, hmint⟩ := h.minted r hr
    rw [hpurpose] at hmint
    have hverify : verifySignedUrl e token s.now = .ok key := by
      rw [show token = _ from htoken.symm.trans hmint]
      exact verifySignedUrl_download htime hopens hkey.1 hleft
    obtain ⟨hget, hhead⟩ : (kind.medium md5).get s.store key = .ok (some o.data) ∧
        (kind.medium md5).head s.store key = .ok (some (reported md5 key o)) :=
      h.holds.found hkey hdistinct ho
    refine exists_getHandler_eq_ok hverify hget hhead (h.contentTypes key o ho) ?_
    exact latin1_append (latin1_append (by simp [Latin1]) (hmd5 _)) (by simp [Latin1])

theorem Serves.step {s s' : TransferState kind.Store τ} {a : TransferAction}
    (hopens : Opens e.deriveKey e.config.decryptionKeys e.config.encryptionKey)
    (hmd5 : ∀ data, Latin1 (md5 data)) (h : Serves e kind s) (hdistinct : kind.Distinct s a)
    (ha : transferStep md5 e kind s a = some s') : Serves e kind s' := by
  cases a with
  | wait d =>
      cases ha
      exact { h with now := by have := h.now; simp only; omega }
  | call c =>
      simp only [transferStep] at ha
      split at ha
      · next hsegments =>
          obtain ⟨⟨answer, store'⟩, hcall, rfl⟩ := Option.map_eq_some_iff.mp ha
          exact h.call hsegments hdistinct hcall
      · cases ha
  | issue nonce purpose =>
      cases ha
      refine { h with minted := fun r hr => ?_ }
      rcases List.mem_cons.mp hr with rfl | hr
      · exact ⟨h.now, nonce, rfl⟩
      · exact h.minted r hr
  | transfer key i =>
      simp only [transferStep] at ha
      split at ha
      · next hkey =>
          obtain ⟨r, -, rfl⟩ := Option.map_eq_some_iff.mp ha
          refine { h with answered := fun t ht => ?_ }
          rcases List.mem_cons.mp ht with rfl | ht
          · exact h.transfer r.token hopens hmd5 hkey hdistinct
          · exact h.answered t ht
      · cases ha

/-- **Every transfer is answered as it should be**, in every run of a server that opens its own
tokens, from an empty medium, whose steps take no key for a sidecar. -/
theorem transfers_right
    (hopens : Opens e.deriveKey e.config.decryptionKeys e.config.encryptionKey)
    (hmd5 : ∀ data, Latin1 (md5 data)) (start : ℕ) {actions : List TransferAction}
    {s : TransferState kind.Store τ}
    (hrun : Trace.Run (transferStep md5 e kind) kind.Distinct
      { store := kind.empty, now := start } actions s) :
    ∀ t ∈ s.answered, t.Right :=
  (hrun.invariant (Serves e kind) (fun h hok ha => h.step hopens hmd5 hok ha)
    (.empty start)).answered

end

/-- The digest of no bytes. -/
def emptyDigest : String := "d41d8cd98f00b204e9800998ecf8427e"

/-- A server with one key. -/
def oneKeyService : EncryptionService String (String × String × Claims) :=
  .clear (.validate { value := "secret" })

theorem oneKeyService_opens : Opens oneKeyService.deriveKey oneKeyService.config.decryptionKeys
    oneKeyService.config.encryptionKey :=
  opens_validate _ (by decide) nofun

/-- An object is put, a URL for it is minted, and a second later it is served. -/
theorem transfers_right_object : ∃ s, Trace.Run
    (transferStep (fun _ => emptyDigest) oneKeyService .localFiles) SignedKind.localFiles.Distinct
    { store := SignedKind.localFiles.empty, now := 0 }
    [.call (.put "a" .empty {} 0 "tmp0" "tmp1"), .issue 0 (.download "a" 60), .wait 1000000,
      .transfer "a" 0] s ∧
      ∀ t ∈ s.answered, t.Right := by
  have hdigest : Latin1 emptyDigest := by simp [Latin1, emptyDigest]
  have hrun : ∃ s, Trace.Run
      (transferStep (fun _ => emptyDigest) oneKeyService .localFiles) SignedKind.localFiles.Distinct
      { store := SignedKind.localFiles.empty, now := 0 }
      [.call (.put "a" .empty {} 0 "tmp0" "tmp1"), .issue 0 (.download "a" 60), .wait 1000000,
        .transfer "a" 0] s := by
    refine ⟨_, .cons ⟨fun _ => by decide, nofun⟩ rfl (.cons trivial rfl (.cons trivial rfl
      (.cons (fun _ other hother => ?_) rfl (.nil _))))⟩
    rcases Finmap.mem_insert.mp hother with rfl | hother
    · decide
    · exact absurd hother Finmap.notMem_empty
  obtain ⟨s, hs⟩ := hrun
  exact ⟨s, hs, transfers_right oneKeyService_opens (fun _ => hdigest) 0 hs⟩

/-- A URL for the sidecar of an object is honoured, though no object has its key. -/
theorem getHandler_metaPathFor {md5 : ByteArray → String} {d : Directory} {m : FileMap}
    {key : String} {o : FileObject} {now : ℤ} {token : String × String × Claims}
    (h : Stores d m) (ho : m.lookup key = some o)
    (hpath : pathFor (metaPathFor key) = .ok [metaPathFor key]) (hmd5 : ∀ data, Latin1 (md5 data))
    (hverify : verifySignedUrl oneKeyService token now = .ok (metaPathFor key)) :
    ∃ response, getHandler oneKeyService (SignedKind.localFiles.medium md5) d now (metaPathFor key)
      (some token) = .ok response := by
  obtain ⟨hget, hnone⟩ := h.getFile_metaPathFor ho hpath
  have hfile := h.sidecars key
  have hsidecar := h.sidecars (metaPathFor key)
  rw [ho] at hfile
  rw [hnone] at hsidecar
  have hread : readMeta d (metaPathFor key) = [] := by
    simp only [readMeta, hsidecar, Option.map_none]
  have hhead : headFile md5 d (metaPathFor key) =
      .ok (some (stored md5 (metaPathFor key) ⟨dumpMeta o.metadata, o.updatedAt⟩ {})) := by
    simp only [headFile, hpath, hfile, Option.map_some, headAt, hread]
    rfl
  exact exists_getHandler_eq_ok hverify hget hhead (by simp [stored])
    (latin1_append (latin1_append (by simp [Latin1]) (hmd5 _)) (by simp [Latin1]))

/-- An object is put under `a`, a URL is minted for `a.meta`, and a transfer of it is served the
sidecar. -/
theorem not_transfers_right_sidecar : ∃ s, Trace.Run
    (transferStep (fun _ => emptyDigest) oneKeyService .localFiles) (fun _ _ => True)
    { store := SignedKind.localFiles.empty, now := 0 }
    [.call (.put "a" .empty {} 0 "tmp0" "tmp1"), .issue 0 (.download "a.meta" 60),
      .transfer "a.meta" 0] s ∧
      ¬ ∀ t ∈ s.answered, t.Right := by
  have hdigest : ∀ _ : ByteArray, Latin1 emptyDigest := fun _ => by simp [Latin1, emptyDigest]
  have hpath : pathFor (metaPathFor "a") = .ok [metaPathFor "a"] := by decide
  refine ⟨_, .cons trivial rfl (.cons trivial rfl (.cons trivial rfl (.nil _))), fun h => ?_⟩
  have hright := h _ List.mem_cons_self
  have hstores : Stores (replaceFile (replaceFile ∅ "tmp0" "a" ⟨.empty, 0⟩) "tmp1"
      (metaPathFor "a") ⟨dumpMeta {}, 0⟩) ((∅ : FileMap).insert "a" ⟨.empty, {}, 0⟩) :=
    Stores.empty.insert (by decide) (by decide) (by decide) (by decide)
  have hobject : ((∅ : FileMap).insert "a" ⟨.empty, {}, 0⟩).lookup "a" = some ⟨.empty, {}, 0⟩ :=
    Finmap.lookup_insert _
  have hverify : verifySignedUrl oneKeyService
      ((TokenPurpose.download "a.meta" 60).mint oneKeyService 0 0) 0 = .ok "a.meta" :=
    verifySignedUrl_download le_rfl oneKeyService_opens (by decide) (by decide)
  obtain ⟨response, hresponse⟩ := getHandler_metaPathFor hstores hobject hpath hdigest hverify
  obtain ⟨o, ho, -⟩ := hright.bytes response hresponse
  have hnone := hstores.lookup_eq_none_of_isMeta (isMeta_metaPathFor "a")
  exact absurd (hnone.symm.trans ho) nofun

end Resourcey
