import Resourcey.Auth.ApiKeys
import Resourcey.Filestore.SignedUrls
import Resourcey.Logic.PyText
import Resourcey.Logic.Trace

/-!
# Session cookies

`CookieAuthenticator` reads the caller out of a token, and keeps nothing: which sessions there are
is known to the cookies alone. A token is of a session if it has a `sub`, and no other purpose gives
it one, so what the authenticator answers can be told from a ledger of what was issued
(`cookies_answer_ledger`). The `exp` of a token is when it should be renewed, not when it ends: a
session is over when its key is no longer held, and only then (`session_accepted_iff`).

Instants are microseconds and have no bound.
-/

namespace Resourcey

/-! ## The authenticator -/

/-- `CookieAuthenticator`. `uuid` is the UUID of a text, and nothing where `UUID` raises. -/
structure CookieAuthenticator where
  cookieName : String := "session"
  refreshAfter : Option ℤ := none
  uuid : String → Option ℕ

/-- `roles_from_credential` of a claim. A number cannot be iterated over. -/
def rolesOfJson (str : JsonTree → String) : Option JsonTree → Option (List String)
  | none | some .null => some []
  | some (.str s) => some (rolesFromCredential ((s.toList.splitOn ',').map String.ofList))
  | some (.arr items) => some (rolesFromCredential (items.map str))
  | some (.obj members) => some (rolesFromCredential (members.map (·.1)))
  | some (.bool _) | some (.int _) => none

/-- `_string_claims`. -/
def stringClaims (claims : Claims) : List (String × String) :=
  claims.filterMap fun claim =>
    match claim.2 with
    | .str value => some (claim.1, value)
    | _ => none

/-- `int(value)`, where it does not raise. -/
def intOfJson : JsonTree → Option ℤ
  | .int n => some n
  | .bool b => some (if b then 1 else 0)
  | .str s => PyText.int? (PyText.strip s.toList)
  | _ => none

namespace CookieAuthenticator

variable (a : CookieAuthenticator)

/-- `_principal_from`, or nothing where it raises. -/
def principalFrom (str : JsonTree → String) (claims : Claims) : Option (Option FullPrincipal) :=
  match claims.lookup "sub" with
  | none | some .null => some none
  | some sub =>
    match a.uuid (str sub) with
    | none => some none
    | some subject => (rolesOfJson str (claims.lookup "roles")).map fun roles => some
        { id := some subject
          roles
          kind := .user
          claims := stringClaims claims }

/-- `_is_stale`. -/
def isStale (claims : Claims) (now : ℤ) : Bool :=
  match (claims.lookup "exp").bind intOfJson with
  | none => false
  | some exp => exp * 1000000 - a.refreshAfter.getD 0 ≤ now

section
variable {σ τ : Type} [DecidableEq σ] (e : EncryptionService σ τ)

/-- What a token is answered with, or nothing where that raises. -/
def tokenResult (now : ℤ) (raw : τ) : Option AuthResult :=
  match e.decryptJweToken raw with
  | .error _ => some .invalid
  | .ok claims => (a.principalFrom e.str claims).map fun
    | none => .invalid
    | some principal => .authenticated principal (a.isStale claims now)

/-- `authenticate`. A cookie that is empty is without a token. -/
def authenticate (now : ℤ) (cookies : List (String × Option τ)) : Option AuthResult :=
  match (cookies.lookup a.cookieName).join with
  | none => some .absent
  | some raw => a.tokenResult e now raw

end

end CookieAuthenticator

/-! ## The ledger -/

/-- A token that was issued, and what for, when and under which configuration. -/
structure LedgerToken (τ : Type) where
  token : τ
  purpose : TokenPurpose
  time : ℤ
  config : EncryptionKeysConfig

/-- The caller of a session. -/
def sessionCaller (subject : ℕ) (sub : String) (roles : List String)
    (externalId : Option String) : FullPrincipal where
  id := some subject
  roles := rolesFromCredential roles
  kind := .user
  claims := ("sub", sub) :: externalId.toList.map (("ext", ·))

open Classical in
/-- **What a token should be answered with**: the caller of the session that it was issued for, with
the advice to renew it once it has expired, as long as its key is held. -/
noncomputable def LedgerToken.answer {σ τ : Type} (deriveKey : String → σ)
    (a : CookieAuthenticator) (held : EncryptionKeysConfig) (now : ℤ) (t : LedgerToken τ) :
    AuthResult :=
  match t.purpose with
  | .session sub roles externalId remaining =>
    match a.uuid sub with
    | none => .invalid
    | some subject =>
      if Opens deriveKey held.decryptionKeys t.config.encryptionKey then
        .authenticated (sessionCaller subject sub roles externalId)
          (timestamp (t.time + lifetime remaining) * 1000000 - a.refreshAfter.getD 0 ≤ now)
      else .invalid
  | _ => .invalid

/-! ## What is minted -/

theorem stringClaims_cons (claim : String × JsonTree) (claims : Claims) :
    stringClaims (claim :: claims) = stringClaims [claim] ++ stringClaims claims :=
  List.filterMap_append (l := [claim])

/-- A number among the claims is not among their texts. -/
theorem stringClaims_set_int {claims : Claims} {key : String} (n : ℤ)
    (h : claims.lookup key = none) :
    stringClaims (claims.set key (.int n)) = stringClaims claims := by
  induction claims with
  | nil => rfl
  | cons claim claims ih =>
      obtain ⟨k, v⟩ := claim
      rw [List.lookup_cons] at h
      rcases eq_or_ne k key with rfl | hne
      · rw [beq_self_eq_true] at h
        cases h
      · rw [beq_eq_false_iff_ne.mpr hne.symm] at h
        rw [Claims.set, if_neg hne, stringClaims_cons, ih h, ← stringClaims_cons]

/-- The texts of a session's claims. -/
theorem stringClaims_session (time expiry : ℤ) (sub : String) (roles : List String)
    (externalId : Option String) :
    stringClaims (EncryptionService.stamped time (sessionClaims sub roles externalId)
      (some expiry)) = ("sub", sub) :: externalId.toList.map (("ext", ·)) := by
  have hiat : (sessionClaims sub roles externalId).lookup "iat" = none := by
    cases externalId <;> rfl
  have hexp : ((sessionClaims sub roles externalId).set "iat" (.int (timestamp time))).lookup
      "exp" = none := by
    rw [Claims.lookup_set, if_neg (by decide)]
    cases externalId <;> rfl
  rw [EncryptionService.stamped, stringClaims_set_int _ hexp, stringClaims_set_int _ hiat]
  cases externalId <;> rfl

section
variable {σ τ : Type} [DecidableEq σ] (e : EncryptionService σ τ) (a : CookieAuthenticator)
  (held : EncryptionKeysConfig) (now : ℤ)

open Classical in
/-- What was encrypted under a configuration is answered as long as its key is held. -/
theorem tokenResult_encrypt (issued : EncryptionKeysConfig) (nonce : ℕ) (claims : Claims) :
    a.tokenResult (e.under held) now ((e.under issued).encrypt nonce claims) =
      if Opens e.deriveKey held.decryptionKeys issued.encryptionKey then
        (a.principalFrom e.str claims).map fun
          | none => .invalid
          | some principal => .authenticated principal (a.isStale claims now)
      else some .invalid := by
  have hdecrypt (claims' : Claims) :
      (e.under held).decryptJweToken ((e.under issued).encrypt nonce claims) = .ok claims' ↔
        Opens e.deriveKey held.decryptionKeys issued.encryptionKey ∧ claims' = claims :=
    (e.under issued).decrypt_encrypt_iff held nonce claims claims'
  rcases hresult : (e.under held).decryptJweToken ((e.under issued).encrypt nonce claims)
    with error | claims'
  · have hclosed : ¬ Opens e.deriveKey held.decryptionKeys issued.encryptionKey := by
      intro hopens
      cases hresult.symm.trans ((hdecrypt claims).mpr ⟨hopens, rfl⟩)
    rw [if_neg hclosed, CookieAuthenticator.tokenResult]
    simp only [hresult]
  · obtain ⟨hopens, rfl⟩ := (hdecrypt claims').mp hresult
    rw [if_pos hopens, CookieAuthenticator.tokenResult]
    simp only [hresult]
    rfl

/-- Only a session has a `sub`: what else is issued is answered as a cookie that cannot be read. -/
theorem tokenResult_of_no_sub (issued : EncryptionKeysConfig) (nonce : ℕ) {claims : Claims}
    (h : claims.lookup "sub" = none) :
    a.tokenResult (e.under held) now ((e.under issued).encrypt nonce claims) = some .invalid := by
  have hnobody : a.principalFrom e.str claims = some none := by
    rw [CookieAuthenticator.principalFrom, h]
  rw [tokenResult_encrypt, hnobody]
  split <;> rfl

/-- The caller that a session's claims are read as. -/
theorem principalFrom_session (time expiry : ℤ) (sub : String) (roles : List String)
    (externalId : Option String) :
    a.principalFrom e.str (EncryptionService.stamped time (sessionClaims sub roles externalId)
      (some expiry)) =
        some ((a.uuid sub).map fun subject => sessionCaller subject sub roles externalId) := by
  have hsub : (sessionClaims sub roles externalId).lookup "sub" = some (.str sub) := rfl
  have hroles : (sessionClaims sub roles externalId).lookup "roles" =
      some (.arr (roles.map .str)) := rfl
  have htexts : (roles.map JsonTree.str).map e.str = roles := by
    rw [List.map_map]
    exact (List.map_congr_left fun role _ => e.str_str role).trans (List.map_id roles)
  rw [CookieAuthenticator.principalFrom,
    EncryptionService.lookup_stamped_of_ne _ _ _ (by decide) (by decide), hsub]
  simp only [e.str_str]
  cases a.uuid sub with
  | none => rfl
  | some subject =>
      rw [EncryptionService.lookup_stamped_of_ne _ _ _ (by decide) (by decide), hroles, rolesOfJson,
        htexts, stringClaims_session]
      rfl

/-- When a session is to be renewed. -/
theorem isStale_session (time expiry : ℤ) (claims : Claims) :
    a.isStale (EncryptionService.stamped time claims (some expiry)) now =
      decide (timestamp (time + expiry) * 1000000 - a.refreshAfter.getD 0 ≤ now) := by
  have hexp : (EncryptionService.stamped time claims (some expiry)).lookup "exp" =
      some (.int (timestamp (time + expiry))) := by
    rw [EncryptionService.lookup_stamped, if_pos ⟨rfl, Option.some_ne_none expiry⟩]
    rfl
  rw [CookieAuthenticator.isStale, hexp]
  rfl

/-- A token was minted as the ledger says. -/
def LedgerToken.Minted (t : LedgerToken τ) : Prop :=
  ∃ nonce, t.token = t.purpose.mint (e.under t.config) nonce t.time

/-- **A token is answered with what it was issued for.** -/
theorem LedgerToken.tokenResult_eq {t : LedgerToken τ} (h : t.Minted e) :
    a.tokenResult (e.under held) now t.token = some (t.answer e.deriveKey a held now) := by
  obtain ⟨token, purpose, time, issued⟩ := t
  obtain ⟨nonce, htoken⟩ := h
  obtain rfl : token = purpose.mint (e.under issued) nonce time := htoken
  cases purpose with
  | value plaintext => exact tokenResult_of_no_sub e a held now issued nonce rfl
  | flowState state verifier client redirectUri ttl =>
      refine tokenResult_of_no_sub e a held now issued nonce ?_
      exact EncryptionService.lookup_stamped_of_ne _ _ _ (by decide) (by decide)
  | download key expiresIn =>
      refine tokenResult_of_no_sub e a held now issued nonce ?_
      exact EncryptionService.lookup_stamped_of_ne _ _ _ (by decide) (by decide)
  | session sub roles externalId remaining =>
      refine (tokenResult_encrypt e a held now issued nonce _).trans ?_
      simp only [principalFrom_session, isStale_session, LedgerToken.answer]
      cases a.uuid sub with
      | none => split <;> rfl
      | some subject => split <;> rfl

end

/-! ## Runs -/

/-- A request that was answered, with the token of its cookie, and what had been issued and which
keys were held at its time. -/
structure CookieAnswer (τ : Type) where
  cookie : Option τ
  time : ℤ
  held : EncryptionKeysConfig
  ledger : List (LedgerToken τ)
  result : Option AuthResult

/-- The server: the keys that it holds, the clock, and the ghosts of what it issued and answered. -/
structure SessionServer (τ : Type) where
  held : EncryptionKeysConfig
  now : ℤ := 0
  ledger : List (LedgerToken τ) := []
  answers : List (CookieAnswer τ) := []

/-- What may happen next. -/
inductive SessionAction (τ : Type) where
  | wait (micros : ℕ)
  | rotate (held : EncryptionKeysConfig)
  | issue (nonce : ℕ) (purpose : TokenPurpose)
  | request (cookies : List (String × Option τ))

open Classical in
/-- What a request should be answered with, by the ledger. -/
noncomputable def CookieAnswer.expected {σ τ : Type} (deriveKey : String → σ)
    (a : CookieAuthenticator) (r : CookieAnswer τ) : AuthResult :=
  match r.cookie with
  | none => .absent
  | some token =>
    match r.ledger.find? fun t => t.token = token with
    | none => .invalid
    | some t => t.answer deriveKey a r.held r.time

section
variable {σ τ : Type} [DecidableEq σ] (e : EncryptionService σ τ) (a : CookieAuthenticator)

/-- The next state. -/
def sessionStep (s : SessionServer τ) : SessionAction τ → Option (SessionServer τ)
  | .wait micros => some { s with now := s.now + micros }
  | .rotate held => some { s with held }
  | .issue nonce purpose => some { s with
      ledger := ⟨purpose.mint (e.under s.held) nonce s.now, purpose, s.now, s.held⟩ :: s.ledger }
  | .request cookies => some { s with
      answers := ⟨(cookies.lookup a.cookieName).join, s.now, s.held, s.ledger,
        a.authenticate (e.under s.held) s.now cookies⟩ :: s.answers }

/-- **What can be presented without the keys**: tokens that were issued, and ones that are not
decrypted. -/
def SessionAction.Assembled (s : SessionServer τ) : SessionAction τ → Prop
  | .request cookies => ∀ token, (cookies.lookup a.cookieName).join = some token →
      (∃ t ∈ s.ledger, t.token = token) ∨
        ∀ claims, (e.under s.held).decryptJweToken token ≠ .ok claims
  | _ => True

/-- The ledger is what was minted, and the answers are by it. -/
structure SessionServer.Right (s : SessionServer τ) : Prop where
  minted : ∀ t ∈ s.ledger, t.Minted e
  answered : ∀ r ∈ s.answers, r.result = some (r.expected e.deriveKey a)

variable {e a} {s s' : SessionServer τ} {action : SessionAction τ}

/-- A request is answered by the ledger. -/
theorem SessionServer.Right.request (h : s.Right e a) {cookies : List (String × Option τ)}
    (hassembled : (SessionAction.request cookies).Assembled e a s) :
    a.authenticate (e.under s.held) s.now cookies =
      some (CookieAnswer.expected e.deriveKey a ⟨(cookies.lookup a.cookieName).join, s.now, s.held,
        s.ledger, a.authenticate (e.under s.held) s.now cookies⟩) := by
  unfold CookieAuthenticator.authenticate CookieAnswer.expected
  rcases hcookie : (cookies.lookup a.cookieName).join with _ | token
  · rfl
  · dsimp only
    split
    · next hnone =>
        have hunread : ∀ claims, (e.under s.held).decryptJweToken token ≠ .ok claims := by
          refine (hassembled token hcookie).resolve_left ?_
          rintro ⟨t, ht, htoken⟩
          exact List.find?_eq_none.mp hnone t ht (by simpa using htoken)
        rw [CookieAuthenticator.tokenResult]
        split
        · rfl
        · next claims hclaims => exact absurd hclaims (hunread claims)
    · next t hsome =>
        have htoken : t.token = token := by simpa using List.find?_some hsome
        rw [← htoken]
        exact t.tokenResult_eq e a s.held s.now (h.minted t (List.mem_of_find?_eq_some hsome))

theorem SessionServer.Right.step (h : s.Right e a) (hassembled : action.Assembled e a s)
    (hstep : sessionStep e a s action = some s') : s'.Right e a := by
  cases action with
  | wait | rotate =>
      cases hstep
      exact ⟨h.minted, h.answered⟩
  | issue nonce purpose =>
      cases hstep
      exact ⟨List.forall_mem_cons.mpr ⟨⟨nonce, rfl⟩, h.minted⟩, h.answered⟩
  | request cookies =>
      cases hstep
      exact ⟨h.minted, List.forall_mem_cons.mpr ⟨h.request hassembled, h.answered⟩⟩

/-- Whatever runs, the ledger is what was minted and the answers are by it. -/
theorem SessionServer.Right.run {held : EncryptionKeysConfig} {actions : List (SessionAction τ)}
    (h : Trace.Run (sessionStep e a) (fun s action => action.Assembled e a s) { held } actions s) :
    s.Right e a :=
  h.invariant (SessionServer.Right e a) SessionServer.Right.step
    ⟨List.forall_mem_nil _, List.forall_mem_nil _⟩

/-- **Cookies are answered by the ledger.** Whatever tokens a server issues, for sessions and for
other ends, and however its keys rotate, each request is answered with the session that its token
was issued for: a token of another end is invalid, and so is one whose key is no longer held. -/
theorem cookies_answer_ledger {held : EncryptionKeysConfig} {actions : List (SessionAction τ)}
    (h : Trace.Run (sessionStep e a) (fun s action => action.Assembled e a s) { held } actions s) :
    ∀ r ∈ s.answers, r.result = some (r.expected e.deriveKey a) :=
  (SessionServer.Right.run h).answered

/-- The text of a UUID, and an authenticator that meets no other. -/
def sevenText : String := "00000000-0000-0000-0000-000000000007"

def sevenAuthenticator : CookieAuthenticator where
  uuid := fun text => if text = sevenText then some 7 else none

/-- The keys before a rotation, and after it. -/
def oldKeys : EncryptionKeysConfig := .validate { id := "old", value := "a" }

def newKeys : EncryptionKeysConfig :=
  .validate { id := "new", value := "b" } [{ id := "old", value := "a" }]

/-- A session of a minute. -/
def sevenSession : TokenPurpose := .session sevenText ["admin"] none 60

/-- A session is answered after it has expired and the key was rotated, and a download URL is not
taken for one. -/
theorem cookies_answer_ledger_rotated :
    let e := EncryptionService.clear oldKeys
    let session := sevenSession.mint (e.under oldKeys) 0 0
    let download := (TokenPurpose.download "a" 60).mint (e.under newKeys) 1 61000000
    ∃ s, Trace.Run (sessionStep e sevenAuthenticator)
        (fun s action => action.Assembled e sevenAuthenticator s) { held := oldKeys }
        [.issue 0 sevenSession, .wait 61000000, .rotate newKeys,
          .issue 1 (.download "a" 60), .request [("session", some session)],
          .request [("session", some download)]] s ∧
      s.answers.map (fun r => r.result.map (·.credentialValid)) = [some false, some true] ∧
      ∀ r ∈ s.answers, r.result = some (r.expected e.deriveKey sevenAuthenticator) := by
  intro e session download
  have hrun : ∃ s, s.answers.map (fun r => r.result.map (·.credentialValid)) =
      [some false, some true] ∧ Trace.Run (sessionStep e sevenAuthenticator)
        (fun s action => action.Assembled e sevenAuthenticator s) { held := oldKeys }
        [.issue 0 sevenSession, .wait 61000000, .rotate newKeys,
          .issue 1 (.download "a" 60), .request [("session", some session)],
          .request [("session", some download)]] s := by
    refine ⟨_, ?_, .cons trivial rfl (.cons trivial rfl (.cons trivial rfl (.cons trivial rfl
      (.cons ?_ rfl (.cons ?_ rfl (.nil _))))))⟩
    · rfl
    · rintro token ⟨⟩
      exact .inl ⟨_, .tail _ (.head _), rfl⟩
    · rintro token ⟨⟩
      exact .inl ⟨_, .head _, rfl⟩
  obtain ⟨s, hvalid, hs⟩ := hrun
  exact ⟨s, hs, hvalid, cookies_answer_ledger hs⟩

/-- **A session ends with its key.** After any run the token of a session is accepted, as its
caller, if and only if the key that it was encrypted with is held, however long ago it expired. -/
theorem session_accepted_iff {held : EncryptionKeysConfig} {actions : List (SessionAction τ)}
    (h : Trace.Run (sessionStep e a) (fun s action => action.Assembled e a s) { held } actions s)
    {t : LedgerToken τ} (ht : t ∈ s.ledger) {sub : String} {roles : List String}
    {externalId : Option String} {remaining subject : ℕ}
    (hpurpose : t.purpose = .session sub roles externalId remaining)
    (hsubject : a.uuid sub = some subject) {cookies : List (String × Option τ)}
    (hcookie : cookies.lookup a.cookieName = some (some t.token)) :
    (∃ stale, a.authenticate (e.under s.held) s.now cookies =
      some (.authenticated (sessionCaller subject sub roles externalId) stale)) ↔
        Opens e.deriveKey s.held.decryptionKeys t.config.encryptionKey := by
  have hresult : a.authenticate (e.under s.held) s.now cookies =
      some (t.answer e.deriveKey a s.held s.now) := by
    rw [CookieAuthenticator.authenticate, hcookie]
    exact t.tokenResult_eq e a s.held s.now ((SessionServer.Right.run h).minted t ht)
  rw [hresult, LedgerToken.answer, hpurpose]
  simp only [hsubject]
  by_cases hopens : Opens e.deriveKey s.held.decryptionKeys t.config.encryptionKey
  · rw [if_pos hopens]
    exact ⟨fun _ => hopens, fun _ => ⟨_, rfl⟩⟩
  · rw [if_neg hopens]
    refine ⟨fun ⟨stale, hstale⟩ => ?_, fun hopen => absurd hopen hopens⟩
    have hvalid : some false = some true :=
      congrArg (Option.map AuthResult.credentialValid) hstale
    cases hvalid

/-- The session is accepted a second after it has expired. -/
theorem session_accepted_iff_expired :
    let e := EncryptionService.clear oldKeys
    ∃ s, Trace.Run (sessionStep e sevenAuthenticator)
        (fun s action => action.Assembled e sevenAuthenticator s) { held := oldKeys }
        [.issue 0 sevenSession, .wait 61000000] s ∧
      ∃ stale, sevenAuthenticator.authenticate (e.under s.held) s.now
          [("session", some (sevenSession.mint (e.under oldKeys) 0 0))] =
        some (.authenticated (sessionCaller 7 sevenText ["admin"] none) stale) := by
  intro e
  have hrun : Trace.Run (sessionStep e sevenAuthenticator)
      (fun s action => action.Assembled e sevenAuthenticator s) { held := oldKeys }
      [.issue 0 sevenSession, .wait 61000000] _ := .cons trivial rfl (.cons trivial rfl (.nil _))
  have hopens : Opens e.deriveKey oldKeys.decryptionKeys oldKeys.encryptionKey :=
    opens_validate _ (by decide) (List.forall_mem_nil _)
  exact ⟨_, hrun, (session_accepted_iff hrun (.head _) rfl rfl rfl).mpr hopens⟩

end

end Resourcey
