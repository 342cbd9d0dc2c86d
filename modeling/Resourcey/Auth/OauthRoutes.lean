import Resourcey.Auth.OauthRefresh
import Resourcey.Filestore.SignedUrls

/-!
# The routes of an OAuth login

`login` mints a flow token with the state, the verifier, the client and the redirect URI of a login,
under the key that all other tokens of the server are encrypted with, and `callback` exchanges a code
for whoever presents one with its state. No token for another purpose has a state
(`lookup_state_mint`), but that the flow token has an expiry is not read: the callback honours only
logins that are live in the runs in which no other is presented to it (`exchanges_honour_iff`).

Whoever has not the key can present any token that was issued, and others only that are not
decrypted (`Assembled`).
-/

namespace Resourcey

/-! ## Random texts -/

/-- A character of the URL-safe alphabet. -/
def urlsafeChar (n : ℕ) : Char :=
  if n < 26 then Char.ofNat ('A'.toNat + n)
  else if n < 52 then Char.ofNat ('a'.toNat + (n - 26))
  else if n < 62 then Char.ofNat ('0'.toNat + (n - 52))
  else if n = 62 then '-'
  else '_'

/-- `urlsafe_b64encode`, without its padding. -/
def urlsafeB64encode : List UInt8 → List Char
  | [] => []
  | [a] => [urlsafeChar (a.toNat / 4), urlsafeChar (a.toNat % 4 * 16)]
  | [a, b] =>
    [urlsafeChar (a.toNat / 4), urlsafeChar (a.toNat % 4 * 16 + b.toNat / 16),
      urlsafeChar (b.toNat % 16 * 4)]
  | a :: b :: c :: bytes =>
    urlsafeChar (a.toNat / 4) :: urlsafeChar (a.toNat % 4 * 16 + b.toNat / 16) ::
      urlsafeChar (b.toNat % 16 * 4 + c.toNat / 64) :: urlsafeChar (c.toNat % 64) ::
        urlsafeB64encode bytes

/-- `secrets.token_urlsafe`, of the bytes that are drawn. -/
def tokenUrlsafe {n : ℕ} (bytes : Vector UInt8 n) : String :=
  String.ofList (urlsafeB64encode bytes.toList)

theorem urlsafeB64encode_ne_nil {bytes : List UInt8} (h : bytes ≠ []) :
    urlsafeB64encode bytes ≠ [] := by
  rcases bytes with _ | ⟨a, _ | ⟨b, _ | ⟨c, bytes⟩⟩⟩
  · exact absurd rfl h
  · exact List.cons_ne_nil _ _
  · exact List.cons_ne_nil _ _
  · exact List.cons_ne_nil _ _

theorem tokenUrlsafe_ne_empty {n : ℕ} (hn : n ≠ 0) (bytes : Vector UInt8 n) :
    tokenUrlsafe bytes ≠ "" := by
  intro hempty
  refine urlsafeB64encode_ne_nil (fun hnil => hn ?_) (String.ofList_eq_empty_iff.mp hempty)
  rw [← bytes.length_toList, hnil, List.length_nil]

/-- `_code_challenge`, of the bytes of a text's digest. -/
def codeChallenge (sha256 : String → List UInt8) (verifier : String) : String :=
  String.ofList (urlsafeB64encode (sha256 verifier))

/-! ## Clients -/

/-- The client row of a login. -/
structure FlowClient extends OAuthClient where
  authUrl : Option String := none
  redirectUri : Option String := none
  scopes : List String := []

/-- The URL of an authorization endpoint and the query that is added to it. -/
structure AuthorizeUrl where
  authUrl : String
  params : List (String × String)

/-- `authorize_url`. -/
def authorizeUrl (client : FlowClient) (state redirectUri : String) (codeChallenge : Option String)
    (extraScopes : List String) : Except ResourceyError AuthorizeUrl :=
  let authUrl := client.authUrl.getD ""
  if authUrl = "" then
    .error (.invalidInput ("Client '" ++ client.id ++ "' has no auth URL"))
  else
    let scopes := (client.scopes ++ extraScopes).eraseDups
    let challenge := codeChallenge.getD ""
    .ok
      { authUrl
        params := [("response_type", "code"), ("client_id", client.clientId.getD ""),
          ("redirect_uri", redirectUri), ("state", state)] ++
          (if scopes = [] then [] else [("scope", " ".intercalate scopes)]) ++
          (if challenge = "" then []
            else [("code_challenge", challenge), ("code_challenge_method", "S256")]) }

/-- What `exchange_code` is called with. -/
structure CodeExchange where
  client : FlowClient
  code : String
  redirectUri : String
  codeVerifier : Option String

/-- What `exchange_code` posts, and where. -/
def CodeExchange.grant (x : CodeExchange) :
    Except ResourceyError (String × List (String × String)) :=
  let url := x.client.tokenUrl.getD ""
  if url = "" then
    .error (.invalidInput ("Client '" ++ x.client.id ++ "' has no token URL"))
  else
    let clientId := x.client.clientId.getD ""
    let verifier := x.codeVerifier.getD ""
    .ok (url, [("grant_type", "authorization_code"), ("code", x.code),
        ("redirect_uri", x.redirectUri)] ++
      (if clientId = "" then [] else [("client_id", clientId)]) ++
      (if verifier = "" then [] else [("code_verifier", verifier)]) ++
      (x.client.clientSecret.elim [] fun secret => [("client_secret", secret)]))

/-- `_redirect_uri`, with the URL of the callback route. -/
def FlowClient.redirect (client : FlowClient) (callbackUrl : String) : String :=
  (orText client.redirectUri (some callbackUrl)).getD ""

/-- Python's `bool` of a JSON value. -/
def JsonTree.truthy : JsonTree → Bool
  | .null => false
  | .bool b => b
  | .int n => n ≠ 0
  | .str s => s ≠ ""
  | .arr items => !items.isEmpty
  | .obj members => !members.isEmpty

/-! ## Routes -/

namespace OauthRoutes

/-- `IdpConfig`, as the flow uses it. -/
structure IdpConfig where
  oauthStateCookieName : String := "oauth_state"
  oauthFlowStateTtlSeconds : ℤ := 600

/-- A cookie that a response sets. -/
structure SetCookie (τ : Type) where
  name : String
  value : τ
  maxAge : ℤ

/-- The claims of a flow token. -/
def flowClaims (state verifier client redirectUri : String) : Claims :=
  [("state", .str state), ("verifier", .str verifier), ("client", .str client),
    ("redirect", .str redirectUri)]

/-- A login that was answered, with the flow token that was set for it. -/
structure Login (τ : Type) where
  time : ℤ
  state : String
  verifier : String
  client : String
  redirectUri : String
  token : τ

/-- What a request finds of the clients: `_read_client`. -/
abbrev Clients := String → Except ResourceyError FlowClient

/-- The session that a callback ends with. -/
structure FlowSession where
  sub : String
  roles : List String
  externalId : Option String
  remaining : ℕ

/-- What a callback meets: the clients, the token service, the token endpoint, and what
`_resolve_principal` and the store make of its response. -/
structure CallbackEnvironment where
  clients : Clients
  tokenService : Except ResourceyError Unit
  post : String → List (String × String) → Except ResourceyError TokenResponse
  complete : FlowClient → TokenResponse → Except ResourceyError FlowSession

section
variable {σ τ : Type} [DecidableEq σ] (e : EncryptionService σ τ) (config : IdpConfig)

/-- `login`, with what it redirects to. The texts are drawn of 32 and 64 bytes. -/
def login (sha256 : String → List UInt8) (nonce : ℕ) (now : ℤ) (stateBytes : Vector UInt8 32)
    (verifierBytes : Vector UInt8 64) (client callbackUrl : String) (clients : Clients) :
    Except ResourceyError (AuthorizeUrl × SetCookie τ × Login τ) := do
  let record ← clients client
  let redirectUri := record.redirect callbackUrl
  let verifier := tokenUrlsafe verifierBytes
  let state := tokenUrlsafe stateBytes
  let url ← authorizeUrl record state redirectUri (some (codeChallenge sha256 verifier)) ["openid"]
  let ttl := config.oauthFlowStateTtlSeconds
  let token := e.createJweToken nonce now (flowClaims state verifier client redirectUri)
    (some (ttl * 1000000))
  return (url, ⟨config.oauthStateCookieName, token, ttl⟩,
    ⟨now, state, verifier, client, redirectUri, token⟩)

/-- `_read_flow_state`. -/
def readFlowState (cookies : List (String × τ)) : Option Claims :=
  (cookies.lookup config.oauthStateCookieName).bind fun raw => (e.decryptJweToken raw).toOption

/-- `str` of what a flow has under a key. -/
def flowText (flow : Claims) (key : String) : String :=
  (flow.lookup key).elim "None" e.str

/-- The text that is equal to a claim, if any is. -/
def claimedText : Option JsonTree → Option String
  | some (.str s) => some s
  | _ => none

/-- `callback` as far as `exchange_code`. -/
def beginCallback (cookies : List (String × τ)) (code state : Option String)
    (env : CallbackEnvironment) : Except ResourceyError CodeExchange :=
  match readFlowState e config cookies with
  | none => .error (.invalidInput "Missing or expired OAuth flow state")
  | some flow =>
    if state.getD "" = "" ∨ claimedText (flow.lookup "state") ≠ state then
      .error (.invalidInput "OAuth state mismatch")
    else if code.getD "" = "" then .error (.invalidInput "Missing authorization code")
    else do
      let client ← env.clients (flowText e flow "client")
      env.tokenService
      return {
        client
        code := code.getD ""
        redirectUri := flowText e flow "redirect"
        codeVerifier := ((flow.lookup "verifier").filter JsonTree.truthy).map e.str }

/-- `callback`: the code that it exchanges, if it does, and what it answers. -/
def callback (nonce : ℕ) (now : ℤ) (cookies : List (String × τ)) (code state : Option String)
    (env : CallbackEnvironment) : Option CodeExchange × Except ResourceyError τ :=
  match beginCallback e config cookies code state env with
  | .error error => (none, .error error)
  | .ok x =>
    match x.grant with
    | .error error => (none, .error error)
    | .ok (url, form) => (some x, do
        let session ← env.complete x.client (← env.post url form)
        return (TokenPurpose.session session.sub session.roles session.externalId
          session.remaining).mint e nonce now)

end

/-! ## Runs -/

/-- A code exchange, with the cookie and the state that were presented, and what there was at its
time. -/
structure Exchange (τ : Type) where
  time : ℤ
  cookie : Option τ
  state : Option String
  clients : Clients
  logins : List (Login τ)
  exchange : CodeExchange

/-- What a server does: time passes, a login or a callback is requested, or a token is issued for
another purpose. -/
inductive FlowRequest (τ : Type) where
  | wait (d : ℕ)
  | login (nonce : ℕ) (stateBytes : Vector UInt8 32) (verifierBytes : Vector UInt8 64)
      (client callbackUrl : String) (clients : Clients)
  | callback (nonce : ℕ) (cookies : List (String × τ)) (code state : Option String)
      (env : CallbackEnvironment)
  | issue (nonce : ℕ) (purpose : TokenPurpose)

/-- The state of a server: the clock, the tokens that were issued, the logins that were answered and
the codes that were exchanged. -/
structure FlowState (τ : Type) where
  now : ℤ := 0
  issued : List τ := []
  logins : List (Login τ) := []
  exchanges : List (Exchange τ) := []

section
variable {σ τ : Type} [DecidableEq σ] (sha256 : String → List UInt8) (e : EncryptionService σ τ)
  (config : IdpConfig)

/-- A login is answered, or raises. -/
def FlowState.login (s : FlowState τ) :
    Except ResourceyError (AuthorizeUrl × SetCookie τ × Login τ) → FlowState τ
  | .error _ => s
  | .ok (_, cookie, login) =>
    { s with issued := cookie.value :: s.issued, logins := login :: s.logins }

/-- A callback is answered, with or without an exchange. -/
def FlowState.callback (s : FlowState τ) (cookie : Option τ) (state : Option String)
    (clients : Clients) (result : Option CodeExchange × Except ResourceyError τ) : FlowState τ where
  now := s.now
  issued := result.2.toOption.toList ++ s.issued
  logins := s.logins
  exchanges := (result.1.map fun exchange =>
    { time := s.now, cookie, state, clients, logins := s.logins, exchange }).toList ++ s.exchanges

/-- A step. A flow token is issued by a login only. -/
def flowStep (s : FlowState τ) : FlowRequest τ → Option (FlowState τ)
  | .wait d => some { s with now := s.now + d }
  | .login nonce stateBytes verifierBytes client callbackUrl clients =>
    some (s.login
      (login e config sha256 nonce s.now stateBytes verifierBytes client callbackUrl clients))
  | .callback nonce cookies code state env =>
    some (s.callback (cookies.lookup config.oauthStateCookieName) state env.clients
      (callback e config nonce s.now cookies code state env))
  | .issue _ (.flowState ..) => none
  | .issue nonce purpose => some { s with issued := purpose.mint e nonce s.now :: s.issued }

/-- **What can be presented without the key**: tokens that were issued, and ones that are not
decrypted. -/
def Assembled (s : FlowState τ) : FlowRequest τ → Prop
  | .callback _ cookies _ _ _ => ∀ cookie ∈ cookies,
      cookie.2 ∈ s.issued ∨ ∀ claims, e.decryptJweToken cookie.2 ≠ .ok claims
  | _ => True

/-- A login whose flow token it is was answered less than the time to live before. -/
def LiveLogin (logins : List (Login τ)) (token : τ) (now : ℤ) (l : Login τ) : Prop :=
  l ∈ logins ∧ l.token = token ∧ l.time ≤ now ∧
    now < l.time + config.oauthFlowStateTtlSeconds * 1000000

/-- **The exchange honours a live login**: the cookie was minted by one, and the state that was
presented, and the verifier, the client and the redirect URI of the exchange are its. -/
def Exchange.HonoursLive (x : Exchange τ) : Prop :=
  ∃ token l, x.cookie = some token ∧ LiveLogin config x.logins token x.time l ∧
    x.state = some l.state ∧ x.exchange.codeVerifier = some l.verifier ∧
    x.clients l.client = .ok x.exchange.client ∧ x.exchange.redirectUri = l.redirectUri

/-- **No callback is presented the flow token of a login that is live no more**, with its state, a
code, and its client still there to exchange it with. -/
def PresentsLive (s : FlowState τ) : FlowRequest τ → Prop
  | .callback _ cookies code state env => ∀ token ∈ cookies.lookup config.oauthStateCookieName,
      ∀ l ∈ s.logins, l.token = token → (∃ flow, e.decryptJweToken token = .ok flow) →
        state = some l.state → code.getD "" ≠ "" → env.tokenService = .ok () →
          (∃ client, env.clients l.client = .ok client ∧ client.tokenUrl.getD "" ≠ "") →
            ∃ l', LiveLogin config s.logins token s.now l'
  | _ => True

end

/-! ## What a flow token is good for -/

section
variable {σ τ : Type} [DecidableEq σ] {e : EncryptionService σ τ} {config : IdpConfig} {nonce : ℕ}
  {now : ℤ} {cookies : List (String × τ)} {code state : Option String} {env : CallbackEnvironment}

/-- **Purposes are told apart.** No token for another purpose has a state. -/
theorem lookup_state_mint {purpose : TokenPurpose} {claims : Claims}
    (hpurpose : ∀ state verifier client redirectUri ttl,
      purpose ≠ .flowState state verifier client redirectUri ttl)
    (h : e.decryptJweToken (purpose.mint e nonce now) = .ok claims) :
    claims.lookup "state" = none := by
  cases purpose with
  | value plaintext =>
      obtain rfl := decryptJweToken_encrypt h
      rfl
  | session sub roles externalId remaining =>
      obtain rfl := decryptJweToken_encrypt h
      rw [EncryptionService.lookup_stamped, if_neg (by simp), if_neg (by simp)]
      cases externalId with
      | none => rfl
      | some _ => rfl
  | flowState state verifier client redirectUri ttl => exact absurd rfl (hpurpose _ _ _ _ _)
  | download key expiresIn =>
      obtain rfl := decryptJweToken_encrypt h
      rw [EncryptionService.lookup_stamped, if_neg (by simp), if_neg (by simp)]
      rfl

/-- A login whose flow token was minted of it. -/
structure Login.Minted (e : EncryptionService σ τ) (config : IdpConfig) (l : Login τ) : Prop where
  state : l.state ≠ ""
  verifier : l.verifier ≠ ""
  token : ∃ nonce, l.token = e.createJweToken nonce l.time
    (flowClaims l.state l.verifier l.client l.redirectUri)
    (some (config.oauthFlowStateTtlSeconds * 1000000))

/-- What is read of a flow token is what it was minted of. -/
theorem Login.Minted.flow {l : Login τ} (h : l.Minted e config) {flow : Claims}
    (hflow : e.decryptJweToken l.token = .ok flow) :
    claimedText (flow.lookup "state") = some l.state ∧ flowText e flow "client" = l.client ∧
      flowText e flow "redirect" = l.redirectUri ∧
      ((flow.lookup "verifier").filter JsonTree.truthy).map e.str = some l.verifier := by
  obtain ⟨nonce, htoken⟩ := h.token
  rw [htoken] at hflow
  obtain rfl := decryptJweToken_encrypt hflow
  have hlookup (key : String) (hexp : key ≠ "exp") (hiat : key ≠ "iat") :
      (EncryptionService.stamped l.time (flowClaims l.state l.verifier l.client l.redirectUri)
        (some (config.oauthFlowStateTtlSeconds * 1000000))).lookup key =
          (flowClaims l.state l.verifier l.client l.redirectUri).lookup key :=
    EncryptionService.lookup_stamped_of_ne _ _ _ hexp hiat
  have htruthy : JsonTree.truthy (.str l.verifier) = true := decide_eq_true h.verifier
  refine ⟨?_, ?_, ?_, ?_⟩
  · rw [hlookup "state" (by simp) (by simp)]
    rfl
  · rw [flowText, hlookup "client" (by simp) (by simp)]
    exact e.str_str _
  · rw [flowText, hlookup "redirect" (by simp) (by simp)]
    exact e.str_str _
  · rw [hlookup "verifier" (by simp) (by simp)]
    show ((some (JsonTree.str l.verifier)).filter _).map e.str = _
    rw [Option.filter_some, if_pos htruthy, Option.map_some, e.str_str]

theorem readFlowState_eq_some_iff {flow : Claims} : readFlowState e config cookies = some flow ↔
    ∃ token, cookies.lookup config.oauthStateCookieName = some token ∧
      e.decryptJweToken token = .ok flow := by
  rw [readFlowState, Option.bind_eq_some_iff]
  refine exists_congr fun token => and_congr_right fun _ => ?_
  rcases e.decryptJweToken token with error | claims
  · simp [Except.toOption]
  · simp [Except.toOption]

/-- When a callback comes as far as an exchange, and of what. -/
theorem beginCallback_eq_ok_iff {x : CodeExchange} :
    beginCallback e config cookies code state env = .ok x ↔
      ∃ flow, readFlowState e config cookies = some flow ∧ state.getD "" ≠ "" ∧
        claimedText (flow.lookup "state") = state ∧ code.getD "" ≠ "" ∧
        env.tokenService = .ok () ∧ env.clients (flowText e flow "client") = .ok x.client ∧
        x = ⟨x.client, code.getD "", flowText e flow "redirect",
          ((flow.lookup "verifier").filter JsonTree.truthy).map e.str⟩ := by
  rw [beginCallback]
  rcases readFlowState e config cookies with _ | flow
  · simp
  · simp only [Option.some.injEq, exists_eq_left']
    split
    · next hstate =>
        constructor
        · intro h
          cases h
        · rintro ⟨hne, heq, -⟩
          exact (hstate.elim hne fun h => h heq).elim
    · next hstate =>
        rw [not_or, not_not] at hstate
        split
        · next hcode =>
            constructor
            · intro h
              cases h
            · rintro ⟨-, -, hne, -⟩
              exact absurd hcode hne
        · next hcode =>
            rw [bind_eq_ok]
            constructor
            · rintro ⟨client, hclient, hrest⟩
              obtain ⟨u, hservice, hx⟩ := bind_eq_ok.mp hrest
              cases hx
              exact ⟨hstate.1, hstate.2, hcode, hservice, hclient, rfl⟩
            · rintro ⟨-, -, -, hservice, hclient, hx⟩
              refine ⟨x.client, hclient, bind_eq_ok.mpr ⟨(), hservice, ?_⟩⟩
              rw [hx]
              rfl

/-- A callback exchanges a code if it comes so far and the client has a token endpoint. -/
theorem callback_fst_eq_some_iff {x : CodeExchange} :
    (callback e config nonce now cookies code state env).1 = some x ↔
      beginCallback e config cookies code state env = .ok x ∧ x.client.tokenUrl.getD "" ≠ "" := by
  rw [callback]
  rcases beginCallback e config cookies code state env with error | y
  · simp
  · by_cases hurl : y.client.tokenUrl.getD "" = ""
    · have hgrant : ∃ error, y.grant = .error error := ⟨_, if_pos hurl⟩
      obtain ⟨error, hgrant⟩ := hgrant
      simp only [hgrant, Except.ok.injEq]
      constructor
      · intro h
        cases h
      · rintro ⟨rfl, hne⟩
        exact absurd hurl hne
    · have hgrant : ∃ posted, y.grant = .ok posted := ⟨_, if_neg hurl⟩
      obtain ⟨⟨url, form⟩, hgrant⟩ := hgrant
      simp only [hgrant, Except.ok.injEq, Option.some.injEq]
      constructor
      · rintro rfl
        exact ⟨rfl, hurl⟩
      · exact And.left

end

/-! ## What holds in every state -/

section
variable {σ τ : Type} [DecidableEq σ] {sha256 : String → List UInt8} {e : EncryptionService σ τ}
  {config : IdpConfig} {s s' : FlowState τ} {a : FlowRequest τ}

/-- What was issued was issued for a login that was answered, or has no state. -/
structure FlowState.Issues (e : EncryptionService σ τ) (config : IdpConfig) (s : FlowState τ) :
    Prop where
  issued : ∀ token ∈ s.issued, (∃ l ∈ s.logins, l.token = token) ∨
    ∀ claims, e.decryptJweToken token = .ok claims → claims.lookup "state" = none
  minted : ∀ l ∈ s.logins, l.Minted e config
  times : ∀ l ∈ s.logins, l.time ≤ s.now

theorem FlowState.Issues.empty (start : ℤ) : Issues e config { now := start } where
  issued _ h := absurd h List.not_mem_nil
  minted _ h := absurd h List.not_mem_nil
  times _ h := absurd h List.not_mem_nil

/-- An answered login sets the cookie that it is remembered with. -/
theorem login_eq_ok {nonce : ℕ} {now : ℤ} {stateBytes : Vector UInt8 32}
    {verifierBytes : Vector UInt8 64} {client callbackUrl : String} {clients : Clients}
    {url : AuthorizeUrl} {cookie : SetCookie τ} {l : Login τ}
    (h : login e config sha256 nonce now stateBytes verifierBytes client callbackUrl clients =
      .ok (url, cookie, l)) :
    l.token = cookie.value ∧ l.time = now ∧ l.Minted e config := by
  obtain ⟨record, -, h⟩ := bind_eq_ok.mp h
  obtain ⟨authorize, -, h⟩ := bind_eq_ok.mp h
  cases h
  refine ⟨rfl, rfl, ?_, ?_, nonce, rfl⟩
  · exact tokenUrlsafe_ne_empty (by decide) stateBytes
  · exact tokenUrlsafe_ne_empty (by decide) verifierBytes

/-- One more token without a state. -/
theorem FlowState.Issues.cons (h : s.Issues e config) {token : τ}
    (htoken : ∀ claims, e.decryptJweToken token = .ok claims → claims.lookup "state" = none) :
    FlowState.Issues e config { s with issued := token :: s.issued } where
  issued other hother := by
    rcases List.mem_cons.mp hother with rfl | hother
    · exact .inr htoken
    · exact h.issued other hother
  minted := h.minted
  times := h.times

theorem FlowState.Issues.login (h : s.Issues e config) {nonce : ℕ} {stateBytes : Vector UInt8 32}
    {verifierBytes : Vector UInt8 64} {client callbackUrl : String} {clients : Clients} :
    (s.login (OauthRoutes.login e config sha256 nonce s.now stateBytes verifierBytes client callbackUrl
      clients)).Issues e config := by
  rcases hlogin : OauthRoutes.login e config sha256 nonce s.now stateBytes verifierBytes client
    callbackUrl clients with error | ⟨url, cookie, l⟩
  · exact h
  · obtain ⟨htoken, htime, hminted⟩ := login_eq_ok hlogin
    refine ⟨fun token hmem => ?_, fun other hmem => ?_, fun other hmem => ?_⟩
    · rcases List.mem_cons.mp hmem with rfl | hmem
      · exact .inl ⟨l, List.mem_cons_self, htoken⟩
      · refine (h.issued token hmem).imp_left ?_
        rintro ⟨other, hother, heq⟩
        exact ⟨other, List.mem_cons_of_mem _ hother, heq⟩
    · rcases List.mem_cons.mp hmem with rfl | hmem
      · exact hminted
      · exact h.minted other hmem
    · rcases List.mem_cons.mp hmem with rfl | hmem
      · exact htime.le
      · exact h.times other hmem

/-- A callback answers with a session. -/
theorem callback_snd_eq_ok {nonce : ℕ} {now : ℤ} {cookies : List (String × τ)}
    {code state : Option String} {env : CallbackEnvironment} {token : τ}
    (h : (callback e config nonce now cookies code state env).2 = .ok token) :
    ∃ sub roles externalId remaining,
      token = (TokenPurpose.session sub roles externalId remaining).mint e nonce now := by
  rw [callback] at h
  split at h
  · cases h
  · split at h
    · cases h
    · obtain ⟨response, -, h⟩ := bind_eq_ok.mp h
      obtain ⟨session, -, h⟩ := bind_eq_ok.mp h
      cases h
      exact ⟨_, _, _, _, rfl⟩

/-- **Every step keeps it.** -/
theorem FlowState.Issues.step (h : s.Issues e config)
    (ha : flowStep sha256 e config s a = some s') : s'.Issues e config := by
  cases a with
  | wait d =>
      cases ha
      refine ⟨h.issued, h.minted, fun l hl => ?_⟩
      have htime := h.times l hl
      show l.time ≤ s.now + d
      omega
  | login nonce stateBytes verifierBytes client callbackUrl clients =>
      cases ha
      exact h.login
  | callback nonce cookies code state env =>
      cases ha
      rcases hanswer : (OauthRoutes.callback e config nonce s.now cookies code state env).2 with error | token
      · refine ⟨fun other hother => ?_, h.minted, h.times⟩
        rw [FlowState.callback, hanswer] at hother
        exact h.issued other hother
      · obtain ⟨sub, roles, externalId, remaining, rfl⟩ := callback_snd_eq_ok hanswer
        refine ⟨fun other hother => ?_, h.minted, h.times⟩
        rw [FlowState.callback, hanswer] at hother
        rcases List.mem_cons.mp hother with rfl | hother
        · exact .inr fun claims => lookup_state_mint (by simp)
        · exact h.issued other hother
  | issue nonce purpose =>
      cases purpose with
      | flowState => cases ha
      | value plaintext =>
          cases ha
          exact h.cons fun claims => lookup_state_mint (by simp)
      | session sub roles externalId remaining =>
          cases ha
          exact h.cons fun claims => lookup_state_mint (by simp)
      | download key expiresIn =>
          cases ha
          exact h.cons fun claims => lookup_state_mint (by simp)

end

/-! ## Exchanges -/

section
variable {σ τ : Type} [DecidableEq σ] {sha256 : String → List UInt8} {e : EncryptionService σ τ}
  {config : IdpConfig} {s s' : FlowState τ} {a : FlowRequest τ}

/-- A step exchanges a code if it is a callback that does. -/
theorem exchanges_of_step (ha : flowStep sha256 e config s a = some s') :
    s'.exchanges = s.exchanges ∨ ∃ nonce cookies code state env x,
      a = .callback nonce cookies code state env ∧
      (callback e config nonce s.now cookies code state env).1 = some x ∧
      s'.exchanges = ⟨s.now, cookies.lookup config.oauthStateCookieName, state, env.clients,
        s.logins, x⟩ :: s.exchanges := by
  cases a with
  | wait d =>
      cases ha
      exact .inl rfl
  | login nonce stateBytes verifierBytes client callbackUrl clients =>
      cases ha
      refine .inl ?_
      rcases login e config sha256 nonce s.now stateBytes verifierBytes client callbackUrl clients
        with error | ⟨url, cookie, l⟩
      · rfl
      · rfl
  | callback nonce cookies code state env =>
      cases ha
      rcases hfst : (callback e config nonce s.now cookies code state env).1 with _ | x
      · refine .inl ?_
        rw [FlowState.callback, hfst]
        rfl
      · refine .inr ⟨nonce, cookies, code, state, env, x, rfl, hfst, ?_⟩
        rw [FlowState.callback, hfst]
        rfl
  | issue nonce purpose =>
      cases purpose with
      | flowState => cases ha
      | value | session | download =>
          cases ha
          exact .inl rfl

/-- **An exchange honours a live login**, if the callback was presented one. -/
theorem honoursLive_of_presentsLive (h : s.Issues e config) {nonce : ℕ}
    {cookies : List (String × τ)} {code state : Option String} {env : CallbackEnvironment}
    {x : CodeExchange} (hassembled : Assembled e s (.callback nonce cookies code state env))
    (hlive : PresentsLive e config s (.callback nonce cookies code state env))
    (hx : (callback e config nonce s.now cookies code state env).1 = some x) :
    Exchange.HonoursLive config ⟨s.now, cookies.lookup config.oauthStateCookieName, state,
      env.clients, s.logins, x⟩ := by
  obtain ⟨hbegin, hurl⟩ := callback_fst_eq_some_iff.mp hx
  obtain ⟨flow, hflow, hstate, heq, hcode, hservice, hclient, hx⟩ := beginCallback_eq_ok_iff.mp hbegin
  obtain ⟨token, htoken, hdecrypt⟩ := readFlowState_eq_some_iff.mp hflow
  -- Only a token that was issued is decrypted, and only one of a login has a state.
  have hlogin : ∃ l ∈ s.logins, l.token = token := by
    have hmem : (config.oauthStateCookieName, token) ∈ cookies := by
      obtain ⟨before, after, rfl, -⟩ := List.lookup_eq_some_iff.mp htoken
      exact List.mem_append_right _ List.mem_cons_self
    rcases hassembled _ hmem with hissued | hforged
    · rcases h.issued token hissued with hlogin | hnone
      · exact hlogin
      · rw [hnone flow hdecrypt] at heq
        exact absurd (heq ▸ rfl) hstate
    · exact absurd hdecrypt (hforged flow)
  have hread {l : Login τ} (hl : l ∈ s.logins) (hltoken : l.token = token) :=
    (h.minted l hl).flow (hltoken ▸ hdecrypt)
  obtain ⟨l, hl, hltoken⟩ := hlogin
  obtain ⟨hlstate, hlclient, -⟩ := hread hl hltoken
  obtain ⟨l', hlive⟩ := hlive token htoken l hl hltoken ⟨flow, hdecrypt⟩
    (heq.symm.trans hlstate) hcode hservice ⟨x.client, hlclient ▸ hclient, hurl⟩
  obtain ⟨hlstate', hlclient', hlredirect, hlverifier⟩ := hread hlive.1 hlive.2.1
  refine ⟨token, l', htoken, hlive, heq.symm.trans hlstate', ?_, hlclient' ▸ hclient, ?_⟩
  · rw [hx]
    exact hlverifier
  · rw [hx]
    exact hlredirect

/-- What was presented to a callback whose exchanges honour live logins. -/
theorem presentsLive_of_honoursLive (h : s.Issues e config)
    (ha : flowStep sha256 e config s a = some s')
    (hhonours : ∀ x ∈ s'.exchanges, x.HonoursLive config) : PresentsLive e config s a := by
  cases a with
  | callback nonce cookies code state env =>
      intro token htoken l hl hltoken ⟨flow, hdecrypt⟩ hstate hcode hservice ⟨client, hclient, hurl⟩
      obtain ⟨hlstate, hlclient, -⟩ := (h.minted l hl).flow (hltoken ▸ hdecrypt)
      have hx : (callback e config nonce s.now cookies code state env).1 =
          some ⟨client, code.getD "", flowText e flow "redirect",
            ((flow.lookup "verifier").filter JsonTree.truthy).map e.str⟩ := by
        refine callback_fst_eq_some_iff.mpr ⟨beginCallback_eq_ok_iff.mpr ⟨flow,
          readFlowState_eq_some_iff.mpr ⟨token, htoken, hdecrypt⟩, ?_, ?_, hcode, hservice, ?_, rfl⟩, hurl⟩
        · rw [hstate]
          exact (h.minted l hl).state
        · exact hlstate.trans hstate.symm
        · rw [hlclient]
          exact hclient
      rcases exchanges_of_step ha with hsame | hexchange
      · cases ha
        simp only [FlowState.callback, hx] at hsame
        exact absurd hsame (List.cons_ne_self _ _)
      · obtain ⟨nonce', cookies', code', state', env', x, heq, -, hcons⟩ := hexchange
        cases heq
        obtain ⟨token', l', htoken', hlive, -⟩ := hhonours _ (hcons ▸ List.mem_cons_self)
        cases htoken.symm.trans htoken'
        exact ⟨l', hlive⟩
  | wait | login | issue => trivial

/-- **When the callback honours only live logins.** In a run in which whoever has not the key
presents what can be assembled without it, every exchange honours a live login if and only if no
callback is presented the flow token of a login that is live no more. -/
theorem exchanges_honour_iff (start : ℤ) {requests : List (FlowRequest τ)} {t : FlowState τ}
    (hrun : Trace.Run (flowStep sha256 e config) (Assembled e) { now := start } requests t) :
    (∀ x ∈ t.exchanges, x.HonoursLive config) ↔
      Trace.Run (flowStep sha256 e config)
        (fun s a => Assembled e s a ∧ PresentsLive e config s a) { now := start } requests t := by
  constructor
  · intro hhonours
    refine hrun.restrict (FlowState.Issues e config) (fun s => ∀ x ∈ s.exchanges, x.HonoursLive config)
      (fun h _ ha => h.step ha) ?_ ?_ (.empty start) hhonours
    · intro s a s' ha h x hx
      rcases exchanges_of_step ha with hsame | ⟨nonce, cookies, code, state, env, y, -, -, hcons⟩
      · exact h x (hsame ▸ hx)
      · exact h x (hcons ▸ List.mem_cons_of_mem _ hx)
    · intro s a s' h _ ha hfin
      exact presentsLive_of_honoursLive h ha hfin
  · intro hlive
    have hinv : t.Issues e config ∧ ∀ x ∈ t.exchanges, x.HonoursLive config := by
      refine hlive.invariant
        (fun s => s.Issues e config ∧ ∀ x ∈ s.exchanges, x.HonoursLive config) ?_
        ⟨.empty start, fun _ h => absurd h List.not_mem_nil⟩
      rintro s a s' ⟨h, hhonours⟩ ⟨hassembled, hpresents⟩ ha
      refine ⟨h.step ha, fun x hx => ?_⟩
      rcases exchanges_of_step ha with hsame | ⟨nonce, cookies, code, state, env, y, rfl, hy, hcons⟩
      · exact hhonours x (hsame ▸ hx)
      · rcases List.mem_cons.mp (hcons ▸ hx) with rfl | hx
        · exact honoursLive_of_presentsLive h hassembled hpresents hy
        · exact hhonours x hx
    exact hinv.2

end

/-! ## A login that is completed -/

/-- The login of a client, at the time zero. -/
def idpLogin : Login (String × String × Claims) where
  time := 0
  state := tokenUrlsafe (Vector.replicate 32 0)
  verifier := tokenUrlsafe (Vector.replicate 64 0)
  client := "idp"
  redirectUri := "https://app/callback"
  token := oneKeyService.createJweToken 0 0
    (flowClaims (tokenUrlsafe (Vector.replicate 32 0)) (tokenUrlsafe (Vector.replicate 64 0)) "idp"
      "https://app/callback") (some (600 * 1000000))

/-- The one client that there is. -/
def idpClients : Clients := fun id =>
  if id = "idp" then
    .ok { id := "idp", authUrl := some "https://idp/auth", tokenUrl := some "https://idp/token" }
  else .error (.notFound (.scalar (.str id)))

/-- The request of a login. -/
def idpStart : FlowRequest (String × String × Claims) :=
  .login 0 (.replicate 32 0) (.replicate 64 0) "idp" "https://app/callback" idpClients

/-- The request of a callback with the flow token and the state of the login. -/
def idpCallback : FlowRequest (String × String × Claims) :=
  .callback 1 [("oauth_state", idpLogin.token)] (some "code") (some idpLogin.state)
    { clients := idpClients
      tokenService := .ok ()
      post := fun _ _ => .ok { accessToken := "access", expiresAt := 3600000000 }
      complete := fun _ _ => .ok ⟨"00000000-0000-0000-0000-000000000001", [], some "sub", 3600⟩ }

/-- The login, and the callback some seconds later. -/
def idpRequests (seconds : ℕ) : List (FlowRequest (String × String × Claims)) :=
  [idpStart, .wait (seconds * 1000000), idpCallback]

/-- The state before the callback. -/
def idpState (seconds : ℕ) : FlowState (String × String × Claims) where
  now := seconds * 1000000
  issued := [idpLogin.token]
  logins := [idpLogin]

theorem idpState_run (seconds : ℕ) : ∃ t, Trace.Run (flowStep (fun _ => []) oneKeyService {})
    (Assembled oneKeyService) {} (idpRequests seconds) t ∧
      flowStep (fun _ => []) oneKeyService {} (idpState seconds) (idpCallback) = some t := by
  have hassembled : Assembled oneKeyService (idpState seconds) idpCallback := by
    intro cookie hcookie
    obtain rfl := List.mem_singleton.mp hcookie
    exact .inl (List.mem_singleton.mpr rfl)
  have hwait : flowStep (fun _ => []) oneKeyService {} (idpState 0) (.wait (seconds * 1000000)) =
      some (idpState seconds) := by
    simp [flowStep, idpState]
  exact ⟨_, .cons trivial rfl (.cons trivial hwait (.cons hassembled rfl (.nil _))), rfl⟩

theorem idpState_issues (seconds : ℕ) : (idpState seconds).Issues oneKeyService {} := by
  have hstart : flowStep (fun _ => []) oneKeyService {} {} idpStart = some (idpState 0) := rfl
  have hlogin : (idpState 0).Issues oneKeyService {} := (FlowState.Issues.empty 0).step hstart
  have htimes : ∀ l ∈ (idpState seconds).logins, l.time ≤ (idpState seconds).now := by
    intro l hl
    obtain rfl := List.mem_singleton.mp hl
    show (0 : ℤ) ≤ seconds * 1000000
    omega
  exact ⟨hlogin.issued, hlogin.minted, htimes⟩

/-- The exchange of a login that is completed a minute later honours it. -/
theorem exchanges_honour_login : ∃ t, Trace.Run (flowStep (fun _ => []) oneKeyService {})
    (fun s a => Assembled oneKeyService s a ∧ PresentsLive oneKeyService {} s a) {}
    (idpRequests 60) t ∧ ∀ x ∈ t.exchanges, x.HonoursLive {} := by
  have hlive : LiveLogin {} [idpLogin] idpLogin.token 60000000 idpLogin := by
    refine ⟨List.mem_singleton_self _, rfl, ?_, ?_⟩
    · simp [idpLogin]
    · simp [idpLogin]
  have hrun : ∃ t, Trace.Run (flowStep (fun _ => []) oneKeyService {})
      (fun s a => Assembled oneKeyService s a ∧ PresentsLive oneKeyService {} s a) {}
      (idpRequests 60) t := by
    refine ⟨_, .cons ⟨trivial, trivial⟩ rfl (.cons ⟨trivial, trivial⟩ rfl
      (.cons ⟨fun cookie hcookie => ?_, fun token htoken l hl hltoken _ _ _ _ _ => ?_⟩ rfl
        (.nil _)))⟩
    · obtain rfl := List.mem_singleton.mp hcookie
      exact .inl (List.mem_singleton.mpr rfl)
    · obtain rfl : idpLogin.token = token := Option.some.inj htoken
      exact ⟨idpLogin, hlive⟩
  obtain ⟨t, ht⟩ := hrun
  exact ⟨t, ht, (exchanges_honour_iff 0 (ht.mono And.left)).mpr ht⟩

/-- Ten minutes and a second after the login its flow token is still good for an exchange. -/
theorem not_exchanges_honour_expired : ∃ t, Trace.Run (flowStep (fun _ => []) oneKeyService {})
    (Assembled oneKeyService) {} (idpRequests 601) t ∧ ¬ ∀ x ∈ t.exchanges, x.HonoursLive {} := by
  obtain ⟨t, hrun, ht⟩ := idpState_run 601
  refine ⟨t, hrun, fun hhonours => ?_⟩
  have hlive := presentsLive_of_honoursLive (idpState_issues 601) ht hhonours
  obtain ⟨flow, hflow⟩ : ∃ flow, oneKeyService.decryptJweToken idpLogin.token = .ok flow :=
    ⟨_, (oneKeyService.decrypt_encrypt_iff _ 0 _ _).mpr ⟨oneKeyService_opens, rfl⟩⟩
  obtain ⟨l, hl, -, -, hnow⟩ := hlive idpLogin.token rfl idpLogin (List.mem_singleton_self _) rfl
    ⟨flow, hflow⟩ rfl (by decide) rfl ⟨_, rfl, by decide⟩
  obtain rfl := List.mem_singleton.mp hl
  exact absurd hnow (by decide)

end OauthRoutes

end Resourcey
