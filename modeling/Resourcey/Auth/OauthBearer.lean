import Resourcey.Auth.ApiKeys
import Resourcey.Logic.JsonReader

/-!
# Bearer tokens of other issuers

`OAuthAuthenticator` verifies a token that somebody else has issued. The issuer that the token
names, unverified, selects a registered client; the client says where the issuer's keys are and
which algorithms count; the keys are fetched, and kept for a while. Requests overlap, issuers change
their keys, and clients come and go.

`bearer_accepted_genuine`: in every order of the steps, a token is accepted only if one of the keys
that its issuer has published shortly before has signed it, with an algorithm that the client
allows, and only for the principal that the token's own issuer and subject stand for. So a key that
an issuer has withdrawn is accepted no longer than the keys are kept, and a fetch takes.

The library that decodes tokens is a parameter.
-/

namespace Resourcey

/-! ## Tokens -/

/-- The claims of a token. -/
abbrev TokenClaims := List (String × JsonDocument)

/-- What is used of the library that decodes tokens: the JSON of a token's second part, the claims
of a token that one of the keys has signed, and the check of registered claims, at a time and
against an issuer and an audience. -/
structure TokenLibrary (κ : Type) where
  payload : String → Option JsonDocument
  decode : String → List κ → List String → Option TokenClaims
  validate : ℤ → Option String → Option String → TokenClaims → Bool
  hostname : String → Option String

/-- What is relied on: only a token that a key has signed with a listed algorithm is decoded, and
claims that were checked name the issuer and have not expired. -/
structure TokenLibrary.Sound {κ : Type} (lib : TokenLibrary κ)
    (Signed : κ → String → String → TokenClaims → Prop) (expiry : TokenClaims → Option ℤ) :
    Prop where
  decode : ∀ token keys algorithms claims, lib.decode token keys algorithms = some claims →
    ∃ key ∈ keys, ∃ algorithm ∈ algorithms, Signed key algorithm token claims
  issuer : ∀ now issuer audience claims, lib.validate now (some issuer) audience claims = true →
    claims.lookup "iss" = some (.str issuer)
  expiry : ∀ now issuer audience claims, lib.validate now issuer audience claims = true →
    ∀ e ∈ expiry claims, now ≤ e

/-- `OAuthClient`, as far as tokens are verified with it. -/
structure OauthClientKeys where
  issuer : String
  jwksUri : Option String
  algorithms : List String := ["RS256"]
  audience : Option String := none
  roles : List String := []

/-- What the stores say at a time: the user of an issuer's subject, if subjects are mapped at all,
and whether a user is enabled, if users are looked up at all. -/
structure PrincipalStores where
  identities : Option (String → String → Option ℕ) := none
  users : Option (ℕ → Option Bool) := none

/-- `OAuthAuthenticator`. -/
structure OauthAuthenticator where
  jwksCacheTtl : Option ℤ := some 300
  allowedHosts : Option (List String) := none
  rolesClaim : String := "roles"
  scopeClaims : List String := ["scope", "scp"]

/-- A text, unless it is empty. -/
def nonEmpty (text : Option String) : Option String := text.filter (· ≠ "")

/-- A claim that is a text. -/
def claimText : JsonDocument → Option String
  | .str s => some s
  | _ => none

/-- `roles_from_credential` of a claim: a text with commas, or a list. -/
def rolesOfClaim : Option JsonDocument → List String
  | some (.str s) => rolesFromCredential ((s.toList.splitOn ',').map String.ofList)
  | some (.arr items) => rolesFromCredential (items.filterMap claimText)
  | some (.obj members) => rolesFromCredential (members.map (·.1))
  | _ => []

/-- `_scopes_from`: the first of the claims that is a text or a list. -/
def scopesFrom (claims : TokenClaims) : List String → List String
  | [] => []
  | name :: names =>
    match claims.lookup name with
    | some (.str s) => (PyText.words s.toList).map String.ofList
    | some (.arr items) => (items.filterMap claimText).filter (· ≠ "")
    | _ => scopesFrom claims names

/-- `_provenance_claims`. -/
def provenanceClaims (claims : TokenClaims) (rolesClaim : String) (scopeClaims : List String) :
    List (String × String) :=
  claims.filterMap fun (name, value) =>
    if name ∈ ["sub", "iss", "aud", "exp", "nbf", "iat", "jti"] ++ rolesClaim :: scopeClaims then
      none
    else (claimText value).map (name, ·)

section
variable {κ : Type} (lib : TokenLibrary κ) (a : OauthAuthenticator)

/-- `_unverified_issuer`. -/
def unverifiedIssuer (token : String) : Option String :=
  if (token.toList.splitOn '.').length ≠ 3 then none
  else
    match lib.payload token with
    | some (.obj members) => nonEmpty ((members.reverse.lookup "iss").bind claimText)
    | _ => none

/-- `_host_allowed`. -/
def OauthAuthenticator.hostAllowed (uri : String) : Bool :=
  match a.allowedHosts with
  | none => true
  | some hosts => (lib.hostname uri).any (· ∈ hosts)

/-- The algorithms that a client allows. -/
def OauthClientKeys.allowed (client : OauthClientKeys) : List String :=
  if client.algorithms = [] then ["RS256"] else client.algorithms

/-- `_verify`, once the keys are there. -/
def verifyToken (wall : ℤ) (client : OauthClientKeys) (keys : List κ) (token : String) :
    Option TokenClaims :=
  (lib.decode token keys client.allowed).filter fun claims =>
    lib.validate wall (nonEmpty (some client.issuer)) (nonEmpty client.audience) claims

/-- `_principal`. -/
def OauthAuthenticator.principal (stores : PrincipalStores) (client : OauthClientKeys)
    (claims : TokenClaims) : Option FullPrincipal :=
  match (claims.lookup "sub").bind claimText with
  | none => none
  | some subject =>
    let issuer := ((claims.lookup "iss").bind claimText).getD "None"
    let userId := stores.identities.bind fun find => find issuer subject
    if subject = "" ∨ (userId = none ∧ stores.identities.isSome) then none
    else some
      { id := userId
        roles := rolesOfClaim (claims.lookup a.rolesClaim) ++ rolesFromCredential client.roles
        kind := if userId.isSome then .user else .service
        externalId := some subject
        scopes := scopesFrom claims a.scopeClaims
        claims := provenanceClaims claims a.rolesClaim a.scopeClaims }

/-- `principal_is_active`. -/
def PrincipalStores.isActive (stores : PrincipalStores) (principal : FullPrincipal) : Bool :=
  match stores.users, principal.id with
  | some users, some id => (users id).getD false
  | _, _ => true

/-! ## Steps -/

/-- A request that waits for keys: those that the issuer has answered with, and when. -/
structure JwksFetch (κ : Type) where
  token : String
  client : OauthClientKeys
  uri : String
  keys : Option (List κ × ℤ) := none

/-- A token that was accepted: with which keys and stores, when, and for whom. -/
structure AcceptedToken (κ : Type) where
  token : String
  client : OauthClientKeys
  uri : String
  keys : List κ
  stores : PrincipalStores
  claims : TokenClaims
  principal : FullPrincipal
  time : ℤ
  wall : ℤ

/-- The monotonic clock and that of the wall, the keys that are kept and until when, the requests
that wait, and the tokens that were accepted. -/
structure BearerState (κ : Type) where
  now : ℤ := 0
  wall : ℤ := 0
  cache : List (String × List κ × ℤ) := []
  fetches : List (ℕ × JwksFetch κ) := []
  accepted : List (AcceptedToken κ) := []

/-- A step. A request with a token finds the clients that are registered then, and the stores are
asked when the keys are there. -/
inductive BearerAction where
  | tick (now wall : ℤ)
  | present (id : ℕ) (token : String) (clients : List OauthClientKeys) (stores : PrincipalStores)
  | respond (id : ℕ)
  | finish (id : ℕ) (stores : PrincipalStores)
  | fail (id : ℕ)

namespace BearerState

/-- `_cached`: the keys that are kept, unless their time is over, and then they go. -/
def cached (s : BearerState κ) (uri : String) : Option (List κ) × BearerState κ :=
  match a.jwksCacheTtl, s.cache.lookup uri with
  | none, _ | _, none => (none, s)
  | some _, some (keys, expiry) =>
    if expiry ≤ s.now then (none, { s with cache := s.cache.filter fun e => e.1 ≠ uri })
    else (some keys, s)

/-- `_cache`. -/
def keep (s : BearerState κ) (uri : String) (keys : List κ) : BearerState κ :=
  match a.jwksCacheTtl with
  | none => s
  | some ttl =>
    { s with cache := (uri, keys, s.now + ttl) :: s.cache.filter fun e => e.1 ≠ uri }

/-- What is done with a token once the keys are there. -/
def verify (s : BearerState κ) (fetch : JwksFetch κ) (keys : List κ) (stores : PrincipalStores) :
    BearerState κ :=
  match verifyToken lib s.wall fetch.client keys fetch.token with
  | none => s
  | some claims =>
    match (a.principal stores fetch.client claims).filter stores.isActive with
    | none => s
    | some principal =>
      { s with accepted := s.accepted ++
          [⟨fetch.token, fetch.client, fetch.uri, keys, stores, claims, principal, s.now, s.wall⟩] }

/-- The client and the place of its keys, for a token. -/
def select (clients : List OauthClientKeys) (token : String) : Option (JwksFetch κ) := do
  let issuer ← unverifiedIssuer lib token
  let client ← clients.find? fun client => client.issuer = issuer
  let uri ← nonEmpty client.jwksUri
  if a.hostAllowed lib uri then some { token, client, uri } else none

/-- A step. What an issuer publishes depends on the time. -/
def step (published : String → ℤ → List κ) (s : BearerState κ) :
    BearerAction → Option (BearerState κ)
  | .tick now wall => if s.now ≤ now then some { s with now, wall } else none
  | .present id token clients stores =>
    match select lib a clients token with
    | none => some s
    | some fetch =>
      match s.cached a fetch.uri with
      | (some keys, s) => some (s.verify lib a fetch keys stores)
      | (none, s) =>
        if (s.fetches.lookup id).isSome then none
        else some { s with fetches := (id, fetch) :: s.fetches }
  | .respond id =>
    (s.fetches.lookup id).map fun fetch =>
      { s with fetches := (id, { fetch with keys := some (published fetch.uri s.now, s.now) }) ::
          s.fetches.filter fun e => e.1 ≠ id }
  | .finish id stores =>
    (s.fetches.lookup id).bind fun fetch => fetch.keys.map fun (keys, _) =>
      let s := { s with fetches := s.fetches.filter fun e => e.1 ≠ id }
      (s.keep a fetch.uri keys).verify lib a fetch keys stores
  | .fail id =>
    (s.fetches.lookup id).map fun _ => { s with fetches := s.fetches.filter fun e => e.1 ≠ id }

end BearerState

end

/-! ## What is accepted -/

section
variable {κ : Type} {lib : TokenLibrary κ} {a : OauthAuthenticator}
  {published : String → ℤ → List κ} {Signed : κ → String → String → TokenClaims → Prop}
  {expiry : TokenClaims → Option ℤ} {registered : OauthClientKeys → Prop} {latency : ℤ}

variable (lib a Signed expiry) in
/-- A fetch is for a client that is registered, and whose issuer the token names. -/
structure Selected (registered : OauthClientKeys → Prop) (fetch : JwksFetch κ) : Prop where
  registered : registered fetch.client
  issuer : unverifiedIssuer lib fetch.token = some fetch.client.issuer
  uri : nonEmpty fetch.client.jwksUri = some fetch.uri
  host : a.hostAllowed lib fetch.uri = true

variable (lib a published Signed expiry latency) in
/-- **A token that may be accepted.** Its keys are those that the issuer of a registered client has
published, no longer ago than they may be kept and a fetch may take; one of them has signed the
token with an algorithm of the client; the claims name the client's issuer and have not expired; and
the principal is that of the claims, and active. -/
structure Genuine (registered : OauthClientKeys → Prop) (e : AcceptedToken κ) : Prop where
  selected : Selected lib a registered ⟨e.token, e.client, e.uri, none⟩
  fresh : ∃ τ ≤ e.time, e.time ≤ τ + latency + max (a.jwksCacheTtl.getD 0) 0 ∧
    e.keys = published e.uri τ
  signed : ∃ key ∈ e.keys, ∃ algorithm ∈ e.client.allowed, Signed key algorithm e.token e.claims
  issuer : e.claims.lookup "iss" = some (.str e.client.issuer)
  alive : ∀ x ∈ expiry e.claims, e.wall ≤ x
  principal : a.principal e.stores e.client e.claims = some e.principal
  active : e.stores.isActive e.principal = true

variable (lib a published Signed expiry registered latency) in
/-- The keys that are kept are not kept too long, the requests that wait have found their clients,
and all tokens that were accepted may be. -/
structure BearerState.Good (s : BearerState κ) : Prop where
  cache : ∀ e ∈ s.cache, ∃ τ ≤ s.now, e.2.1 = published e.1 τ ∧
    e.2.2 ≤ τ + latency + max (a.jwksCacheTtl.getD 0) 0
  fetches : ∀ e ∈ s.fetches, Selected lib a registered e.2 ∧
    ∀ r ∈ e.2.keys, r.2 ≤ s.now ∧ r.1 = published e.2.uri r.2
  accepted : ∀ e ∈ s.accepted, Genuine lib a published Signed expiry latency registered e

theorem ne_of_nonEmpty {text : Option String} {s : String} (h : nonEmpty text = some s) :
    text = some s ∧ s ≠ "" := by
  obtain ⟨htext, hne⟩ := Option.filter_eq_some_iff.mp h
  exact ⟨htext, by simpa using hne⟩

/-- A request that is selected is for a registered client with the token's issuer. -/
theorem selected_select {clients : List OauthClientKeys} {token : String} {fetch : JwksFetch κ}
    (hclients : ∀ client ∈ clients, registered client)
    (h : BearerState.select lib a clients token = some fetch) :
    Selected lib a registered fetch ∧ fetch.token = token ∧ fetch.keys = none := by
  obtain ⟨issuer, hissuer, h⟩ := Option.bind_eq_some_iff.mp h
  obtain ⟨client, hclient, h⟩ := Option.bind_eq_some_iff.mp h
  obtain ⟨uri, huri, h⟩ := Option.bind_eq_some_iff.mp h
  split at h
  · next hhost =>
      cases h
      obtain rfl : client.issuer = issuer := by simpa using List.find?_some hclient
      exact ⟨⟨hclients client (List.mem_of_find?_eq_some hclient), hissuer, huri, hhost⟩, rfl, rfl⟩
  · cases h

/-- The token of a selected request names an issuer. -/
theorem Selected.issuer_ne {fetch : JwksFetch κ} (h : Selected lib a registered fetch) :
    fetch.client.issuer ≠ "" := by
  have hissuer := h.issuer
  rw [unverifiedIssuer] at hissuer
  split at hissuer
  · cases hissuer
  · split at hissuer
    · exact (ne_of_nonEmpty hissuer).2
    · cases hissuer

theorem BearerState.Good.verify (hlib : lib.Sound Signed expiry) {s : BearerState κ}
    {fetch : JwksFetch κ} {keys : List κ} {stores : PrincipalStores}
    (h : s.Good lib a published Signed expiry registered latency)
    (hfetch : Selected lib a registered fetch)
    (hkeys : ∃ τ ≤ s.now, s.now ≤ τ + latency + max (a.jwksCacheTtl.getD 0) 0 ∧
      keys = published fetch.uri τ) :
    (s.verify lib a fetch keys stores).Good lib a published Signed expiry registered latency := by
  rw [BearerState.verify]
  split
  · exact h
  · next claims hclaims =>
      split
      · exact h
      · next principal hprincipal =>
          obtain ⟨hdecode, hvalid⟩ := Option.filter_eq_some_iff.mp hclaims
          obtain ⟨hprincipal, hactive⟩ := Option.filter_eq_some_iff.mp hprincipal
          have hissuer : nonEmpty (some fetch.client.issuer) = some fetch.client.issuer :=
            Option.filter_eq_some_iff.mpr ⟨rfl, by simpa using hfetch.issuer_ne⟩
          rw [hissuer] at hvalid
          refine ⟨h.cache, h.fetches, fun e he => ?_⟩
          rcases List.mem_append.mp he with he | he
          · exact h.accepted e he
          · rw [List.mem_singleton.mp he]
            exact ⟨⟨hfetch.registered, hfetch.issuer, hfetch.uri, hfetch.host⟩, hkeys,
              hlib.decode _ _ _ _ hdecode, hlib.issuer _ _ _ _ hvalid,
              hlib.expiry _ _ _ _ hvalid, hprincipal, hactive⟩

/-- Keys that were fetched in time are not kept too long. -/
theorem BearerState.Good.keep {s : BearerState κ} {uri : String} {keys : List κ} {τ : ℤ}
    (h : s.Good lib a published Signed expiry registered latency) (hτ : τ ≤ s.now)
    (hlatency : s.now ≤ τ + latency) (hkeys : keys = published uri τ) :
    (s.keep a uri keys).Good lib a published Signed expiry registered latency := by
  rw [BearerState.keep]
  split
  · exact h
  · next ttl httl =>
      refine ⟨fun e he => ?_, h.fetches, h.accepted⟩
      rcases List.mem_cons.mp he with rfl | he
      · refine ⟨τ, hτ, hkeys, ?_⟩
        rw [httl, Option.getD_some]
        change s.now + ttl ≤ _
        omega
      · exact h.cache e (List.mem_of_mem_filter he)

theorem mem_of_lookup {α β : Type} [BEq α] [LawfulBEq α] {l : List (α × β)} {x : α} {y : β}
    (h : l.lookup x = some y) : (x, y) ∈ l := by
  obtain ⟨before, after, heq, -⟩ := List.lookup_eq_some_iff.mp h
  rw [heq]
  exact List.mem_append_right _ List.mem_cons_self

/-- Keys that are kept are used while their time lasts. -/
theorem BearerState.Good.cached {s : BearerState κ}
    (h : s.Good lib a published Signed expiry registered latency) (uri : String) :
    (s.cached a uri).2.Good lib a published Signed expiry registered latency ∧
      (s.cached a uri).2.now = s.now ∧
        ∀ keys ∈ (s.cached a uri).1, ∃ τ ≤ s.now,
          s.now ≤ τ + latency + max (a.jwksCacheTtl.getD 0) 0 ∧ keys = published uri τ := by
  rw [BearerState.cached]
  split
  · exact ⟨h, rfl, by rintro keys ⟨⟩⟩
  · exact ⟨h, rfl, by rintro keys ⟨⟩⟩
  · next keys expiry _ hlookup =>
      split
      · refine ⟨⟨fun e he => h.cache e (List.mem_of_mem_filter he), h.fetches, h.accepted⟩, rfl, ?_⟩
        rintro keys ⟨⟩
      · next hlive =>
          refine ⟨h, rfl, ?_⟩
          rintro keys ⟨⟩
          obtain ⟨τ, hτ, hkeys, hexpiry⟩ := h.cache _ (mem_of_lookup hlookup)
          refine ⟨τ, hτ, ?_, hkeys⟩
          change expiry ≤ _ at hexpiry
          omega

variable (registered latency) in
/-- Requests find registered clients, and no fetch takes longer than the latency. -/
def BearerState.Timely (s : BearerState κ) : BearerAction → Prop
  | .present _ _ clients _ => ∀ client ∈ clients, registered client
  | .finish id _ => ∀ fetch r, s.fetches.lookup id = some fetch → fetch.keys = some r →
      s.now ≤ r.2 + latency
  | .tick .. | .respond _ | .fail _ => True

theorem BearerState.Good.step (hlib : lib.Sound Signed expiry) {s s' : BearerState κ}
    {act : BearerAction} (h : s.Good lib a published Signed expiry registered latency)
    (htimely : s.Timely registered latency act)
    (hstep : s.step lib a published act = some s') :
    s'.Good lib a published Signed expiry registered latency := by
  cases act with
  | tick now wall =>
      rw [BearerState.step] at hstep
      split at hstep
      · next hnow =>
          cases hstep
          refine ⟨fun e he => ?_, fun e he => ?_, h.accepted⟩
          · obtain ⟨τ, hτ, hkeys⟩ := h.cache e he
            exact ⟨τ, hτ.trans hnow, hkeys⟩
          · obtain ⟨hselected, hkeys⟩ := h.fetches e he
            exact ⟨hselected, fun r hr => ⟨(hkeys r hr).1.trans hnow, (hkeys r hr).2⟩⟩
      · cases hstep
  | present id token clients stores =>
      rw [BearerState.step] at hstep
      split at hstep
      · cases hstep
        exact h
      · next fetch hselect =>
          obtain ⟨hselected, -, hnone⟩ := selected_select htimely hselect
          obtain ⟨hgood, hnow, hkeys⟩ := h.cached fetch.uri
          split at hstep
          · next keys t hcached =>
              rw [hcached] at hgood hnow hkeys
              cases hstep
              refine BearerState.Good.verify hlib hgood hselected ?_
              rw [hnow]
              exact hkeys keys rfl
          · next t hcached =>
              rw [hcached] at hgood
              split at hstep
              · cases hstep
              · cases hstep
                refine ⟨hgood.cache, List.forall_mem_cons.mpr ⟨⟨hselected, ?_⟩, hgood.fetches⟩,
                  hgood.accepted⟩
                rw [hnone]
                rintro r ⟨⟩
  | respond id =>
      obtain ⟨fetch, hfetch, rfl⟩ := Option.map_eq_some_iff.mp hstep
      obtain ⟨hselected, -⟩ := h.fetches _ (mem_of_lookup hfetch)
      refine ⟨h.cache, List.forall_mem_cons.mpr ⟨⟨⟨hselected.registered, hselected.issuer,
        hselected.uri, hselected.host⟩, ?_⟩, fun e he => h.fetches e (List.mem_of_mem_filter he)⟩,
        h.accepted⟩
      rintro r ⟨⟩
      exact ⟨le_refl _, rfl⟩
  | finish id stores =>
      obtain ⟨fetch, hfetch, hstep⟩ := Option.bind_eq_some_iff.mp hstep
      obtain ⟨⟨keys, τ⟩, hkeys, rfl⟩ := Option.map_eq_some_iff.mp hstep
      obtain ⟨hselected, hanswer⟩ := h.fetches _ (mem_of_lookup hfetch)
      obtain ⟨hτ, hpublished⟩ := hanswer _ hkeys
      have hlatency := htimely fetch _ hfetch hkeys
      have hgood : BearerState.Good lib a published Signed expiry registered latency
          { s with fetches := s.fetches.filter fun e => e.1 ≠ id } :=
        ⟨h.cache, fun e he => h.fetches e (List.mem_of_mem_filter he), h.accepted⟩
      refine BearerState.Good.verify hlib (hgood.keep hτ hlatency hpublished) hselected
        ⟨τ, ?_, ?_, hpublished⟩
      · rw [BearerState.keep]
        split <;> exact hτ
      · have hnow : (BearerState.keep a { s with fetches := s.fetches.filter fun e => e.1 ≠ id }
            fetch.uri keys).now = s.now := by
          rw [BearerState.keep]
          split <;> rfl
        rw [hnow]
        change s.now ≤ τ + latency at hlatency
        omega
  | fail id =>
      obtain ⟨fetch, -, rfl⟩ := Option.map_eq_some_iff.mp hstep
      exact ⟨h.cache, fun e he => h.fetches e (List.mem_of_mem_filter he), h.accepted⟩

end

end Resourcey
