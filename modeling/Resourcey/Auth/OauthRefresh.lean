import Resourcey.Auth.OauthToken

/-!
# One refresh after another

A refresh inside `async with token_service`, on a session of the service's own, and a sequence of
refreshes against a provider that may omit the refresh token.

A refresh that fails at the provider deletes the pair and raises, and the error leaves the
`async with`, whose exit rolls the deletion back: the pair is there as it was
(`failed_refresh_survives`). A refresh that succeeds stores what the response says, an omitted
refresh token too, and then there is none to present the next time: the pair can be refreshed again
exactly when every response brought a new one (`refreshes_usable_iff`).
-/

namespace Resourcey

/-- A value of a JSON object. No float is read as a number of seconds. -/
inductive Json where
  | null
  | bool (b : Bool)
  | int (n : ℤ)
  | float (text : String)
  | str (s : String)
  | array
  | object
  deriving DecidableEq

/-- `int(value)` of what `str(value).isdigit()` accepts. -/
def Json.digits : Json → Option ℤ
  | .int n => if 0 ≤ n then some n else none
  | .str s =>
    if s ≠ "" ∧ s.toList.all Char.isDigit then
      some (s.toList.foldl (fun n c => 10 * n + (c.toNat - '0'.toNat)) 0)
    else none
  | _ => none

/-- A string that is not empty. -/
def Json.text : Json → Option String
  | .str s => if s = "" then none else some s
  | _ => none

/-- `TokenResponse.from_payload`. An absent key is read as `null`. -/
def TokenResponse.fromPayload (now : ℤ) (payload : String → Json) :
    Except ResourceyError TokenResponse :=
  match (payload "access_token").text with
  | none => .error (.invalidInput "Token endpoint returned no access_token")
  | some accessToken => .ok
    { accessToken
      idToken := (payload "id_token").text
      refreshToken := (payload "refresh_token").text
      expiresAt := now + ((payload "expires_in").digits.getD 3600) * 1000000
      refreshExpiresAt := (payload "refresh_expires_in").digits.map fun n => now + n * 1000000
      scope := match payload "scope" with
        | .str s => some s
        | _ => none }

/-- The client row a grant is made with. -/
structure OAuthClient where
  id : String
  clientId : Option String := none
  clientSecret : Option String := none
  tokenUrl : Option String := none
  refreshUrl : Option String := none

/-- `value or other`, for strings that may be absent. -/
def orText (value other : Option String) : Option String :=
  if value.getD "" = "" then other else value

/-- `OAuthCredentialProvider.refresh`: the grant posted to the token endpoint, and its response. -/
def OAuthClient.refresh (client : OAuthClient) (now : ℤ)
    (post : String → List (String × String) → Except ResourceyError (String → Json))
    (refreshToken : Option String) : Except ResourceyError TokenResponse :=
  if refreshToken.getD "" = "" then
    .error (.invalidInput ("Client '" ++ client.id ++ "' has no refresh token to exchange"))
  else
    let url := (orText client.refreshUrl client.tokenUrl).getD ""
    if url = "" then
      .error (.invalidInput ("Client '" ++ client.id ++ "' has no token / refresh URL"))
    else
      let clientId := client.clientId.getD ""
      let form := [("grant_type", "refresh_token"), ("refresh_token", refreshToken.getD "")] ++
        (if clientId = "" then [] else [("client_id", clientId)]) ++
        (client.clientSecret.elim [] fun secret => [("client_secret", secret)])
      match post url form with
      | .error e => .error e
      | .ok payload => TokenResponse.fromPayload now payload

namespace OAuthTokenService

variable {π : Type}

/-- `SqlService.__aexit__` of a service that opened its session: an error rolls back to what the
other sessions have committed. -/
def exit (committed : Option (OAuthToken π)) :
    Except ResourceyError StoredToken × Option (OAuthToken π) →
      Except ResourceyError StoredToken × Option (OAuthToken π)
  | (.error e, _) => (.error e, committed)
  | (.ok token, row) => (.ok token, row)

/-- `async with token_service: await token_service.refresh(…)`. -/
def refreshInService (settings : OAuthSettings) (pair : TokenPair) (owner : π) (awaits : Awaits π)
    (provider : Option String → Except ResourceyError TokenResponse) (row : Option (OAuthToken π)) :
    Except ResourceyError StoredToken × Option (OAuthToken π) :=
  exit (awaits.others row) (refresh settings pair owner awaits provider row)

/-- The refresh claims a stale pair, and the provider then raises. -/
def FailsAtProvider (settings : OAuthSettings) (owner : π) (awaits : Awaits π)
    (provider : Option String → Except ResourceyError TokenResponse)
    (row : Option (OAuthToken π)) : Prop :=
  ∃ stored, row = some stored ∧ ¬ fresh settings awaits.readAt (decryptRow stored) ∧
    (claim settings owner awaits.claimAt (awaits.others row)).1 = true ∧
    ∃ e, provider stored.refreshToken = .error e

section Rollback

variable {settings : OAuthSettings} {pair : TokenPair} {owner : π} {awaits : Awaits π}
  {provider : Option String → Except ResourceyError TokenResponse} {row : Option (OAuthToken π)}

/-- Only a row that is there is claimed. -/
theorem exists_of_claim {now : ℤ} (h : (claim settings owner now row).1 = true) :
    ∃ stored, row = some stored := by
  cases row with
  | none => cases h
  | some stored => exact ⟨stored, rfl⟩

/-- A refresh that fails at the provider deletes the row and raises. -/
theorem refresh_of_failsAtProvider (h : FailsAtProvider settings owner awaits provider row) :
    ∃ e, refresh settings pair owner awaits provider row = (.error e, none) := by
  obtain ⟨stored, rfl, hstale, hclaim, e, he⟩ := h
  obtain ⟨claimed, hclaimed⟩ : ∃ claimed,
      claim settings owner awaits.claimAt (awaits.others (some stored)) = (true, claimed) :=
    ⟨_, Prod.ext hclaim rfl⟩
  have he' : provider (decryptRow stored).refreshToken = .error e := he
  simp only [refresh, if_neg hstale, hclaimed, he']
  exact ⟨_, rfl⟩

/-- **A failed refresh revokes nothing.** Whenever a refresh in its service fails at the provider,
the error rolls the deletion back: the pair is there as the other sessions left it. -/
theorem failed_refresh_survives (h : FailsAtProvider settings owner awaits provider row) :
    ∃ e, refreshInService settings pair owner awaits provider row = (.error e, awaits.others row) ∧
      (refreshInService settings pair owner awaits provider row).2 ≠ none := by
  obtain ⟨e, he⟩ : ∃ e, refresh settings pair owner awaits provider row = (.error e, none) :=
    refresh_of_failsAtProvider h
  have hexit : refreshInService settings pair owner awaits provider row
      = (.error e, awaits.others row) := by
    rw [refreshInService, he]
    rfl
  obtain ⟨-, -, -, hclaim, -⟩ := h
  obtain ⟨claimed, hclaimed⟩ := exists_of_claim hclaim
  refine ⟨e, hexit, ?_⟩
  rw [hexit, hclaimed]
  exact Option.some_ne_none _

end Rollback

/-- A stale pair, whose refresh token the provider no longer accepts. -/
def stalePair : OAuthToken ℕ where
  accessToken := "a0"
  refreshToken := some "r0"
  expiresAt := 0
  refreshExpiresAt := none
  scope := none

/-- A provider that refuses every token. -/
def refuses (_ : Option String) : Except ResourceyError TokenResponse :=
  .error (.invalidInput "invalid_grant")

theorem stalePair_failsAtProvider :
    FailsAtProvider {} 7 ⟨1, 1, id, []⟩ refuses (some stalePair) :=
  ⟨stalePair, rfl, by decide, by decide, _, rfl⟩

/-- The pair that was not revoked. -/
theorem failed_refresh_survives_stale :
    (refreshInService {} ⟨"p", "c"⟩ 7 ⟨1, 1, id, []⟩ refuses (some stalePair)).2 ≠ none := by
  obtain ⟨e, -, hne⟩ := failed_refresh_survives stalePair_failsAtProvider
  exact hne

/-- After a refresh that failed at the provider the pair is there, and the next refresh presents the
same refresh token again. -/
theorem failed_refresh_represents :
    let row := (refreshInService {} ⟨"p", "c"⟩ 7 ⟨1, 1, id, []⟩ refuses (some stalePair)).2
    FailsAtProvider {} 7 ⟨1, 1, id, []⟩ refuses (some stalePair) ∧ row = some stalePair ∧
      (refreshInService {} ⟨"p", "c"⟩ 8 ⟨2, 2, id, []⟩ (fun presented =>
        .ok { accessToken := presented.getD "", expiresAt := 9 }) row).1.toOption.map
          StoredToken.accessToken = some "r0" := by
  refine ⟨stalePair_failsAtProvider, ?_, ?_⟩
  · decide
  · decide

/-! ## A sequence of refreshes -/

/-- One refresh of a sequence: when it runs, and what the provider answers to its grant. -/
structure Exchange where
  readAt : ℤ
  claimAt : ℤ
  receivedAt : ℤ
  payload : String → Json

/-- The provider's answer brings a new refresh token. -/
def Exchange.Issues (e : Exchange) : Prop := (e.payload "refresh_token").text.isSome

/-- A provider that accepts the tokens of `accepts`, and of `accepts'` after an exchange: a token it
issues is accepted, and where it omits one the presented token remains so. -/
def Conforming (e : Exchange) (presented : String) (accepts' : String → Prop) : Prop :=
  match (e.payload "refresh_token").text with
  | some issued => accepts' issued
  | none => accepts' presented

/-- The pair can be refreshed: it holds a refresh token that the provider accepts. -/
def Usable (row : Option (OAuthToken π)) (accepts : String → Prop) : Prop :=
  ∃ stored ∈ row, ∃ token ∈ stored.refreshToken, accepts token

/-- The refresh of an exchange. -/
def Exchange.refresh (e : Exchange) (settings : OAuthSettings) (pair : TokenPair) (owner : π)
    (client : OAuthClient) (row : Option (OAuthToken π)) :
    Except ResourceyError StoredToken × Option (OAuthToken π) :=
  OAuthTokenService.refresh settings pair owner ⟨e.readAt, e.claimAt, id, []⟩
    (client.refresh e.receivedAt fun _ _ => .ok e.payload) row

/-- A sequence of successful refreshes of a stale pair, each presenting an accepted token. -/
inductive Refreshes (settings : OAuthSettings) (pair : TokenPair) (owner : π)
    (client : OAuthClient) : Option (OAuthToken π) → (String → Prop) → List Exchange →
      Option (OAuthToken π) → (String → Prop) → Prop
  | nil {row accepts} : Refreshes settings pair owner client row accepts [] row accepts
  | cons {stored accepts e presented token row accepts' es row' accepts''} :
      ¬ fresh settings e.readAt (decryptRow stored) → stored.refreshToken = some presented →
      accepts presented →
      e.refresh settings pair owner client (some stored) = (.ok token, row) →
      Conforming e presented accepts' →
      Refreshes settings pair owner client row accepts' es row' accepts'' →
      Refreshes settings pair owner client (some stored) accepts (e :: es) row' accepts''

section Sequence

variable {settings : OAuthSettings} {pair : TokenPair} {owner : π} {client : OAuthClient}

/-- What a successful grant brings is what the payload says. -/
theorem client_refresh_ok {now : ℤ} {payload : String → Json} {presented : Option String}
    {response : TokenResponse}
    (h : client.refresh now (fun _ _ => .ok payload) presented = .ok response) :
    response.refreshToken = (payload "refresh_token").text := by
  simp only [OAuthClient.refresh] at h
  split at h
  · cases h
  · split at h
    · cases h
    · unfold TokenResponse.fromPayload at h
      split at h
      · cases h
      · cases h
        rfl

/-- A successful refresh of a stale pair stores the refresh token of the response, if it has one. -/
theorem exchange_refresh_ok {e : Exchange} {stored : OAuthToken π} {token : StoredToken}
    {row : Option (OAuthToken π)} (hstale : ¬ fresh settings e.readAt (decryptRow stored))
    (h : e.refresh settings pair owner client (some stored) = (.ok token, row))
    (hunleased : stored.leaseOwner = none) :
    ∃ stored', row = some stored' ∧ stored'.leaseOwner = none ∧
      stored'.refreshToken = (e.payload "refresh_token").text := by
  have hclaim : claim settings owner e.claimAt (some stored) = (true, some { stored with
      leaseOwner := some owner, leaseUntil := some (e.claimAt + settings.leaseSeconds * 1000000) }) :=
    if_pos (.inl hunleased)
  simp only [Exchange.refresh, refresh, if_neg hstale, id_eq, hclaim] at h
  split at h
  · cases h
  · next response hresponse =>
      cases h
      exact ⟨store response, rfl, rfl, client_refresh_ok hresponse⟩

/-- **A pair stays refreshable exactly when every response brings a new refresh token.** After a
sequence of successful refreshes the row holds a refresh token that the provider accepts if and only
if each of them was issued one. -/
theorem refreshes_usable_iff {row row' : Option (OAuthToken π)} {accepts accepts' : String → Prop}
    {es : List Exchange} (h : Refreshes settings pair owner client row accepts es row' accepts')
    (hrow : ∃ stored, row = some stored ∧ stored.leaseOwner = none) (husable : Usable row accepts) :
    Usable row' accepts' ↔ ∀ e ∈ es, e.Issues := by
  induction h with
  | nil => exact ⟨fun _ _ he => absurd he List.not_mem_nil, fun _ => husable⟩
  | @cons stored accepts e presented token row accepts' es row' accepts'' hstale hpresented haccepts
      hrefresh hconforming hrest ih =>
      obtain ⟨_, hstored, hunleased⟩ := hrow
      cases hstored
      obtain ⟨stored', rfl, hunleased', htoken⟩ := exchange_refresh_ok hstale hrefresh hunleased
      rw [List.forall_mem_cons]
      cases hissued : (e.payload "refresh_token").text with
      | some issued =>
          have hissues : e.Issues := by rw [Exchange.Issues, hissued]; rfl
          rw [hissued] at htoken
          rw [Conforming, hissued] at hconforming
          rw [ih ⟨stored', rfl, hunleased'⟩ ⟨stored', rfl, issued, htoken, hconforming⟩]
          exact (and_iff_right hissues).symm
      | none =>
          -- Nothing was issued: the row holds no token, and no refresh follows.
          have hnone : ¬ e.Issues := by rw [Exchange.Issues, hissued]; exact Bool.false_ne_true
          rw [hissued] at htoken
          refine ⟨fun hlast => ?_, fun hall => absurd hall.1 hnone⟩
          cases hrest with
          | nil =>
              obtain ⟨_, hlast, token, htoken', -⟩ := hlast
              cases hlast
              rw [htoken] at htoken'
              cases htoken'
          | cons _ hpresented' _ _ _ _ =>
              rw [htoken] at hpresented'
              cases hpresented'

end Sequence

/-- A client with a token endpoint. -/
def tokenClient : OAuthClient where
  id := "c"
  tokenUrl := some "https://idp.example/token"

/-- An exchange at an instant whose response expires at once, and may bring a refresh token. -/
def exchangeAt (now : ℤ) (issued : Json) : Exchange where
  readAt := now
  claimAt := now
  receivedAt := now
  payload := fun
    | "access_token" => .str "a1"
    | "refresh_token" => issued
    | "expires_in" => .int 0
    | _ => .null

/-- The pair that a response of such an exchange leaves. -/
def expiredPair (now : ℤ) (refreshToken : Option String) : OAuthToken ℕ where
  accessToken := "a1"
  refreshToken := refreshToken
  expiresAt := now
  refreshExpiresAt := none
  scope := none

/-- A provider that rotates the token at each of two refreshes. -/
theorem refreshes_usable_rotated :
    Usable (some (expiredPair 2 (some "r2"))) (fun token => token = "r2") := by
  have hfirst : (exchangeAt 1 (.str "r1")).refresh {} ⟨"p", "c"⟩ 7 tokenClient (some stalePair)
      = (.ok (decryptRow (expiredPair 1 (some "r1"))), some (expiredPair 1 (some "r1"))) := rfl
  have hsecond : (exchangeAt 2 (.str "r2")).refresh {} ⟨"p", "c"⟩ 7 tokenClient
      (some (expiredPair 1 (some "r1")))
      = (.ok (decryptRow (expiredPair 2 (some "r2"))), some (expiredPair 2 (some "r2"))) := rfl
  have hrotates : Conforming (exchangeAt 1 (.str "r1")) "r0" (fun token => token = "r1") := rfl
  have hrotates' : Conforming (exchangeAt 2 (.str "r2")) "r1" (fun token => token = "r2") := rfl
  have hrun : Refreshes {} ⟨"p", "c"⟩ 7 tokenClient (some stalePair) (fun token => token = "r0")
      [exchangeAt 1 (.str "r1"), exchangeAt 2 (.str "r2")] (some (expiredPair 2 (some "r2")))
      (fun token => token = "r2") :=
    .cons (by decide) rfl rfl hfirst hrotates (.cons (by decide) rfl rfl hsecond hrotates' .nil)
  refine (refreshes_usable_iff hrun ⟨stalePair, rfl, rfl⟩ ⟨stalePair, rfl, "r0", rfl, rfl⟩).mpr ?_
  simp [Exchange.Issues, exchangeAt, Json.text]

/-- A response without a refresh token leaves the pair without one, although the provider still
accepts the old one, and the next refresh fails and deletes the pair. -/
theorem refreshes_omitted :
    ∃ row : Option (OAuthToken ℕ), Refreshes {} ⟨"p", "c"⟩ 7 tokenClient (some stalePair)
        (fun token => token = "r0") [exchangeAt 1 .null] row (fun token => token = "r0") ∧
      ¬ Usable row (fun token => token = "r0") ∧
      ∃ e, (exchangeAt 2 .null).refresh {} ⟨"p", "c"⟩ 7 tokenClient row = (.error e, none) := by
  have hfirst : (exchangeAt 1 .null).refresh {} ⟨"p", "c"⟩ 7 tokenClient (some stalePair)
      = (.ok (decryptRow (expiredPair 1 none)), some (expiredPair 1 none)) := rfl
  have homits : Conforming (exchangeAt 1 .null) "r0" (fun token => token = "r0") := rfl
  refine ⟨some (expiredPair 1 none), ?_, ?_, _, rfl⟩
  · exact .cons (by decide) rfl rfl hfirst homits .nil
  · rintro ⟨_, ⟨⟩, token, ⟨⟩, -⟩

end OAuthTokenService

end Resourcey
