import Resourcey.Core.Service

/-!
# Stored OAuth tokens

The `oauth_tokens` row of one (principal, client) pair, the statements that read and write it, and
`refresh`, which puts them together. The pair is unique and every statement names it, so no other
row matters, and the secrets are read as they were written: their encryption is left out.
Instants are microseconds.
-/

namespace Resourcey

/-- An `oauth_tokens` row, its secrets decrypted; the lease is held by an owner of type `π`. -/
structure OAuthToken (π : Type) where
  accessToken : String
  refreshToken : Option String
  expiresAt : ℤ
  refreshExpiresAt : Option ℤ
  scope : Option String
  leaseOwner : Option π := none
  leaseUntil : Option ℤ := none
  deriving DecidableEq

/-- The pair as the service returns it. -/
structure StoredToken where
  accessToken : String
  refreshToken : Option String
  expiresAt : ℤ
  refreshExpiresAt : Option ℤ
  scope : Option String
  revoked : Bool := false
  deriving DecidableEq

/-- A provider's token response, normalised. -/
structure TokenResponse where
  accessToken : String
  idToken : Option String := none
  refreshToken : Option String := none
  expiresAt : ℤ
  refreshExpiresAt : Option ℤ := none
  scope : Option String := none
  deriving DecidableEq

/-- Whom a pair belongs to, as the messages name it. -/
structure TokenPair where
  principalId : String
  clientId : String

/-- The settings of a refresh, in seconds. -/
structure OAuthSettings where
  leaseSeconds : ℤ := 30
  skewSeconds : ℤ := 30

/-- `_REFRESH_POLL_ATTEMPTS`. -/
def refreshPollAttempts : ℕ := 40

namespace OAuthTokenService

variable {π : Type}

/-- `_decrypt_row`. -/
def decryptRow (row : OAuthToken π) : StoredToken where
  accessToken := row.accessToken
  refreshToken := row.refreshToken
  expiresAt := row.expiresAt
  refreshExpiresAt := row.refreshExpiresAt
  scope := row.scope

/-- `store`: the row of the pair after the upsert, with the lease cleared. -/
def store (response : TokenResponse) : OAuthToken π where
  accessToken := response.accessToken
  refreshToken := response.refreshToken
  expiresAt := response.expiresAt
  refreshExpiresAt := response.refreshExpiresAt
  scope := response.scope

/-- Whether the row admits a claim: it is unleased, or its lease has expired. -/
def claimable (now : ℤ) (row : OAuthToken π) : Prop :=
  row.leaseOwner = none ∨ ∃ t ∈ row.leaseUntil, t < now

instance (now : ℤ) (row : OAuthToken π) : Decidable (claimable now row) :=
  @instDecidableOr _ _ (decidable_of_iff (row.leaseOwner.isNone = true) Option.isNone_iff_eq_none) _

/-- `_claim`: the conditional update, and whether it matched the row. -/
def claim (settings : OAuthSettings) (owner : π) (now : ℤ) :
    Option (OAuthToken π) → Bool × Option (OAuthToken π)
  | none => (false, none)
  | some row =>
    if claimable now row then
      (true, some { row with
        leaseOwner := some owner, leaseUntil := some (now + settings.leaseSeconds * 1000000) })
    else (false, some row)

/-- Whether a pair is fresh enough to be returned as it is. -/
def fresh (settings : OAuthSettings) (now : ℤ) (current : StoredToken) : Prop :=
  now + settings.skewSeconds * 1000000 < current.expiresAt

instance (settings : OAuthSettings) (now : ℤ) (current : StoredToken) :
    Decidable (fresh settings now current) :=
  inferInstanceAs (Decidable (_ < _))

/-- `_await_fresh`, over the rows it finds at its polls. -/
def awaitFresh : List (ℤ × Option (OAuthToken π)) → Except ResourceyError StoredToken
  | [] => .error (.invalidInput
      "Timed out waiting for a concurrent token refresh; retry the request.")
  | (_, none) :: _ => .error (.invalidInput "Stored token was revoked during refresh")
  | (now, some row) :: polls =>
    if now < row.expiresAt then .ok (decryptRow row) else awaitFresh polls

/-- What a refresh meets at its awaits: the clock, what other sessions do to the row between the
read and the claim, and the rows of its polls. -/
structure Awaits (π : Type) where
  readAt : ℤ
  claimAt : ℤ
  others : Option (OAuthToken π) → Option (OAuthToken π) := id
  polls : List (ℤ × Option (OAuthToken π)) := []

/-- `refresh`, with the row after it. A claimed row is this session's own until it ends, so nothing
happens to it between the claim and the store or the revoke. -/
def refresh (settings : OAuthSettings) (pair : TokenPair) (owner : π) (awaits : Awaits π)
    (provider : Option String → Except ResourceyError TokenResponse) (row : Option (OAuthToken π)) :
    Except ResourceyError StoredToken × Option (OAuthToken π) :=
  match row with
  | none => (.error (.invalidInput ("No stored token for principal " ++ pair.principalId ++
      " and client '" ++ pair.clientId ++ "'")), none)
  | some stored =>
    let current := decryptRow stored
    if fresh settings awaits.readAt current then (.ok current, row)
    else
      match claim settings owner awaits.claimAt (awaits.others row) with
      | (false, row) => (awaitFresh (awaits.polls.take refreshPollAttempts), row)
      | (true, _) =>
        match provider current.refreshToken with
        | .error _ => (.error (.invalidInput ("Refresh failed for principal " ++
            pair.principalId ++ " and client '" ++ pair.clientId ++
            "'; the stored token has been revoked and re-authentication is required.")), none)
        | .ok response => (.ok (decryptRow (store response : OAuthToken π)), some (store response))

end OAuthTokenService

end Resourcey
