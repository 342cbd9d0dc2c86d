import Resourcey.Core.Service

/-!
# The service interface

A service answers calls over a state that it reads and writes. What a call returns depends on the
call, and a call that raises may have written before. The services of the repository are
instances over their stores, and the wrappers around them are functions from services to services.
-/

namespace Resourcey

/-- A call of the service, with what the environment supplies to its defaults. -/
inductive ServiceCall (κ π φ : Type) where
  | create (env : φ) (payload : π)
  | read (id : Value)
  | update (env : φ) (payload : π) (condition : Option SearchFilter)
  | delete (id : Value) (condition : Option SearchFilter)
  | search (searchFilter : Option SearchFilter) (sort : Option SortOrder) (cursor : Option κ)
      (limit : ℕ)
  | count (searchFilter : Option SearchFilter)
  | batchRead (ids : List Value)
  | authorize (action : String) (id : Value)
  | applyEdits (edits : List (φ × Edit π))

/-- A failure of a call. `notImplemented` is the default of an action that a service does not
have, and `other` an exception outside the contract. -/
inductive ServiceFailure where
  | raised (e : ResourceyError)
  | notImplemented
  | other (error : String)
  deriving DecidableEq

/-- What a call returns. -/
@[reducible] def ServiceCall.Reply {κ π φ : Type} (α : Type) : ServiceCall κ π φ → Type
  | .create _ _ | .read _ | .authorize _ _ => α
  | .update _ _ _ => Option α
  | .delete _ _ => Bool
  | .search _ _ _ _ => Page α κ
  | .count _ => ℕ
  | .batchRead _ | .applyEdits _ => List (Option α)

/-- A service over a state: what each call returns or raises and the state it leaves, and the two
facts that a response is rendered by. -/
structure Service (σ α κ π φ : Type) where
  call : (c : ServiceCall κ π φ) → σ → Except ServiceFailure (c.Reply α) × σ
  serializationContext : σ → Option (List (String × Value)) := fun _ => none
  responseIsPrivate : σ → Bool := fun _ => false

/-- The edits of a write, as a trigger is told of them. -/
def ServiceCall.edits {κ π φ : Type} : ServiceCall κ π φ → Option (List (Edit π))
  | .create _ payload => some [.create payload]
  | .update _ payload condition => some [.update payload condition]
  | .delete id condition => some [.delete id condition]
  | .applyEdits edits => some (edits.map Prod.snd)
  | _ => none

/-- The results of a write, as a trigger is told of them: a deletion has none. -/
def ServiceCall.results {κ π φ α : Type} : (c : ServiceCall κ π φ) → c.Reply α → List (Option α)
  | .create _ _, r => [some r]
  | .update _ _ _, r => [r]
  | .delete _ _, _ => [none]
  | .applyEdits _, rs => rs
  | _, _ => []

end Resourcey
