import Mathlib.Data.List.Basic

/-!
# Bounded buffers

A buffer of a capacity to which elements are pushed at one end and from which they are taken at the
other. A push to a full buffer drops the oldest element. `fates` says of each element that left the
buffer, in order, whether it was taken or dropped. What was pushed is what left the buffer followed
by what is pending (`Fed.eq`), so a gap in what is taken is always before everything that is pending.
-/

namespace Resourcey

/-- How an element leaves a buffer. -/
inductive Fate where
  | taken
  | dropped
  deriving DecidableEq

/-- A buffer, with the elements that have left it. -/
structure BoundedBuffer (α : Type) where
  fates : List (α × Fate) := []
  pending : List α := []

namespace BoundedBuffer

variable {α : Type} (capacity : ℕ)

/-- A push. It drops the oldest element if exactly as many as the capacity are pending. -/
def push (b : BoundedBuffer α) (a : α) : BoundedBuffer α :=
  match b.pending with
  | [] => ⟨b.fates, [a]⟩
  | oldest :: rest =>
    if b.pending.length = capacity then ⟨b.fates ++ [(oldest, .dropped)], rest ++ [a]⟩
    else ⟨b.fates, b.pending ++ [a]⟩

/-- The oldest element is taken. -/
def pop (b : BoundedBuffer α) : BoundedBuffer α :=
  match b.pending with
  | [] => b
  | oldest :: rest => ⟨b.fates ++ [(oldest, .taken)], rest⟩

/-- What was taken. -/
def taken (b : BoundedBuffer α) : List α := (b.fates.filter fun f => f.2 = .taken).map Prod.fst

/-- A buffer after the elements were pushed, in this order, with pops in between. -/
inductive Fed : List α → BoundedBuffer α → Prop
  | empty : Fed [] {}
  | push {as b} (a) : Fed as b → Fed (as ++ [a]) (b.push capacity a)
  | pop {as b} : Fed as b → Fed as b.pop

variable {capacity} {as : List α} {b : BoundedBuffer α}

/-- **What was pushed has left the buffer or is pending**, in this order. -/
theorem Fed.eq (h : Fed capacity as b) : as = b.fates.map Prod.fst ++ b.pending := by
  induction h with
  | empty => rfl
  | @push as b a _ ih =>
      rw [ih, BoundedBuffer.push]
      split
      · rename_i hpending
        rw [hpending, List.append_nil]
      · rename_i oldest rest hpending
        split <;> simp [hpending]
  | @pop as b _ ih =>
      rw [ih, BoundedBuffer.pop]
      split
      · rfl
      · rename_i oldest rest hpending
        simp [hpending]

/-- A buffer holds no more than its capacity. -/
theorem Fed.length_le (hcapacity : 1 ≤ capacity) (h : Fed capacity as b) :
    b.pending.length ≤ capacity := by
  induction h with
  | empty => exact Nat.zero_le _
  | @push as b a _ ih =>
      rw [BoundedBuffer.push]
      split
      · exact hcapacity
      · rename_i oldest rest hpending
        rw [hpending, List.length_cons] at ih
        split
        · rw [List.length_append, List.length_singleton]
          omega
        · rename_i hne
          rw [hpending, List.length_cons] at hne
          rw [hpending, List.length_append, List.length_cons, List.length_singleton]
          omega
  | @pop as b _ ih =>
      rw [BoundedBuffer.pop]
      split
      · exact ih
      · rename_i oldest rest hpending
        rw [hpending, List.length_cons] at ih
        exact Nat.le_of_succ_le ih

/-- Nothing is dropped before more than the capacity was pushed. -/
theorem Fed.forall_taken (h : Fed capacity as b) (hlength : as.length ≤ capacity) :
    ∀ f ∈ b.fates, f.2 = .taken := by
  induction h with
  | empty => nofun
  | @push as b a hfed ih =>
      rw [List.length_append, List.length_singleton] at hlength
      have ih := ih (by omega)
      have hpushed := congrArg List.length hfed.eq
      rw [List.length_append] at hpushed
      rw [BoundedBuffer.push]
      split
      · exact ih
      · rw [if_neg (by omega)]
        exact ih
  | @pop as b _ ih =>
      have ih := ih hlength
      rw [BoundedBuffer.pop]
      split
      · exact ih
      · intro f hf
        rcases List.mem_append.mp hf with hf | hf
        · exact ih f hf
        · rw [List.mem_singleton.mp hf]

theorem taken_pop {oldest : α} {rest : List α} (h : b.pending = oldest :: rest) :
    b.pop.taken = b.taken ++ [oldest] ∧ b.pop.pending = rest := by
  simp [pop, h, taken]

theorem taken_push (a : α) : (b.push capacity a).taken = b.taken := by
  rw [push]
  split
  · rfl
  · split
    · simp [taken]
    · rfl

end BoundedBuffer

end Resourcey
