import Mathlib

/-!
# The leftmost of the best

Each of several candidates may give a value with a rank, and the value of the least rank is taken, of
several that of the leftmost. Taking the best of two is associative, so the best of a list is that of
its parts (`best_append`), and a candidate that is there already changes nothing
(`pick_best_of_mem`).
-/

namespace BestMatch

variable {ℓ α : Type*} [LinearOrder ℓ]

/-- The better of two, the left one of equals. -/
def pick : Option (ℓ × α) → Option (ℓ × α) → Option (ℓ × α)
  | none, v => v
  | some u, none => some u
  | some u, some v => if v.1 < u.1 then some v else some u

/-- The best of a list. -/
def best : List (Option (ℓ × α)) → Option (ℓ × α)
  | [] => none
  | v :: vs => pick v (best vs)

@[simp]
theorem pick_none (v : Option (ℓ × α)) : pick v none = v := by
  cases v <;> rfl

theorem pick_eq_none_iff {u v : Option (ℓ × α)} : pick u v = none ↔ u = none ∧ v = none := by
  rcases u with _ | u
  · simp [pick]
  rcases v with _ | v
  · simp
  · rw [pick]
    split <;> simp

theorem pick_assoc (u v w : Option (ℓ × α)) : pick (pick u v) w = pick u (pick v w) := by
  rcases u with _ | u
  · rfl
  rcases v with _ | v
  · rfl
  rcases w with _ | w
  · rw [pick_none, pick_none]
  rcases lt_or_ge v.1 u.1 with huv | huv
  · rw [pick, if_pos huv]
    rcases lt_or_ge w.1 v.1 with hvw | hvw
    · rw [pick, if_pos hvw, pick, if_pos (lt_trans hvw huv)]
    · rw [pick, if_neg (not_lt_of_ge hvw), pick, if_pos huv]
  · rw [pick, if_neg (not_lt_of_ge huv)]
    rcases lt_or_ge w.1 v.1 with hvw | hvw
    · rw [pick.eq_3 v w, if_pos hvw]
    · rw [pick.eq_3 v w, if_neg (not_lt_of_ge hvw), pick.eq_3 u v, if_neg (not_lt_of_ge huv), pick,
        if_neg (not_lt_of_ge (le_trans huv hvw))]

theorem pick_self (u : Option (ℓ × α)) : pick u u = u := by
  rcases u with _ | u
  · rfl
  · rw [pick, if_neg (lt_irrefl _)]

/-- What is no better than one is no better than the better of it and another. -/
theorem pick_absorb {u w : Option (ℓ × α)} (h : pick u w = u) (v : Option (ℓ × α)) :
    pick (pick u v) w = pick u v := by
  rcases u with _ | u
  · obtain rfl : w = none := h
    exact pick_none _
  rcases w with _ | w
  · exact pick_none _
  rcases v with _ | v
  · rw [pick_none, h]
  have huw : ¬ w.1 < u.1 := by
    intro hlt
    rw [pick, if_pos hlt] at h
    cases h
    exact lt_irrefl _ hlt
  rcases lt_or_ge v.1 u.1 with huv | huv
  · rw [pick, if_pos huv, pick, if_neg fun hlt => huw (lt_trans hlt huv)]
  · rw [pick.eq_3 u v, if_neg (not_lt_of_ge huv), h]

/-- **The best of two lists** is the better of their best. -/
theorem best_append (us vs : List (Option (ℓ × α))) :
    best (us ++ vs) = pick (best us) (best vs) := by
  induction us with
  | nil => rfl
  | cons u us ih => rw [List.cons_append, best, ih, best, pick_assoc]

/-- A candidate that is there already changes nothing. -/
theorem pick_best_of_mem {u : Option (ℓ × α)} {us : List (Option (ℓ × α))} (h : u ∈ us) :
    pick (best us) u = best us := by
  induction us with
  | nil => exact absurd h List.not_mem_nil
  | cons v us ih =>
      rcases List.mem_cons.mp h with rfl | h
      · exact pick_absorb (pick_self _) _
      · rw [best, pick_assoc, ih h]

/-- **Repetitions change nothing.** -/
theorem pick_best_filter {β : Type*} [DecidableEq β] (f : β → Option (ℓ × α)) (us vs : List β) :
    pick (best (us.map f)) (best ((vs.filter fun v => v ∉ us).map f)) =
      pick (best (us.map f)) (best (vs.map f)) := by
  have habsorbs : ∀ u ∈ us, pick (best (us.map f)) (f u) = best (us.map f) := fun u hu =>
    pick_best_of_mem (List.mem_map_of_mem hu)
  generalize best (us.map f) = p at habsorbs ⊢
  induction vs generalizing p with
  | nil => rfl
  | cons v vs ih =>
      by_cases hv : v ∈ us
      · rw [List.filter_cons_of_neg (by simpa using hv), ih p habsorbs, List.map_cons, best,
          ← pick_assoc, habsorbs v hv]
      · rw [List.filter_cons_of_pos (by simpa using hv), List.map_cons, best, List.map_cons, best,
          ← pick_assoc, ← pick_assoc]
        exact ih _ fun u hu => pick_absorb (habsorbs u hu) _

end BestMatch
