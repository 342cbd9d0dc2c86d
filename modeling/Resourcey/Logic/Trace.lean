import Mathlib.Data.List.Basic

/-!
# Runs of a step function

A system is a partial step function: `step s a` is the state after action `a`, or nothing where the
action is not enabled. A run is restricted to the steps that meet a condition `ok`, so one lemma
serves the runs of a whole system (`ok` always true) and those of the runs a theorem is about.
`Run.invariant` is the induction: what every step keeps, every run keeps. `Run.mono`
weakens the condition, `Run.restrict` strengthens it by what the end of the run says of its steps,
and `Run.of_exec` makes a run of an executed list of actions.
-/

namespace Trace

variable {σ α : Type*} {step : σ → α → Option σ} {ok ok' : σ → α → Prop}

/-- The state after a list of actions, if each in turn meets `ok` and is enabled. -/
def exec (step : σ → α → Option σ) (ok : σ → α → Prop) [∀ s a, Decidable (ok s a)] :
    σ → List α → Option σ
  | s, [] => some s
  | s, a :: as => if ok s a then (step s a).bind fun s' => exec step ok s' as else none

/-- A run whose steps all meet `ok`. -/
inductive Run (step : σ → α → Option σ) (ok : σ → α → Prop) : σ → List α → σ → Prop
  | nil (s) : Run step ok s [] s
  | cons {s a s' as t} : ok s a → step s a = some s' → Run step ok s' as t →
      Run step ok s (a :: as) t

namespace Run

/-- **What every step keeps, every run keeps.** -/
theorem invariant (inv : σ → Prop)
    (hstep : ∀ {s a s'}, inv s → ok s a → step s a = some s' → inv s')
    {s t : σ} {as : List α} (h : Run step ok s as t) (hs : inv s) : inv t := by
  induction h with
  | nil => exact hs
  | cons hok ha _ ih => exact ih (hstep hs hok ha)

/-- A run under a condition is one under a weaker one. -/
theorem mono (himp : ∀ {s a}, ok s a → ok' s a) {s t : σ} {as : List α}
    (h : Run step ok s as t) : Run step ok' s as t := by
  induction h with
  | nil => exact .nil _
  | cons hok ha _ ih => exact .cons (himp hok) ha ih

/-- What the state after a step says of the state before it, the end of a run says of its start. -/
theorem backward (fin : σ → Prop) (hback : ∀ {s a s'}, step s a = some s' → fin s' → fin s)
    {s t : σ} {as : List α} (h : Run step ok s as t) (ht : fin t) : fin s := by
  induction h with
  | nil => exact ht
  | cons _ ha _ ih => exact hback ha (ih ht)

/-- What the state after a step says of the step, the end of a run says of its steps. -/
theorem restrict (inv fin : σ → Prop)
    (hstep : ∀ {s a s'}, inv s → ok s a → step s a = some s' → inv s')
    (hback : ∀ {s a s'}, step s a = some s' → fin s' → fin s)
    (hok : ∀ {s a s'}, inv s → ok s a → step s a = some s' → fin s' → ok' s a)
    {s t : σ} {as : List α} (h : Run step ok s as t) (hs : inv s) (ht : fin t) :
    Run step (fun s a => ok s a ∧ ok' s a) s as t := by
  induction h with
  | nil => exact .nil _
  | cons hmeets ha hrest ih =>
      have hnext := hok hs hmeets ha (hrest.backward fin hback ht)
      exact .cons ⟨hmeets, hnext⟩ ha (ih (hstep hs hmeets ha) ht)

/-- An executed list of actions is a run. -/
theorem of_exec [∀ s a, Decidable (ok s a)] {s t : σ} {as : List α}
    (h : exec step ok s as = some t) : Run step ok s as t := by
  induction as generalizing s with
  | nil =>
      cases h
      exact .nil _
  | cons a as ih =>
      rw [exec] at h
      split at h
      · next hok =>
          obtain ⟨s', ha, has⟩ := Option.bind_eq_some_iff.mp h
          exact .cons hok ha (ih has)
      · cases h

end Run

end Trace
