import Resourcey.Jobs.Runner

/-!
# The ledger of claims

`Ledger` relates the claims that were won, the claims that sweeps still hold and the claims whose
bodies were started: a claim is won once, is held by the sweep of its own runner until that sweep
starts it, and is started at most once. So a job's bodies are at most its claims
(`Ledger.starts_le`). `FreshCopy` is the condition under which a claim counts: the copy it was
computed from has the job's current attempts.
-/

namespace Resourcey

open JobRunner

variable {κ : Type}

/-- Claims are won once, held by their own runner's sweep, and started at most once. -/
structure Ledger (s : JobsState κ) : Prop where
  serial : ∀ c ∈ s.claims, c.serial < s.claims.length
  won : s.claims.Nodup
  held : ∀ r, (s.runner r).sweep.claimed.Nodup
  heldBy : ∀ r, ∀ c ∈ (s.runner r).sweep.claimed, c.runnerId = r ∧ c ∈ s.claims ∧ c ∉ s.starts
  once : s.starts.Nodup
  started : s.starts ⊆ s.claims

/-- A claim that is won now was computed from the job's current attempts. -/
def FreshCopy (s : JobsState κ) (a : JobsAction) : Prop :=
  ∀ c ∈ attempted s a, ∀ j ∈ s.rows, j.id = c.2.id → j.status = .pending →
    j.attempts = c.2.attempts

instance (s : JobsState κ) (a : JobsAction) : Decidable (FreshCopy s a) :=
  inferInstanceAs (Decidable (∀ c ∈ attempted s a, ∀ j ∈ s.rows, _ → _ → _))

/-- How many of a list's claims are of a job. -/
def claimsOf (id : ℕ) (cs : List Claim) : ℕ := cs.countP fun c => c.jobId = id

namespace Ledger

variable {s t : JobsState κ} {rows : List Job} {r : ℕ} {x : JobRunner κ} {now : ℤ} {attempts : ℕ}
  {claimed : List Claim}

theorem initial : Ledger ({ rows } : JobsState κ) where
  serial _ hc := absurd hc List.not_mem_nil
  won := .nil
  held _ := .nil
  heldBy _ _ hc := absurd hc List.not_mem_nil
  once := .nil
  started := List.Subset.refl _

/-- A write changes no claim. -/
theorem withRows (h : Ledger s) : Ledger (s.withRows rows) :=
  ⟨h.serial, h.won, h.held, h.heldBy, h.once, h.started⟩

/-- A runner may let go of what it holds. -/
theorem setRunner (h : Ledger s) (hx : (s.runner r).Quiet x) : Ledger (s.setRunner r x) := by
  refine ⟨h.serial, h.won, fun r' => ?_, fun r' c hc => ?_, h.once, h.started⟩
  · rw [JobsState.setRunner_runner]
    split
    · exact (h.held r).sublist hx.claimed
    · exact h.held r'
  · rw [JobsState.setRunner_runner] at hc
    split at hc
    · next hr =>
        subst hr
        exact h.heldBy r' c (hx.claimed.subset hc)
    · exact h.heldBy r' c hc

/-- A sweep ends by starting what it holds. -/
theorem start (h : Ledger s) (hsweep : (s.runner r).sweep = .claiming now attempts claimed) :
    Ledger (s.startClaimed r claimed) := by
  have hheld : (s.runner r).sweep.claimed = claimed := by
    rw [hsweep]
    rfl
  refine ⟨h.serial, h.won, fun r' => ?_, fun r' c hc => ?_, ?_, ?_⟩
  · rw [JobsState.startClaimed_runner]
    split
    · exact .nil
    · exact h.held r'
  · rw [JobsState.startClaimed_runner] at hc
    split at hc
    · exact absurd hc List.not_mem_nil
    · next hr =>
        obtain ⟨hby, hwon, hnot⟩ := h.heldBy r' c hc
        refine ⟨hby, hwon, fun hmem => ?_⟩
        rcases List.mem_append.mp hmem with hmem | hmem
        · exact hnot hmem
        · -- The runner's own claims are no other runner's.
          have hr' := (h.heldBy r c (hheld ▸ hmem)).1
          exact hr (hby.symm.trans hr')
  · refine List.nodup_append.mpr ⟨h.once, hheld ▸ h.held r, fun c hc c' hc' heq => ?_⟩
    exact (h.heldBy r c' (hheld ▸ hc')).2.2 (heq ▸ hc)
  · intro c hc
    rcases List.mem_append.mp hc with hc | hc
    · exact h.started hc
    · exact (h.heldBy r c (hheld ▸ hc)).2.1

/-- A claim that is won is a new one. -/
theorem nextClaim_fresh (h : Ledger s) (jobId : ℕ) : s.nextClaim r jobId ∉ s.claims :=
  fun hc => Nat.lt_irrefl _ (h.serial _ hc)

theorem claimed_runner (r r' : ℕ) (jobId : ℕ) :
    (s.claimed r now attempts claimed jobId rows).runner r' = if r' = r then { s.runner r with
        sweep := .claiming now attempts (claimed ++ [s.nextClaim r jobId]) }
      else s.runner r' :=
  Function.update_apply _ _ _ _

/-- A claim that is won is held by the sweep that won it. -/
theorem claim (h : Ledger s) {job : Job} (jobId : ℕ)
    (hsweep : (s.runner r).sweep = .taking now attempts claimed job) :
    Ledger (s.claimed r now attempts claimed jobId rows) := by
  have hheld : (s.runner r).sweep.claimed = claimed := by
    rw [hsweep]
    rfl
  have hfresh := h.nextClaim_fresh (r := r) jobId
  refine ⟨fun c hc => ?_, List.nodup_cons.mpr ⟨hfresh, h.won⟩, fun r' => ?_, fun r' c hc => ?_,
    h.once, fun c hc => List.mem_cons_of_mem _ (h.started hc)⟩
  · change c.serial < s.claims.length + 1
    rcases List.mem_cons.mp hc with rfl | hc
    · exact Nat.lt_succ_self _
    · exact Nat.lt_succ_of_lt (h.serial c hc)
  · rw [claimed_runner]
    split
    · refine List.nodup_append.mpr ⟨hheld ▸ h.held r, List.nodup_singleton _, fun c hc c' hc' => ?_⟩
      obtain rfl := List.mem_singleton.mp hc'
      intro heq
      exact hfresh (heq ▸ (h.heldBy r c (hheld ▸ hc)).2.1)
    · exact h.held r'
  · rw [claimed_runner] at hc
    split at hc
    · next hr =>
        rcases List.mem_append.mp hc with hc | hc
        · obtain ⟨hby, hwon, hnot⟩ := h.heldBy r c (hheld ▸ hc)
          exact ⟨hby.trans hr.symm, List.mem_cons_of_mem _ hwon, hnot⟩
        · obtain rfl := List.mem_singleton.mp hc
          exact ⟨hr.symm, List.mem_cons_self, fun hst => hfresh (h.started hst)⟩
    · obtain ⟨hby, hwon, hnot⟩ := h.heldBy r' c hc
      exact ⟨hby, List.mem_cons_of_mem _ hwon, hnot⟩

/-- Every step keeps the ledger. -/
theorem step [TextRules] {codec : CursorCodec κ} {config : ℕ → JobsConfig} (h : Ledger s)
    {a : JobsAction} (ha : jobsStep codec config s a = some t) : Ledger t := by
  cases step_effect ha with
  | quiet hx => exact h.setRunner hx
  | start hsweep => exact h.start hsweep
  | write _ _ hx => exact h.withRows.setRunner hx
  | lost hx => exact h.withRows.setRunner hx
  | claim hsweep _ => exact h.claim _ hsweep
  | client _ => exact h.withRows
  | refused => exact h

/-- No more bodies of a job are started than claims of it are won. -/
theorem starts_le (h : Ledger s) (id : ℕ) : claimsOf id s.starts ≤ claimsOf id s.claims :=
  (h.once.subperm h.started).countP_le _

end Ledger

end Resourcey
