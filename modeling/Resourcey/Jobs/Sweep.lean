import Resourcey.Jobs.Runner

/-!
# What a step does to a runner

`step_effect` says what a step does to the table; `runner_step` says what it does to one runner:
where its sweep is afterwards, which copies it then holds, and how many bodies it runs. The claims
a sweep holds are lost only when it is cut off: no search and no claim of a sweep fails.
-/

namespace Resourcey

open JobRunner

variable {κ : Type}

/-- What a step does to one runner. -/
inductive RunnerStep (config : JobsConfig) (s : JobsState κ) (a : JobsAction) (r : ℕ)
    (t : JobsState κ) : Prop
  | same : (t.runner r).sweep = (s.runner r).sweep →
      (t.runner r).inFlight.length ≤ (s.runner r).inFlight.length → RunnerStep config s a r t
  | stop : (t.runner r).sweep = .idle →
      (t.runner r).inFlight.length ≤ (s.runner r).inFlight.length →
      (a.cutsOff ≠ some r → (s.runner r).sweep.claimed = []) → RunnerStep config s a r t
  | begin {now} : a = .beginSweep r now →
      t = s.setSweep r (.enumerating .recover now none []) →
      (s.runner r).sweep = .idle → RunnerStep config s a r t
  | page {pass now cursor items found} :
      (s.runner r).sweep = .enumerating pass now cursor items → found ⊆ s.rows →
      (∃ next, t = s.setSweep r (.enumerating pass now (some next) (items ++ found))) ∨
        t = s.setSweep r (.processing pass now (items ++ found)) → RunnerStep config s a r t
  | promote {now} : (s.runner r).sweep = .processing .recover now [] →
      t = s.setSweep r (.enumerating .promote now none []) → RunnerStep config s a r t
  | claim {now} : (s.runner r).sweep = .processing .promote now [] →
      t = s.setSweep r (.claiming now 0 []) → RunnerStep config s a r t
  | next {pass now job jobs} : (s.runner r).sweep = .processing pass now (job :: jobs) →
      (t.runner r).sweep = .processing pass now jobs →
      (t.runner r).inFlight = (s.runner r).inFlight → RunnerStep config s a r t
  | take {now attempts claimed job} : (s.runner r).sweep = .claiming now attempts claimed →
      (s.runner r).inFlight.length + claimed.length < config.maxConcurrent →
      t = s.setSweep r (.taking now (attempts + 1) claimed job) → RunnerStep config s a r t
  | start {now attempts claimed} : (s.runner r).sweep = .claiming now attempts claimed →
      t = s.startClaimed r claimed → RunnerStep config s a r t
  | taken {now attempts claimed job} (won : List Claim) :
      (s.runner r).sweep = .taking now attempts claimed job →
      won = [] ∨ won = [s.nextClaim r job.id] ∧ t.claims = s.nextClaim r job.id :: s.claims →
      (t.runner r).sweep = .claiming now attempts (claimed ++ won) →
      (t.runner r).inFlight = (s.runner r).inFlight → RunnerStep config s a r t

section Lemmas

variable {s t : JobsState κ} {r r' : ℕ}

theorem JobsState.setSweep_self (sweep : Sweep κ) :
    (s.setSweep r sweep).runner r = { s.runner r with sweep } :=
  Function.update_self _ _ _

variable [TextRules] {codec : CursorCodec κ} {config : ℕ → JobsConfig} {env : JobsEnv}
  {a : JobsAction}

/-- A runner's own statement, in its sweep. -/
theorem advance_runner (h : advance codec (config r) s r env = some t) :
    RunnerStep (config r) s (.advance r env) r t := by
  have hself : ∀ (u : JobsState κ) sweep, (u.setSweep r sweep).runner r =
      { u.runner r with sweep } := fun u sweep => JobsState.setSweep_self sweep
  unfold advance at h
  split at h
  · cases h
  · next pass now cursor items hsweep =>
      split at h
      · cases h
        exact .stop (by rw [hself]) (by rw [hself]) fun _ => by rw [hsweep]; rfl
      · next page hpage =>
          have hmem := SqlTable.search_mem _ hpage
          split at h
          · cases h
            exact .page hsweep hmem (.inl ⟨_, rfl⟩)
          · cases h
            exact .page hsweep hmem (.inr rfl)
  · next now hsweep =>
      cases h
      exact .promote hsweep rfl
  · next now hsweep =>
      cases h
      exact .claim hsweep rfl
  · next pass now job jobs hsweep =>
      split at h
      · cases h
        exact .next hsweep (by rw [hself]) (by rw [hself])
      · split at h
        · cases h
          exact .stop (by rw [hself]) (by rw [hself]) fun _ => by rw [hsweep]; rfl
        · cases h
          exact .next hsweep (by rw [hself]) (by rw [hself]; rfl)
  · next now attempts claimed hsweep =>
      split at h
      · next hcapacity =>
          split at h
          · next hsearch =>
              obtain ⟨page, hpage⟩ : ∃ page, searchStatus codec s.rows .pending none 1 = .ok page :=
                jobsResource.exists_search (wellTyped_statusFilter .pending) 1
              cases hsearch.symm.trans hpage
          · split at h
            · cases h
              exact .start hsweep rfl
            · cases h
              exact .take hsweep hcapacity.1 rfl
      · cases h
        exact .start hsweep rfl
  · next now attempts claimed job hsweep =>
      split at h
      · next hexec =>
          obtain ⟨result, rows, hupdate⟩ : ∃ result rows,
              (claimStatement r now job).execute env s.rows = .ok (result, rows) :=
            JobsService.exists_update rfl (wellTyped_statusFilter .pending)
          cases hexec.symm.trans hupdate
      · cases h
        refine .taken [] hsweep (.inl rfl) ?_ ?_
        · rw [hself, List.append_nil]
        · rw [hself]
          rfl
      · cases h
        refine .taken [s.nextClaim r job.id] hsweep (.inr ⟨rfl, rfl⟩) ?_ ?_
        · rw [hself]
        · rw [hself]
          rfl

omit [TextRules] in
/-- A runner that the step leaves alone. -/
theorem RunnerStep.of_eq (h : t.runner r = s.runner r) : RunnerStep (config r) s a r t :=
  .same (by rw [h]) (by rw [h])

/-- A runner's own statement leaves the other runners alone. -/
theorem advance_other (h : advance codec (config r') s r' env = some t) (hr : r ≠ r') :
    t.runner r = s.runner r := by
  unfold advance at h
  split at h
  · cases h
  · split at h
    · cases h
      exact Function.update_of_ne hr _ _
    · split at h
      all_goals
        cases h
        exact Function.update_of_ne hr _ _
  · cases h
    exact Function.update_of_ne hr _ _
  · cases h
    exact Function.update_of_ne hr _ _
  · split at h
    · cases h
      exact Function.update_of_ne hr _ _
    · split at h
      all_goals
        cases h
        exact Function.update_of_ne hr _ _
  · split at h
    · split at h
      · cases h
        exact Function.update_of_ne hr _ _
      · split at h
        all_goals
          cases h
          exact Function.update_of_ne hr _ _
    · cases h
      exact Function.update_of_ne hr _ _
  · split at h
    all_goals
      cases h
      exact Function.update_of_ne hr _ _

omit [TextRules] in
/-- A step that puts a runner of the same sweep and no more tasks in a runner's place. -/
theorem RunnerStep.set {u : JobsState κ} {x : JobRunner κ} (hu : u.runner = s.runner)
    (hsweep : x.sweep = (s.runner r').sweep)
    (hin : x.inFlight.length ≤ (s.runner r').inFlight.length) :
    RunnerStep (config r) s a r (u.setRunner r' x) := by
  have hrun : (u.setRunner r' x).runner r = if r = r' then x else s.runner r :=
    hu ▸ Function.update_apply _ _ _ _
  by_cases hr : r = r'
  · subst hr
    rw [if_pos rfl] at hrun
    exact .same (by rw [hrun, hsweep]) (by rw [hrun]; exact hin)
  · exact .of_eq (hrun.trans (if_neg hr))

/-- **What a step does to each runner.** -/
theorem runner_step (h : jobsStep codec config s a = some t) (r : ℕ) :
    RunnerStep (config r) s a r t := by
  cases a with
  | enter r' =>
      simp only [jobsStep] at h
      split at h
      · cases h
      · cases h
        exact .set (u := s) rfl rfl (Nat.le_refl _)
  | beginSweep r' now =>
      simp only [jobsStep] at h
      split at h
      · next hsweep =>
          cases h
          by_cases hr : r = r'
          · subst hr
            exact .begin rfl rfl hsweep
          · exact .of_eq (Function.update_of_ne hr _ _)
      · cases h
  | advance r' env =>
      by_cases hr : r = r'
      · subst hr
        exact advance_runner h
      · exact .of_eq (advance_other h hr)
  | abort r' =>
      cases h
      by_cases hr : r = r'
      · subst hr
        exact .stop (by rw [JobsState.setSweep_self]) (by rw [JobsState.setSweep_self])
          fun hcut => absurd rfl hcut
      · exact .of_eq (Function.update_of_ne hr _ _)
  | load r' claim =>
      simp only [jobsStep] at h
      split at h
      · split at h
        · cases h
          exact .set (u := s) rfl rfl (List.length_filter_le _ _)
        · cases h
          exact .set (u := s) rfl rfl (List.length_map _).le
      · cases h
  | finish r' claim run env =>
      simp only [jobsStep] at h
      split at h
      · split at h
        · cases h
          exact .set (u := s) rfl rfl (List.length_filter_le _ _)
        · next rows hexec =>
            cases h
            exact .set (u := s.withRows rows) rfl rfl (List.length_filter_le _ _)
      · cases h
  | drop r' claim =>
      cases h
      exact .set (u := s) rfl rfl (List.length_filter_le _ _)
  | exit r' =>
      cases h
      by_cases hr : r = r'
      · subst hr
        have hself : ∀ x : JobRunner κ, (s.setRunner r x).runner r = x :=
          fun x => Function.update_self _ _ _
        exact .stop (by rw [hself]) (by rw [hself]; exact Nat.zero_le _)
          fun hcut => absurd rfl hcut
      · exact .of_eq (Function.update_of_ne hr _ _)
  | release r' env =>
      simp only [jobsStep] at h
      split at h
      · cases h
      · split at h
        · cases h
          exact .set (u := s) rfl rfl (Nat.le_refl _)
        · next rows hexec =>
            cases h
            exact .set (u := s.withRows rows) rfl rfl (Nat.le_refl _)
  | skipRelease r' =>
      cases h
      exact .set (u := s) rfl rfl (Nat.le_refl _)
  | client principal edits =>
      simp only [jobsStep] at h
      split at h
      all_goals
        cases h
        exact .of_eq rfl

end Lemmas

end Resourcey
