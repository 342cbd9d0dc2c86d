import Resourcey.Jobs.Ledger
import Resourcey.Logic.Trace

/-!
# The attempt cap

A claim counts one attempt, and the cap is tested where a failed run or a stale claim is put back,
but not where a claim is released at shutdown or a client sets the status: a job that is at its cap
is then claimed once more (`attempts_of_release`). `attempts_capped` is the run theorem without
that: while no update puts a job at its cap back to `PENDING` or `SCHEDULED`, and every claim that
is won was computed from the job's current attempts, the attempts stay within the cap, and no body
is started more often.

The invariant of a row is `Capped`: its claims are counted in `attempts`, `attempts` is within the
cap, and below it while the job is claimable.
-/

namespace Resourcey

open JobRunner

variable {κ : Type} [TextRules]

/-- The update puts no job that is at its cap back to a claimable status. -/
def RequeuesUnderCap (rows : List Job) (p : JobPayload) (condition : Option SearchFilter) : Prop :=
  ∀ j ∈ rows, j.maxAttempts ≤ j.attempts → JobsService.Writes p condition j →
    p.status ≠ some .pending ∧ p.status ≠ some .scheduled

/-- The edit leaves `max_attempts` alone, requeues under the cap and creates a job of its own. -/
def Edit.UnderCap (claims : List Claim) (env : JobsEnv) (rows : List Job) :
    Edit JobPayload → Prop
  | .create p => (∀ n ∈ p.maxAttempts, 1 ≤ n) ∧ ∀ c ∈ claims, c.jobId ≠ p.id.getD env.uuid
  | .update p condition => p.maxAttempts = none ∧ RequeuesUnderCap rows p condition
  | .delete _ _ => True

/-- Each edit of a batch does, on the table it finds. -/
def EditsUnderCap (principal : Option ℕ) (claims : List Claim) :
    List Job → List (JobsEnv × Edit JobPayload) → Prop
  | _, [] => True
  | rows, e :: edits => e.2.UnderCap claims e.1 rows ∧
    ∀ out ∈ (jobsResource.applyEdit (JobsService.writeActions principal) e.1 rows e.2).toOption,
      EditsUnderCap principal claims out.2 edits

/-- No update of the step puts a job that is at its cap back to a claimable status. -/
def UnderCap (config : ℕ → JobsConfig) (s : JobsState κ) (a : JobsAction) : Prop :=
  (∀ st ∈ issued config s a, RequeuesUnderCap s.rows st.payload (some st.condition)) ∧
    EditsUnderCap a.principal s.claims s.rows a.edits

section Decidable

instance (rows : List Job) (p : JobPayload) (condition : Option SearchFilter) :
    Decidable (RequeuesUnderCap rows p condition) :=
  inferInstanceAs (Decidable (∀ j ∈ rows, _ → (p.id = some j.id ∧ Keeps _ _ _) → _))

instance (claims : List Claim) (env : JobsEnv) (rows : List Job) :
    (e : Edit JobPayload) → Decidable (e.UnderCap claims env rows)
  | .create _ => inferInstanceAs (Decidable (_ ∧ _))
  | .update _ _ => inferInstanceAs (Decidable (_ ∧ _))
  | .delete _ _ => .isTrue trivial

instance decidableEditsUnderCap (principal : Option ℕ) (claims : List Claim) :
    (rows : List Job) → (edits : List (JobsEnv × Edit JobPayload)) →
      Decidable (EditsUnderCap principal claims rows edits)
  | _, [] => .isTrue trivial
  | _, _ :: edits =>
    have := fun rows => decidableEditsUnderCap principal claims rows edits
    inferInstanceAs (Decidable (_ ∧ ∀ out ∈ (_ : Option (Option Job × List Job)),
      EditsUnderCap principal claims out.2 edits))

instance (config : ℕ → JobsConfig) (s : JobsState κ) (a : JobsAction) :
    Decidable (UnderCap config s a) :=
  inferInstanceAs (Decidable (_ ∧ _))

end Decidable

/-- A row whose claims are counted, within the cap, and below it while it can be claimed. -/
structure Capped (claims : List Claim) (j : Job) : Prop where
  counted : claimsOf j.id claims ≤ j.attempts
  within : j.attempts ≤ j.maxAttempts
  below : j.status = .pending ∨ j.status = .scheduled → j.attempts < j.maxAttempts

section Rows

variable {claims : List Claim} {rows rows' : List Job} {env : JobsEnv} {p : JobPayload}
  {condition : Option SearchFilter} {result : Option Job}

/-- An update that claims nothing and requeues under the cap keeps the rows capped. -/
theorem Capped.update (h : ∀ j ∈ rows, Capped claims j) (hp : p.ClaimsNothing)
    (hmax : p.maxAttempts = none) (hcap : RequeuesUnderCap rows p condition)
    (hu : JobsService.update env rows p condition = .ok (result, rows')) :
    ∀ j ∈ rows', Capped claims j := by
  obtain ⟨gate, hgate, -, rfl⟩ := JobsService.update_ok hu
  intro j' hj'
  obtain ⟨j, hj, rfl⟩ := List.mem_map.mp hj'
  have hcapped := h j hj
  split
  · next hg =>
      have hattempts : (j.write (p.withDefaults env .update)).attempts = j.attempts := by
        show p.attempts.getD j.attempts = _
        rw [hp.attempts]
        rfl
      have hmaxAttempts : (j.write (p.withDefaults env .update)).maxAttempts = j.maxAttempts := by
        show p.maxAttempts.getD j.maxAttempts = _
        rw [hmax]
        rfl
      refine ⟨hattempts ▸ hcapped.counted, ?_, fun hclaimable => ?_⟩
      · rw [hattempts, hmaxAttempts]
        exact hcapped.within
      · rw [hattempts, hmaxAttempts]
        by_contra hnot
        have hnone := hcap j hj (by omega) ((hgate j).mp hg)
        -- The update sets no claimable status, so the row had one before it.
        cases hstatus : p.status with
        | none =>
            have hsame : (j.write (p.withDefaults env .update)).status = j.status := by
              show p.status.getD j.status = _
              rw [hstatus]
              rfl
            have := hcapped.below (hsame ▸ hclaimable)
            omega
        | some status =>
            have hset : (j.write (p.withDefaults env .update)).status = status := by
              show p.status.getD j.status = _
              rw [hstatus]
              rfl
            rw [hset] at hclaimable
            rw [hstatus] at hnone
            rcases hclaimable with rfl | rfl
            · exact hnone.1 rfl
            · exact hnone.2 rfl
  · exact hcapped

/-- An edit under the cap keeps the rows capped. -/
theorem Capped.edit (h : ∀ j ∈ rows, Capped claims j) {principal : Option ℕ}
    {e : Edit JobPayload} (haccepted : e.Accepted) (hcap : e.UnderCap claims env rows)
    (he : JobsService.EditEffect principal env rows e rows') : ∀ j ∈ rows', Capped claims j := by
  cases he with
  | @create p j hinsert _ =>
      have hcreates := JobsService.insert_creates hinsert
      have hzero : j.attempts = 0 := by
        rw [hcreates.attempts, haccepted.2.2]
        rfl
      have hone : 1 ≤ j.maxAttempts := by
        rw [hcreates.maxAttempts]
        cases hp : p.maxAttempts with
        | none => exact Int.le_refl 1
        | some n => exact hcap.1 n hp
      have hfresh : claimsOf j.id claims = 0 := by
        refine List.countP_eq_zero.mpr fun c hc => ?_
        rw [decide_eq_true_eq, hcreates.id]
        exact hcap.2 c hc
      intro j' hj'
      rcases List.mem_append.mp hj' with hj' | hj'
      · exact h j' hj'
      · obtain rfl := List.mem_singleton.mp hj'
        exact ⟨by omega, by omega, fun _ => by omega⟩
  | update hu => exact Capped.update h haccepted.claimsNothing hcap.1 hcap.2 hu
  | delete gate _ => exact fun j hj => h j (List.mem_of_mem_filter hj)

end Rows

/-! ## The invariant -/

/-- Every row is capped, under its own identifier, and the claims are on the ledger. -/
structure Attempts (s : JobsState κ) : Prop where
  keyed : (s.rows.map Job.id).Nodup
  capped : ∀ j ∈ s.rows, Capped s.claims j
  ledger : Ledger s

namespace Attempts

variable {codec : CursorCodec κ} {config : ℕ → JobsConfig} {s t : JobsState κ} {r : ℕ}
  {rows : List Job}

/-- A claim counts itself. -/
theorem claim (h : Attempts s) {now : ℤ} {attempts : ℕ} {claimed : List Claim} {job j : Job}
    {env : JobsEnv} (hsweep : (s.runner r).sweep = .taking now attempts claimed job)
    (hexec : (claimStatement r now job).execute env s.rows = .ok (some j, rows))
    (hfresh : FreshCopy s (.advance r env)) :
    Attempts (s.claimed r now attempts claimed job.id rows) := by
  have hids := JobsService.update_ids hexec
  obtain ⟨gate, hgate, hsome, rfl⟩ := JobsService.update_ok hexec
  obtain ⟨j₀, hj₀, hg₀⟩ := hsome.mp rfl
  have hwon := claim_writes.mp ((hgate j₀).mp hg₀)
  have hfresh := hfresh _ (attempted_advance hsweep)
  refine ⟨hids ▸ h.keyed, fun j' hj' => ?_, h.ledger.claim _ hsweep⟩
  obtain ⟨j₁, hj₁, rfl⟩ := List.mem_map.mp hj'
  have hcapped := h.capped j₁ hj₁
  by_cases hid : j₁.id = job.id
  · -- The claimed row: one more claim, and one more attempt.
    obtain rfl : j₁ = j₀ := List.inj_on_of_nodup_map h.keyed hj₁ hj₀ (hid.trans hwon.1.symm)
    rw [if_pos hg₀]
    have hattempts : j₁.attempts = job.attempts := hfresh j₁ hj₁ hwon.1 hwon.2
    have hbelow := hcapped.below (.inl hwon.2)
    have hcounted := hcapped.counted
    have hcount : claimsOf j₁.id (s.nextClaim r job.id :: s.claims)
        = claimsOf j₁.id s.claims + 1 := List.countP_cons_of_pos (by simp [hid, JobsState.nextClaim])
    refine ⟨?_, ?_, nofun⟩
    · show ((claimsOf j₁.id (s.nextClaim r job.id :: s.claims) : ℕ) : ℤ) ≤ job.attempts + 1
      rw [hcount]
      omega
    · show job.attempts + 1 ≤ j₁.maxAttempts
      omega
  · have hg : ¬ gate j₁ = true := fun hg => hid (claim_writes.mp ((hgate j₁).mp hg)).1
    rw [if_neg hg]
    have hcount : claimsOf j₁.id (s.nextClaim r job.id :: s.claims) = claimsOf j₁.id s.claims :=
      List.countP_cons_of_neg (by rw [decide_eq_true_eq]; exact Ne.symm hid)
    exact ⟨hcount ▸ hcapped.counted, hcapped.within, hcapped.below⟩

theorem step (h : Attempts s) {a : JobsAction}
    (hok : a.Accepted ∧ FreshCopy s a ∧ UnderCap config s a)
    (ha : jobsStep codec config s a = some t) : Attempts t := by
  obtain ⟨haccepted, hfresh, hissued, hclient⟩ := hok
  have hledger := h.ledger.step ha
  cases step_effect ha with
  | quiet => exact ⟨h.keyed, h.capped, hledger⟩
  | start => exact ⟨h.keyed, h.capped, hledger⟩
  | write hst hexec _ =>
      obtain ⟨hp, hmax, -⟩ := issued_claimsNothing hst
      refine ⟨JobsService.update_ids hexec ▸ h.keyed, ?_, hledger⟩
      exact Capped.update h.capped hp hmax (hissued _ hst) hexec
  | lost => exact ⟨h.keyed, h.capped, hledger⟩
  | claim hsweep hexec => exact h.claim hsweep hexec hfresh
  | @client principal _ _ _ hedits =>
      have hrun := SqlResource.applyEdits_run (fun rows edits => (rows.map Job.id).Nodup ∧
        (∀ j ∈ rows, Capped s.claims j) ∧ (∀ e ∈ edits, e.2.Accepted) ∧
          EditsUnderCap principal s.claims rows edits) ?_ hedits
        ⟨h.keyed, h.capped, haccepted, hclient⟩
      · exact ⟨hrun.1, hrun.2.1, hledger⟩
      · rintro ⟨env, e⟩ edits rows result rows' ⟨hkeyed, hcapped, hedit, hcap⟩ he
        have heffect := JobsService.applyEdit_effect he
        have hrest := hcap.2 (result, rows') (by rw [he]; rfl)
        rw [List.forall_mem_cons] at hedit
        exact ⟨heffect.keyed hkeyed, Capped.edit hcapped hedit.1 hcap.1 heffect, hedit.2, hrest⟩
  | refused => exact h

omit [TextRules] in
/-- Jobs as they are created: no attempt made yet, and at least one allowed. -/
theorem initial (hids : (rows.map Job.id).Nodup)
    (hrows : ∀ j ∈ rows, j.attempts = 0 ∧ 1 ≤ j.maxAttempts) :
    Attempts ({ rows } : JobsState κ) := by
  refine ⟨hids, fun j hj => ?_, .initial⟩
  obtain ⟨hzero, hmax⟩ := hrows j hj
  exact ⟨hzero ▸ Int.le_refl 0, by omega, fun _ => by omega⟩

end Attempts

/-- **The attempt cap holds**, and no body is started more often, in every state of every run in
which no update puts a job at its cap back to a claimable status and every claim that is won was
computed from the job's current attempts. -/
theorem attempts_capped {codec : CursorCodec κ} {config : ℕ → JobsConfig} {rows : List Job}
    {as : List JobsAction} {t : JobsState κ} (hids : (rows.map Job.id).Nodup)
    (hrows : ∀ j ∈ rows, j.attempts = 0 ∧ 1 ≤ j.maxAttempts)
    (hrun : Trace.Run (jobsStep codec config)
      (fun s a => a.Accepted ∧ FreshCopy s a ∧ UnderCap config s a) { rows } as t) :
    ∀ j ∈ t.rows, j.attempts ≤ j.maxAttempts ∧ claimsOf j.id t.starts ≤ j.maxAttempts := by
  have h : Attempts t := hrun.invariant Attempts (fun h hok ha => h.step hok ha)
    (.initial hids hrows)
  intro j hj
  have hcapped := h.capped j hj
  have hstarts := h.ledger.starts_le j.id
  have hcounted := hcapped.counted
  have hwithin := hcapped.within
  exact ⟨hwithin, by omega⟩

omit [TextRules] in
/-- A job of two attempts whose first run fails. -/
theorem attempts_capped_retry :
    letI := TextRules.ascii
    ∃ t : JobsState CursorState, t.rows.map Job.attempts = [2] ∧
      ∀ j ∈ t.rows, j.attempts ≤ j.maxAttempts ∧ claimsOf j.id t.starts ≤ j.maxAttempts := by
  let _ := TextRules.ascii
  let failed : JobRun := { status := .error }
  have hrun : (Trace.exec (jobsStep .plain fun _ => ⟨2, 3600, true⟩)
      (fun s a => a.Accepted ∧ FreshCopy s a ∧ UnderCap (fun _ => ⟨2, 3600, true⟩) s a)
      { rows := [Job.queued 1 2] }
      (.enter 7 :: sweepActions 7 0 7 ++ .load 7 ⟨0, 7, 1⟩ :: .finish 7 ⟨0, 7, 1⟩ failed ⟨0, 0⟩ ::
        sweepActions 7 1 7)).map (fun t => t.rows.map Job.attempts) = some [2] := by decide
  obtain ⟨t, ht, hattempts⟩ := Option.map_eq_some_iff.mp hrun
  exact ⟨t, hattempts, attempts_capped (by decide) (by decide) (.of_exec ht)⟩

omit [TextRules] in
/-- A job of one attempt is claimed, released at shutdown, and claimed again. -/
theorem attempts_of_release :
    letI := TextRules.ascii
    ∃ t, Trace.exec (jobsStep .plain fun _ => ⟨2, 3600, true⟩) (fun _ a => a.Accepted)
        { rows := [Job.queued 1 1] } (.enter 7 :: sweepActions 7 0 7 ++ .exit 7 ::
          .release 7 ⟨0, 0⟩ :: .enter 7 :: sweepActions 7 1 7) = some t ∧
      ¬ ∀ j ∈ t.rows, j.attempts ≤ j.maxAttempts := by
  let _ := TextRules.ascii
  have hrun : (Trace.exec (jobsStep .plain fun _ => ⟨2, 3600, true⟩) (fun _ a => a.Accepted)
      { rows := [Job.queued 1 1] } (.enter 7 :: sweepActions 7 0 7 ++ .exit 7 ::
        .release 7 ⟨0, 0⟩ :: .enter 7 :: sweepActions 7 1 7)).map
        (fun t => t.rows.map fun j => (j.attempts, j.maxAttempts)) = some [(2, 1)] := by decide
  obtain ⟨t, ht, hrows⟩ := Option.map_eq_some_iff.mp hrun
  refine ⟨t, ht, fun h => ?_⟩
  obtain ⟨j, hj, hpair⟩ : ∃ j ∈ t.rows, (j.attempts, j.maxAttempts) = (2, 1) := by
    rw [← List.mem_map, hrows]
    exact List.mem_singleton_self _
  have hle := h j hj
  simp only [Prod.mk.injEq] at hpair
  omega

end Resourcey
