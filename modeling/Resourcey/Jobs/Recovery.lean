import Resourcey.Jobs.Ownership
import Resourcey.Jobs.Sweep

/-!
# Recovery and live claims

A recovery pass tests the age of a claim on the copy it enumerated, and then writes under the
condition that the job is `RUNNING` under the copy's owner. An owner that lets go of the job in
between and claims it again passes that condition with a claim the pass has never seen
(`recover_of_reclaimed`). `recover_only_stale` is the run theorem without that: what a pass takes
out of `RUNNING` is held, at the write, under the claim of the copy, which is older than the bound.

The invariant is `Seen`: a job that runs under the owner of a pending copy has the copy's instant
and bound. `Unrevoked` follows one copy from the moment it was read: its job is still under the
claim it was under then.
-/

namespace Resourcey

open JobRunner

variable {κ : Type}

/-- The copies that a runner's recovery pass holds. -/
def JobRunner.recovering (x : JobRunner κ) : List Job :=
  match x.sweep with
  | .enumerating .recover _ _ items => items
  | .processing .recover _ jobs => jobs
  | _ => []

/-- The instant and the bound of a job's claim. -/
def Job.lease (j : Job) : Option ℤ × Option ℤ := (j.claimedAt, j.maxSecondsForRun)

/-- No runner claims a job again of which the recovery pass of `r` holds an earlier claim by it. -/
def ReclaimsUnseen (r : ℕ) (s : JobsState κ) (a : JobsAction) : Prop :=
  ∀ c ∈ attempted s a, (∃ j ∈ s.rows, j.id = c.2.id ∧ j.status = .pending) →
    ∀ copy ∈ (s.runner r).recovering, copy.id = c.2.id → copy.claimedBy ≠ some c.1

/-- No client changes a job's bound. -/
def KeepsBounds (a : JobsAction) : Prop :=
  ∀ e ∈ a.edits, ∀ p ∈ e.2.updated, p.maxSecondsForRun = none

/-- The condition of a step. -/
def RecoversSeen (r : ℕ) (s : JobsState κ) (a : JobsAction) : Prop :=
  a.Accepted ∧ KeepsBounds a ∧ ReclaimsUnseen r s a

instance (r : ℕ) (s : JobsState κ) (a : JobsAction) : Decidable (RecoversSeen r s a) :=
  inferInstanceAs (Decidable (_ ∧ (∀ e ∈ a.edits, ∀ p ∈ e.2.updated, _) ∧
    ∀ c ∈ attempted s a, _ → _))

/-- A job without an owner is not claimed since any instant. -/
def Anchored (rows : List Job) : Prop := ∀ j ∈ rows, j.claimedBy = none → j.claimedAt = none

/-- A job that runs under the owner of a copy that the pass of `r` holds has the copy's lease. -/
structure Seen (r : ℕ) (s : JobsState κ) : Prop where
  keyed : (s.rows.map Job.id).Nodup
  anchored : Anchored s.rows
  copies : ∀ copy ∈ (s.runner r).recovering, copy.claimedBy = none → copy.claimedAt = none
  lease : ∀ copy ∈ (s.runner r).recovering, ∀ o, copy.claimedBy = some o → ∀ j ∈ s.rows,
    j.id = copy.id → j.status = .running → j.claimedBy = some o → j.lease = copy.lease

variable [TextRules] {codec : CursorCodec κ} {config : ℕ → JobsConfig} {s t : JobsState κ}
  {a : JobsAction} {r : ℕ} {rows rows' : List Job}

/-! ## What a step does to the copies and to their jobs -/

omit [TextRules] in
/-- A pass holds the copies it held, and the rows it has just read. -/
theorem recovering_step (ht : RunnerStep (config r) s a r t) :
    ∀ copy ∈ (t.runner r).recovering, copy ∈ (s.runner r).recovering ∨
      copy ∈ s.rows ∧ t.rows = s.rows := by
  have hself : ∀ sweep : Sweep κ, (s.setSweep r sweep).runner r = { s.runner r with sweep } :=
    fun sweep => JobsState.setSweep_self sweep
  intro copy hcopy
  cases ht with
  | same hsweep _ =>
      rw [JobRunner.recovering, hsweep] at hcopy
      exact .inl hcopy
  | stop hsweep _ _ =>
      rw [JobRunner.recovering, hsweep] at hcopy
      cases hcopy
  | begin _ ht _ =>
      rw [ht, JobRunner.recovering, hself] at hcopy
      cases hcopy
  | @page pass now cursor items found hsweep hfound ht =>
      have hrows : t.rows = s.rows := by
        rcases ht with ⟨_, ht⟩ | ht <;> rw [ht] <;> rfl
      cases pass with
      | recover =>
          have hcopy : copy ∈ items ++ found := by
            rcases ht with ⟨_, ht⟩ | ht
            · rwa [ht, JobRunner.recovering, hself] at hcopy
            · rwa [ht, JobRunner.recovering, hself] at hcopy
          rcases List.mem_append.mp hcopy with hcopy | hcopy
          · rw [JobRunner.recovering, hsweep]
            exact .inl hcopy
          · exact .inr ⟨hfound hcopy, hrows⟩
      | promote =>
          rcases ht with ⟨_, ht⟩ | ht
          · rw [ht, JobRunner.recovering, hself] at hcopy
            cases hcopy
          · rw [ht, JobRunner.recovering, hself] at hcopy
            cases hcopy
  | promote _ ht =>
      rw [ht, JobRunner.recovering, hself] at hcopy
      cases hcopy
  | claim _ ht =>
      rw [ht, JobRunner.recovering, hself] at hcopy
      cases hcopy
  | @next pass now job jobs hsweep hsweep' _ =>
      rw [JobRunner.recovering, hsweep'] at hcopy
      rw [JobRunner.recovering, hsweep]
      cases pass with
      | recover => exact .inl (List.mem_cons_of_mem _ hcopy)
      | promote => cases hcopy
  | take _ _ ht =>
      rw [ht, JobRunner.recovering, hself] at hcopy
      cases hcopy
  | start _ ht =>
      rw [ht, JobRunner.recovering, JobsState.startClaimed_runner, if_pos rfl] at hcopy
      cases hcopy
  | taken _ _ _ hsweep _ =>
      rw [JobRunner.recovering, hsweep] at hcopy
      cases hcopy

omit [TextRules] in
/-- A row that runs is under the claim it was under. -/
theorem current_withRows {j : Job} (hj : j ∈ rows) (hrunning : j.status = .running) :
    (s.withRows rows).current j.id = s.current j.id :=
  if_pos ⟨j, hj, rfl, hrunning⟩

/-- A job that runs under the owner of a copy did so before the step, under the same claim. -/
theorem copy_step (hids : (s.rows.map Job.id).Nodup) (hok : RecoversSeen r s a)
    (ha : jobsStep codec config s a = some t) {copy : Job}
    (hcopy : copy ∈ (s.runner r).recovering) {o : ℕ} (ho : copy.claimedBy = some o) {j : Job}
    (hj : j ∈ t.rows) (hid : j.id = copy.id) (hrunning : j.status = .running)
    (hby : j.claimedBy = some o) :
    (∃ j₀ ∈ s.rows, j₀.id = copy.id ∧ j₀.status = .running ∧ j₀.claimedBy = some o ∧
      j₀.lease = j.lease) ∧ t.current copy.id = s.current copy.id := by
  obtain ⟨haccepted, hbounds, hreclaims⟩ := hok
  have hkeep : ∀ p : JobPayload, p.maxSecondsForRun = none → p.Keeps Job.lease := by
    intro p hp hat env j
    show (p.claimedAt.getD j.claimedAt, p.maxSecondsForRun.getD j.maxSecondsForRun) = _
    rw [hat, hp]
    rfl
  have hfound : ∀ {rows}, KeepsClaims Job.lease s.rows rows → j ∈ rows → ∃ j₀ ∈ s.rows,
      j₀.id = copy.id ∧ j₀.status = .running ∧ j₀.claimedBy = some o ∧ j₀.lease = j.lease := by
    intro rows hkeeps hj
    obtain ⟨j₀, hj₀, hid₀, hs₀, hby₀, hlease⟩ := hkeeps j hj o hrunning hby
    exact ⟨j₀, hj₀, hid₀.trans hid, hs₀, hby₀, hlease⟩
  have hcurrent : ∀ {rows}, j ∈ rows → (s.withRows rows).current copy.id = s.current copy.id :=
    fun hj => hid ▸ current_withRows hj hrunning
  cases step_effect ha with
  | quiet => exact ⟨hfound (.refl _) hj, rfl⟩
  | start => exact ⟨hfound (.refl _) hj, rfl⟩
  | write hst hexec _ =>
      obtain ⟨hp, -, hmax⟩ := issued_claimsNothing hst
      exact ⟨hfound (.update hexec hp (hkeep _ hmax)) hj, hcurrent hj⟩
  | lost => exact ⟨hfound (.refl _) hj, hcurrent hj⟩
  | @claim r' env now attempts claimed job _ rows hsweep hexec =>
      obtain ⟨gate, hgate, hsome, rfl⟩ := JobsService.update_ok hexec
      obtain ⟨j₀, hj₀, hg₀⟩ := hsome.mp rfl
      have hwon := claim_writes.mp ((hgate j₀).mp hg₀)
      have hreclaims := hreclaims _ (attempted_advance hsweep)
      obtain ⟨j₁, hj₁, hj₁'⟩ := List.mem_map.mp hj
      by_cases hg : gate j₁ = true
      · -- The claimed row is under the claiming runner, which is not the copy's owner.
        have hid₁ := (claim_writes.mp ((hgate j₁).mp hg)).1
        have hcopyid : copy.id = job.id := by
          rw [← hid, ← hj₁', if_pos hg]
          exact hid₁
        have hby' : j.claimedBy = some r' := by
          rw [← hj₁', if_pos hg]
          rfl
        have hne := hreclaims ⟨j₀, hj₀, hwon⟩ copy hcopy hcopyid
        exact absurd (ho.trans (hby.symm.trans hby')) hne
      · rw [if_neg hg] at hj₁'
        subst hj₁'
        refine ⟨hfound (.refl _) hj₁, ?_⟩
        have hne : copy.id ≠ job.id := by
          intro hcopyid
          refine hg ((hgate j₁).mpr (claim_writes.mpr ⟨hid.trans hcopyid, ?_⟩))
          obtain rfl := List.inj_on_of_nodup_map hids hj₁ hj₀
            ((hid.trans hcopyid).trans hwon.1.symm)
          exact hwon.2
        exact (Function.update_of_ne hne _ _).trans (hcurrent hj)
  | @client principal edits results rows hedits =>
      have hkept : ∀ e ∈ edits, ∀ p condition, e.2 = .update p condition → p.Keeps Job.lease := by
        intro e he p condition hp
        exact hkeep p (hbounds e he p (by rw [hp]; rfl))
      exact ⟨hfound (.edits haccepted hkept hedits) hj, hcurrent hj⟩
  | refused => exact ⟨hfound (.refl _) hj, rfl⟩

/-- An update that claims nothing anchors what it writes. -/
theorem Anchored.update (h : Anchored rows) {env : JobsEnv} {p : JobPayload}
    {condition : Option SearchFilter} {result : Option Job} (hp : p.ClaimsNothing)
    (hu : JobsService.update env rows p condition = .ok (result, rows')) : Anchored rows' := by
  obtain ⟨gate, -, -, rfl⟩ := JobsService.update_ok hu
  intro j' hj' hby
  obtain ⟨j, hj, rfl⟩ := List.mem_map.mp hj'
  split at hby
  · next hg =>
      rw [if_pos hg]
      change p.claimedBy.getD j.claimedBy = none at hby
      show p.claimedAt.getD j.claimedAt = none
      rcases hp.claim with ⟨hpby, hpat⟩ | ⟨hpby, hpat⟩
      · rw [hpby] at hby
        rw [hpat]
        exact h j hj hby
      · rw [hpat]
        rfl
  · next hg =>
      rw [if_neg hg]
      exact h j hj hby

/-- Every step leaves the jobs anchored. -/
theorem Anchored.step (h : Anchored s.rows) (haccepted : a.Accepted)
    (ha : jobsStep codec config s a = some t) : Anchored t.rows := by
  cases step_effect ha with
  | quiet => exact h
  | start => exact h
  | write hst hexec _ => exact h.update (issued_claimsNothing hst).1 hexec
  | lost => exact h
  | claim _ hexec =>
      obtain ⟨gate, -, -, rfl⟩ := JobsService.update_ok hexec
      intro j' hj' hby
      obtain ⟨j, hj, rfl⟩ := List.mem_map.mp hj'
      split at hby
      · cases hby
      · next hg =>
          rw [if_neg hg]
          exact h j hj hby
  | client hedits =>
      refine SqlResource.applyEdits_invariant Anchored (fun {_ e _ _ _} hmem hrows he => ?_) hedits h
      have haccepted : e.Accepted := haccepted _ hmem
      cases JobsService.applyEdit_effect he with
      | create hinsert _ =>
          intro j' hj' hby
          rcases List.mem_append.mp hj' with hj' | hj'
          · exact hrows j' hj' hby
          · rw [List.mem_singleton.mp hj', (JobsService.insert_creates hinsert).claimedAt,
              haccepted.2.1]
            rfl
      | update hu => exact hrows.update haccepted.claimsNothing hu
      | delete gate _ => exact fun j' hj' => hrows j' (List.mem_of_mem_filter hj')
  | refused => exact h

namespace Seen

theorem step (h : Seen r s) (hok : RecoversSeen r s a)
    (ha : jobsStep codec config s a = some t) : Seen r t where
  keyed := step_keyed h.keyed ha
  anchored := h.anchored.step hok.1 ha
  copies copy hcopy := by
    rcases recovering_step (runner_step ha r) copy hcopy with hcopy | ⟨hcopy, -⟩
    · exact h.copies copy hcopy
    · exact h.anchored copy hcopy
  lease copy hcopy o ho j hj hid hrunning hby := by
    rcases recovering_step (runner_step ha r) copy hcopy with hcopy | ⟨hcopy, hrows⟩
    · obtain ⟨⟨j₀, hj₀, hid₀, hs₀, hby₀, hlease⟩, -⟩ :=
        copy_step h.keyed hok ha hcopy ho hj hid hrunning hby
      exact hlease.symm.trans (h.lease copy hcopy o ho j₀ hj₀ hid₀ hs₀ hby₀)
    · rw [hrows] at hj
      rw [List.inj_on_of_nodup_map h.keyed hj hcopy hid]

omit [TextRules] in
theorem initial (hids : (rows.map Job.id).Nodup) (hanchored : Anchored rows) :
    Seen r ({ rows } : JobsState κ) where
  keyed := hids
  anchored := hanchored
  copies _ hcopy := absurd hcopy List.not_mem_nil
  lease _ hcopy := absurd hcopy List.not_mem_nil

end Seen

/-! ## One copy, from its read to its write -/

/-- The pass still holds a copy it read if it holds any, and while the copy's job runs under the
copy's owner it is under the claim `c` it was under then. -/
structure Unrevoked (r : ℕ) (copy : Job) (c : Option Claim) (s : JobsState κ) : Prop where
  seen : Seen r s
  passing : ∀ {now cursor items}, (s.runner r).sweep = .enumerating .recover now cursor items →
    copy ∈ items
  claim : copy ∈ (s.runner r).recovering → ∀ o, copy.claimedBy = some o → ∀ j ∈ s.rows,
    j.id = copy.id → j.status = .running → j.claimedBy = some o → s.current copy.id = c

namespace Unrevoked

variable {copy : Job} {c : Option Claim}

omit [TextRules] in
/-- Within one sweep, the pass holds a copy only if it held it before. -/
theorem passing_step (h : Unrevoked r copy c s) (hsame : a.begins ≠ some r)
    (ht : RunnerStep (config r) s a r t) :
    (∀ {now cursor items}, (t.runner r).sweep = .enumerating .recover now cursor items →
      copy ∈ items) ∧
    (copy ∈ (t.runner r).recovering → copy ∈ (s.runner r).recovering) := by
  have hself : ∀ sweep : Sweep κ, (s.setSweep r sweep).runner r = { s.runner r with sweep } :=
    fun sweep => JobsState.setSweep_self sweep
  have hnone : ∀ {sweep : Sweep κ}, (t.runner r).sweep = sweep →
      (∀ now cursor items, sweep ≠ .enumerating .recover now cursor items) →
      (∀ now jobs, sweep ≠ .processing .recover now jobs) →
      (∀ {now cursor items}, (t.runner r).sweep = .enumerating .recover now cursor items →
        copy ∈ items) ∧
      (copy ∈ (t.runner r).recovering → copy ∈ (s.runner r).recovering) := by
    intro sweep hsweep henum hproc
    refine ⟨fun hr => absurd (hsweep.symm.trans hr) (henum _ _ _), fun hmem => ?_⟩
    unfold JobRunner.recovering at hmem
    split at hmem
    · next hr => exact absurd (hsweep.symm.trans hr) (henum _ _ _)
    · next hr => exact absurd (hsweep.symm.trans hr) (hproc _ _)
    · cases hmem
  cases ht with
  | same hsweep _ =>
      refine ⟨fun hr => h.passing (hsweep.symm.trans hr), fun hmem => ?_⟩
      rwa [JobRunner.recovering, hsweep] at hmem
  | stop hsweep _ _ => exact hnone hsweep nofun nofun
  | @begin now hbegin _ _ =>
      subst hbegin
      exact absurd rfl hsame
  | @page pass now cursor items found hsweep _ ht =>
      cases pass with
      | recover =>
          have hcopy := h.passing hsweep
          have hheld : copy ∈ (s.runner r).recovering := by
            rwa [JobRunner.recovering, hsweep]
          refine ⟨fun hr => ?_, fun _ => hheld⟩
          rcases ht with ⟨_, ht⟩ | ht
          · rw [ht, hself] at hr
            cases hr
            exact List.mem_append_left _ hcopy
          · rw [ht, hself] at hr
            cases hr
      | promote =>
          rcases ht with ⟨_, ht⟩ | ht
          · have hsweep' := congrArg JobRunner.sweep (ht ▸ hself _)
            exact hnone hsweep' nofun nofun
          · have hsweep' := congrArg JobRunner.sweep (ht ▸ hself _)
            exact hnone hsweep' nofun nofun
  | promote _ ht =>
      have hsweep' := congrArg JobRunner.sweep (ht ▸ hself _)
      exact hnone hsweep' nofun nofun
  | claim _ ht =>
      have hsweep' := congrArg JobRunner.sweep (ht ▸ hself _)
      exact hnone hsweep' nofun nofun
  | @next pass now job jobs hsweep hsweep' _ =>
      cases pass with
      | recover =>
          refine ⟨fun hr => absurd (hsweep'.symm.trans hr) nofun, fun hmem => ?_⟩
          rw [JobRunner.recovering, hsweep'] at hmem
          rw [JobRunner.recovering, hsweep]
          exact List.mem_cons_of_mem _ hmem
      | promote => exact hnone hsweep' nofun nofun
  | take _ _ ht =>
      have hsweep' := congrArg JobRunner.sweep (ht ▸ hself _)
      exact hnone hsweep' nofun nofun
  | start _ ht =>
      have hsweep' : (t.runner r).sweep = .idle := by
        rw [ht, JobsState.startClaimed_runner, if_pos rfl]
      exact hnone hsweep' nofun nofun
  | taken _ _ _ hsweep _ => exact hnone hsweep nofun nofun

theorem step (h : Unrevoked r copy c s) (hok : RecoversSeen r s a ∧ a.begins ≠ some r)
    (ha : jobsStep codec config s a = some t) : Unrevoked r copy c t := by
  obtain ⟨hpassing, hheld⟩ := h.passing_step hok.2 (runner_step ha r)
  refine ⟨h.seen.step hok.1 ha, hpassing, fun hcopy o ho j hj hid hrunning hby => ?_⟩
  obtain ⟨⟨j₀, hj₀, hid₀, hs₀, hby₀, -⟩, hcurrent⟩ :=
    copy_step h.seen.keyed hok.1 ha (hheld hcopy) ho hj hid hrunning hby
  exact hcurrent.trans (h.claim (hheld hcopy) o ho j₀ hj₀ hid₀ hs₀ hby₀)

omit [TextRules] in
/-- A copy that the pass holds. -/
theorem initial (h : Seen r s) (hcopy : copy ∈ (s.runner r).recovering) :
    Unrevoked r copy (s.current copy.id) s where
  seen := h
  passing hsweep := by rwa [JobRunner.recovering, hsweep] at hcopy
  claim _ _ _ _ _ _ _ _ := rfl

end Unrevoked

omit [TextRules] in
/-- A pass writes for a copy whose claim is older than its bound, under the copy's owner. -/
theorem recoverStatement_some {config : JobsConfig} {now : ℤ} {job : Job} {st : Statement}
    (h : recoverStatement config now job = some st) :
    ∃ claimedAt, job.claimedAt = some claimedAt ∧
      job.maxSecondsForRun.getD config.defaultMaxSecondsForRun * 1000000 < now - claimedAt ∧
      st.payload.id = some job.id ∧ st.condition = claimCondition job.claimedBy := by
  simp only [recoverStatement] at h
  split at h
  · cases h
  · next claimedAt hat =>
      split at h
      · cases h
      · next hage =>
          refine ⟨claimedAt, hat, by omega, ?_⟩
          split at h
          all_goals
            cases h
            exact ⟨rfl, rfl⟩

/-- **A recovery pass takes away only stale claims, and only those it has seen.** Let a runner's
pass hold the copy of a job in some state of a run, and write for it in a later state of the same
sweep. Whatever row this takes out of `RUNNING` is then held under a claim that is older than the
job's bound, and that it was already held under when the pass had read the copy. -/
theorem recover_only_stale {as bs : List JobsAction} {u : JobsState κ} {env : JobsEnv} {now : ℤ}
    {job j : Job} {jobs : List Job} (hids : (rows.map Job.id).Nodup) (hanchored : Anchored rows)
    (hrun : Trace.Run (jobsStep codec config) (RecoversSeen r) { rows } as s)
    (hread : job ∈ (s.runner r).recovering)
    (hrest : Trace.Run (jobsStep codec config)
      (fun s a => RecoversSeen r s a ∧ a.begins ≠ some r) s bs t)
    (hsweep : (t.runner r).sweep = .processing .recover now (job :: jobs))
    (hstep : jobsStep codec config t (.advance r env) = some u)
    (hj : j ∈ t.rows) (hrunning : j.status = .running) (hout : j ∉ u.rows) :
    (∃ claimedAt, j.claimedAt = some claimedAt ∧
      j.maxSecondsForRun.getD (config r).defaultMaxSecondsForRun * 1000000 < now - claimedAt) ∧
      t.current j.id = s.current j.id := by
  have hseen : Seen r s := hrun.invariant (Seen r) (fun h hok ha => h.step hok ha)
    (.initial hids hanchored)
  have h : Unrevoked r job (s.current job.id) t :=
    hrest.invariant (Unrevoked r job (s.current job.id)) (fun h hok ha => h.step hok ha)
      (.initial hseen hread)
  have hheld : job ∈ (t.runner r).recovering := by
    rw [JobRunner.recovering, hsweep]
    exact List.mem_cons_self
  have hissued : issued config t (.advance r env) = recoverStatement (config r) now job := by
    rw [issued, hsweep]
    rfl
  cases step_effect hstep with
  | quiet => exact absurd hj hout
  | start => exact absurd hj hout
  | @write _ _ _ env' st result rows' hst hexec _ =>
      rw [hissued] at hst
      obtain ⟨claimedAt, hat, hage, hpid, hcondition⟩ := recoverStatement_some hst
      obtain ⟨gate, hgate, -, rfl⟩ := JobsService.update_ok hexec
      have hg : gate j = true := by
        by_contra hg
        exact hout (List.mem_map.mpr ⟨j, hj, if_neg hg⟩)
      have hwrites := (hgate j).mp hg
      rw [hcondition, claimCondition_writes] at hwrites
      obtain ⟨hid, -, hby⟩ := hwrites
      have hid : j.id = job.id := Option.some.inj (hid.symm.trans hpid)
      obtain ⟨o, ho⟩ : ∃ o, job.claimedBy = some o := by
        refine Option.ne_none_iff_exists'.mp fun hnone => ?_
        have hunclaimed := h.seen.copies job hheld hnone
        rw [hat] at hunclaimed
        cases hunclaimed
      have hlease := h.seen.lease job hheld o ho j hj hid hrunning (hby.trans ho)
      simp only [Job.lease, Prod.mk.injEq] at hlease
      refine ⟨⟨claimedAt, hlease.1.trans hat, hlease.2 ▸ hage⟩, ?_⟩
      rw [hid]
      exact h.claim hheld o ho j hj hid hrunning (hby.trans ho)
  | lost => exact absurd hj hout
  | claim hsweep' _ => cases hsweep.symm.trans hsweep'

/-! ## An hour-old claim, and one that was renewed -/

/-- Two runners of one slot, and an hour for a job. -/
def twoRunners (_ : ℕ) : JobsConfig := ⟨1, 3600, true⟩

/-- Runner 7 claims a job and runs it, and runner 8 reads it in a recovery pass an hour later. -/
def readActions : List JobsAction :=
  .enter 7 :: .enter 8 :: sweepActions 7 0 7 ++ .load 7 ⟨0, 7, 1⟩ :: sweepActions 8 3600000001 1

/-- The job as runner 7 has claimed it. -/
def claimedJob (claimedAt : ℤ) (attempts : ℤ) : Job :=
  { Job.queued 1 2 with
    status := .running, claimedBy := some 7, claimedAt := some claimedAt, attempts }

omit [TextRules] in
/-- The claim of an hour ago is taken away. -/
theorem recover_only_stale_hour :
    letI := TextRules.ascii
    ∃ t u : JobsState CursorState, claimedJob 0 1 ∈ t.rows ∧
      jobsStep .plain twoRunners t (.advance 8 ⟨0, 0⟩) = some u ∧ claimedJob 0 1 ∉ u.rows ∧
      ∃ claimedAt, (claimedJob 0 1).claimedAt = some claimedAt ∧
        (claimedJob 0 1).maxSecondsForRun.getD 3600 * 1000000 < 3600000001 - claimedAt := by
  let _ := TextRules.ascii
  have hrun : (Trace.exec (jobsStep .plain twoRunners) (RecoversSeen 8)
      { rows := [Job.queued 1 2] } readActions).map (fun s => (s.rows, (s.runner 8).sweep,
        (jobsStep .plain twoRunners s (.advance 8 ⟨0, 0⟩)).map (·.rows.map Job.status)))
      = some ([claimedJob 0 1], .processing .recover 3600000001 [claimedJob 0 1],
        some [.pending]) := by decide
  obtain ⟨t, ht, hstate⟩ := Option.map_eq_some_iff.mp hrun
  simp only [Prod.mk.injEq, Option.map_eq_some_iff] at hstate
  obtain ⟨hrows, hsweep, u, hu, hstatus⟩ := hstate
  have hj : claimedJob 0 1 ∈ t.rows := hrows ▸ List.mem_singleton_self _
  have hout : claimedJob 0 1 ∉ u.rows := by
    intro hmem
    have hmem := List.mem_map_of_mem (f := Job.status) hmem
    rw [hstatus] at hmem
    cases List.mem_singleton.mp hmem
  have hread : claimedJob 0 1 ∈ (t.runner 8).recovering := by
    rw [JobRunner.recovering, hsweep]
    exact List.mem_singleton_self _
  have hids : ([Job.queued 1 2].map Job.id).Nodup := List.nodup_singleton _
  have hanchored : Anchored [Job.queued 1 2] := by simp [Anchored, Job.queued]
  have hstale := recover_only_stale hids hanchored (.of_exec ht) hread (.nil t) hsweep hu hj rfl
    hout
  exact ⟨t, u, hj, hu, hout, hstale.1⟩

omit [TextRules] in
/-- The body fails and runner 7 claims the job again while runner 8's pass is between its read and
its write: a claim of this very instant is taken away. -/
theorem recover_of_reclaimed :
    letI := TextRules.ascii
    ∃ s t u : JobsState CursorState,
      Trace.exec (jobsStep .plain twoRunners) (fun _ a => a.Accepted)
        { rows := [Job.queued 1 2] } readActions = some s ∧
      Trace.exec (jobsStep .plain twoRunners) (fun _ a => a.Accepted ∧ a.begins ≠ some 8) s
        (.finish 7 ⟨0, 7, 1⟩ { status := .error } ⟨0, 0⟩ :: sweepActions 7 3600000001 6) = some t ∧
      (t.runner 8).sweep = .processing .recover 3600000001 [claimedJob 0 1] ∧
      jobsStep .plain twoRunners t (.advance 8 ⟨0, 0⟩) = some u ∧
      ∃ j ∈ t.rows, j.status = .running ∧ j ∉ u.rows ∧
        ¬ ∃ claimedAt, j.claimedAt = some claimedAt ∧
          j.maxSecondsForRun.getD 3600 * 1000000 < 3600000001 - claimedAt := by
  let _ := TextRules.ascii
  have hrun : (Trace.exec (jobsStep .plain twoRunners) (fun _ a => a.Accepted)
      { rows := [Job.queued 1 2] } readActions).map (fun s =>
        (Trace.exec (jobsStep .plain twoRunners) (fun _ a => a.Accepted ∧ a.begins ≠ some 8) s
          (.finish 7 ⟨0, 7, 1⟩ { status := .error } ⟨0, 0⟩ :: sweepActions 7 3600000001 6)).map
            fun t => (t.rows, (t.runner 8).sweep,
              (jobsStep .plain twoRunners t (.advance 8 ⟨0, 0⟩)).map (·.rows.map Job.status)))
      = some (some ([claimedJob 3600000001 2], .processing .recover 3600000001 [claimedJob 0 1],
        some [.pending])) := by decide
  obtain ⟨s, hs, ht⟩ := Option.map_eq_some_iff.mp hrun
  obtain ⟨t, ht, hstate⟩ := Option.map_eq_some_iff.mp ht
  simp only [Prod.mk.injEq, Option.map_eq_some_iff] at hstate
  obtain ⟨hrows, hsweep, u, hu, hstatus⟩ := hstate
  refine ⟨s, t, u, hs, ht, hsweep, hu, claimedJob 3600000001 2, hrows ▸ List.mem_singleton_self _,
    rfl, fun hmem => ?_, ?_⟩
  · have hmem := List.mem_map_of_mem (f := Job.status) hmem
    rw [hstatus] at hmem
    cases List.mem_singleton.mp hmem
  · rintro ⟨claimedAt, hat, hage⟩
    cases hat
    simp [claimedJob, Job.queued] at hage

end Resourcey
