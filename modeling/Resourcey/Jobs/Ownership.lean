import Resourcey.Jobs.Runner
import Resourcey.Logic.Trace

/-!
# Completions and claims

`_finish` writes under the condition that the row is `RUNNING` and claimed by this runner. That
tells the claims of two runners apart, but not two claims by one runner: a runner that recovers its
own slow job and claims it again leaves the first body running, and the first body's completion is
then written under the second claim (`finish_of_reclaimed`). `finish_only_current` is the run
theorem without that: while no runner claims a job it still has a run of, a completion is written
only under the claim that started its run.

The invariant is `Owned`: whenever a running row is claimed by a runner, each run that this runner
still has of the row was started by the row's current claim.
-/

namespace Resourcey

open JobRunner

variable {κ : Type} [TextRules]

/-- In this state, a completion that is written is that of the row's current claim. -/
def OnlyCurrentFinishes (s : JobsState κ) : Prop :=
  ∀ r, ∀ task ∈ (s.runner r).inFlight, ∀ job ∈ task.job, ∀ run env result rows,
    (finishStatement r job run).execute env s.rows = .ok (result, rows) →
      (result.isSome = true → s.current task.claim.jobId = some task.claim) ∧
        (s.current task.claim.jobId ≠ some task.claim → rows = s.rows)

/-- The runner does not claim a job that it still has a run of. -/
def ClaimsAfresh (s : JobsState κ) (a : JobsAction) : Prop :=
  ∀ c ∈ attempted s a, (∃ j ∈ s.rows, j.id = c.2.id ∧ j.status = .pending) →
    ∀ c' ∈ (s.runner c.1).openClaims, c'.jobId ≠ c.2.id

instance (s : JobsState κ) (a : JobsAction) : Decidable (ClaimsAfresh s a) :=
  inferInstanceAs (Decidable (∀ c ∈ attempted s a, _ → _))

/-- No row is running under an owner it did not have before, and what the claim goes with is kept. -/
def KeepsClaims {α : Type} (kept : Job → α) (rows rows' : List Job) : Prop :=
  ∀ j' ∈ rows', ∀ r, j'.status = .running → j'.claimedBy = some r →
    ∃ j ∈ rows, j.id = j'.id ∧ j.status = .running ∧ j.claimedBy = some r ∧ kept j = kept j'

/-- An update that does not touch the instant of a claim does not touch what is kept of it. -/
def JobPayload.Keeps {α : Type} (kept : Job → α) (p : JobPayload) : Prop :=
  p.claimedAt = none → ∀ env j, kept (j.write (p.withDefaults env .update)) = kept j

/-- Each run a runner still has of a row it owns was started by the row's current claim. -/
structure Owned (s : JobsState κ) : Prop where
  keyed : (s.rows.map Job.id).Nodup
  owned : ∀ r, ∀ c ∈ (s.runner r).openClaims, ∀ j ∈ s.rows, j.id = c.jobId →
    j.status = .running → j.claimedBy = some r → s.current c.jobId = some c
  loaded : ∀ r, ∀ task ∈ (s.runner r).inFlight, ∀ job ∈ task.job, job.id = task.claim.jobId

section Rows

variable {α : Type} {kept : Job → α} {rows rows' rows'' : List Job} {env : JobsEnv}
  {p : JobPayload} {condition : Option SearchFilter} {result : Option Job}

omit [TextRules] in
theorem KeepsClaims.refl (rows : List Job) : KeepsClaims kept rows rows :=
  fun j hj _ hs hc => ⟨j, hj, rfl, hs, hc, rfl⟩

omit [TextRules] in
theorem KeepsClaims.trans (h : KeepsClaims kept rows rows')
    (h' : KeepsClaims kept rows' rows'') : KeepsClaims kept rows rows'' := by
  intro j'' hj'' r hs hc
  obtain ⟨j', hj', hid, hs', hc', hkept⟩ := h' j'' hj'' r hs hc
  obtain ⟨j, hj, hid', hs, hc, hkept'⟩ := h j' hj' r hs' hc'
  exact ⟨j, hj, hid'.trans hid, hs, hc, hkept'.trans hkept⟩

/-- An update that claims nothing keeps the claims. -/
theorem KeepsClaims.update (h : JobsService.update env rows p condition = .ok (result, rows'))
    (hp : p.ClaimsNothing) (hkept : p.Keeps kept) : KeepsClaims kept rows rows' := by
  obtain ⟨gate, -, -, rfl⟩ := JobsService.update_ok h
  intro j' hj' r hs hc
  obtain ⟨j, hj, rfl⟩ := List.mem_map.mp hj'
  by_cases hg : gate j = true
  · rw [if_pos hg] at hs hc ⊢
    change p.status.getD j.status = .running at hs
    change p.claimedBy.getD j.claimedBy = some r at hc
    have hstatus : j.status = .running := by
      cases hp' : p.status with
      | none => rwa [hp'] at hs
      | some status =>
          rw [hp'] at hs
          exact absurd (hp'.trans (congrArg some hs)) hp.status
    rcases hp.claim with ⟨hby, hat⟩ | ⟨hby, hat⟩
    · rw [hby] at hc
      exact ⟨j, hj, rfl, hstatus, hc, (hkept hat env j).symm⟩
    · rw [hby] at hc
      cases hc
  · rw [if_neg hg] at hs hc ⊢
    exact ⟨j, hj, rfl, hs, hc, rfl⟩

/-- An edit that the view or the producer lets through keeps the claims. -/
theorem KeepsClaims.edit {principal : Option ℕ} {e : Edit JobPayload} (he : e.Accepted)
    (hkept : ∀ p condition, e = .update p condition → p.Keeps kept)
    (h : JobsService.EditEffect principal env rows e rows') : KeepsClaims kept rows rows' := by
  cases h with
  | create hinsert _ =>
      intro j' hj' r hs hc
      rcases List.mem_append.mp hj' with hj' | hj'
      · exact ⟨j', hj', rfl, hs, hc, rfl⟩
      · -- A new job has no owner.
        rw [List.mem_singleton.mp hj', (JobsService.insert_creates hinsert).claimedBy, he.1] at hc
        cases hc
  | update hu => exact .update hu he.claimsNothing (hkept _ _ rfl)
  | delete gate _ =>
      exact fun j' hj' r hs hc => ⟨j', List.mem_of_mem_filter hj', rfl, hs, hc, rfl⟩

/-- So does a batch of them. -/
theorem KeepsClaims.edits {principal : Option ℕ} {edits : List (JobsEnv × Edit JobPayload)}
    {results : List (Option Job)} (haccepted : ∀ e ∈ edits, e.2.Accepted)
    (hkept : ∀ e ∈ edits, ∀ p condition, e.2 = .update p condition → p.Keeps kept)
    (h : jobsResource.applyEdits (JobsService.writeActions principal) rows edits
      = .ok (results, rows')) : KeepsClaims kept rows rows' := by
  refine SqlResource.applyEdits_invariant (fun mid => KeepsClaims kept rows mid)
    (fun hmem hmid he => ?_) h (.refl rows)
  have he := JobsService.applyEdit_effect he
  exact hmid.trans (.edit (haccepted _ hmem) (hkept _ hmem) he)

end Rows

/-! ## The invariant -/

namespace Owned

variable {codec : CursorCodec κ} {config : ℕ → JobsConfig} {s t : JobsState κ} {r : ℕ}
  {x : JobRunner κ} {rows : List Job} {as : List JobsAction}

omit [TextRules] in
/-- A runner's own step. -/
theorem setRunner (h : Owned s) (hx : (s.runner r).Quiet x) : Owned (s.setRunner r x) where
  keyed := h.keyed
  owned r' c hc := by
    rw [JobsState.setRunner_runner] at hc
    split at hc
    · next hr => exact hr ▸ h.owned r c (hx.open_subset hc)
    · exact h.owned r' c hc
  loaded r' task' htask' job hjob := by
    rw [JobsState.setRunner_runner] at htask'
    split at htask'
    · obtain ⟨task, htask, -, rfl | ⟨job', hjob', hid⟩⟩ := hx.inFlight task' htask'
      · exact h.loaded r task' htask job hjob
      · obtain rfl := Option.some.inj (hjob'.symm.trans hjob)
        exact hid
    · exact h.loaded r' task' htask' job hjob

omit [TextRules] in
/-- A write that keeps the claims. -/
theorem withRows {α : Type} {kept : Job → α} (h : Owned s) (hids : (rows.map Job.id).Nodup)
    (hrows : KeepsClaims kept s.rows rows) : Owned (s.withRows rows) where
  keyed := hids
  owned r c hc j' hj' hid hs hclaim := by
    obtain ⟨j, hj, hid', hs', hclaim', -⟩ := hrows j' hj' r hs hclaim
    have hcur := h.owned r c hc j hj (hid'.trans hid) hs' hclaim'
    exact (if_pos ⟨j', hj', hid, hs⟩).trans hcur
  loaded := h.loaded

omit [TextRules] in
/-- The claims of a sweep become its runner's tasks. -/
theorem start (h : Owned s) {now : ℤ} {attempts : ℕ} {claimed : List Claim}
    (hsweep : (s.runner r).sweep = .claiming now attempts claimed) :
    Owned (s.startClaimed r claimed) where
  keyed := h.keyed
  owned r' c hc := h.owned r' c (JobsState.startClaimed_open hsweep r' hc)
  loaded r' task htask := by
    rw [JobsState.startClaimed_runner] at htask
    split at htask
    · have htask : task ∈ (s.runner r).inFlight ++ claimed.map fun claim => ({ claim } : RunTask) :=
        htask
      rcases List.mem_append.mp htask with htask | htask
      · exact h.loaded r task htask
      · obtain ⟨c, -, rfl⟩ := List.mem_map.mp htask
        intro job hjob
        cases hjob
    · exact h.loaded r' task htask

/-- A claim of a job that the runner has no run of. -/
theorem claim (h : Owned s) {now : ℤ} {attempts : ℕ} {claimed : List Claim} {job j : Job}
    {env : JobsEnv} (hsweep : (s.runner r).sweep = .taking now attempts claimed job)
    (hexec : (claimStatement r now job).execute env s.rows = .ok (some j, rows))
    (hafresh : ClaimsAfresh s (.advance r env)) :
    Owned (s.claimed r now attempts claimed job.id rows) := by
  obtain ⟨gate, hgate, hsome, rfl⟩ := JobsService.update_ok hexec
  obtain ⟨j₀, hj₀, hg₀⟩ := hsome.mp rfl
  have hwon := claim_writes.mp ((hgate j₀).mp hg₀)
  have hafresh := hafresh _ (attempted_advance hsweep)
  refine ⟨JobsService.update_ids hexec ▸ h.keyed, fun r' c hc j' hj' hid hs hclaim => ?_,
    fun r' task htask => ?_⟩
  · rcases JobsState.claimed_open hsweep hc with hc | ⟨rfl, rfl⟩
    · obtain ⟨j₁, hj₁, hj₁'⟩ := List.mem_map.mp hj'
      by_cases hjob : c.jobId = job.id
      · -- Another runner's open claim of this job: the row is this runner's now.
        have hr : r' ≠ r := fun hr =>
          hafresh ⟨j₀, hj₀, hwon⟩ c (hr ▸ hc) hjob
        have hid₁ : j₁.id = job.id := by
          rw [← hjob, ← hid, ← hj₁']
          split <;> rfl
        have hsame : j₁ = j₀ :=
          List.inj_on_of_nodup_map h.keyed hj₁ hj₀ (hid₁.trans hwon.1.symm)
        rw [← hj₁', hsame, if_pos hg₀] at hclaim
        exact absurd (Option.some.inj hclaim).symm hr
      · -- A row of another job is as it was.
        have hg : ¬ gate j₁ = true := by
          intro hg
          rw [if_pos hg] at hj₁'
          have hid₁ : j'.id = j₁.id := hj₁' ▸ rfl
          exact hjob (hid.symm.trans (hid₁.trans (claim_writes.mp ((hgate j₁).mp hg)).1))
        rw [if_neg hg] at hj₁'
        subst hj₁'
        have hcur := h.owned r' c hc j₁ hj₁ hid hs hclaim
        exact (Function.update_of_ne hjob _ _).trans ((if_pos ⟨j₁, hj', hid, hs⟩).trans hcur)
    · exact Function.update_self _ _ _
  · rw [JobsState.claimed_inFlight] at htask
    exact h.loaded r' task htask

theorem step (h : Owned s) {a : JobsAction} (hok : a.Accepted ∧ ClaimsAfresh s a)
    (ha : jobsStep codec config s a = some t) : Owned t := by
  have hkept : ∀ p : JobPayload, p.Keeps fun _ => () := fun _ _ _ _ => rfl
  have hids := step_keyed h.keyed ha
  cases step_effect ha with
  | quiet hx => exact h.setRunner hx
  | start hsweep => exact h.start hsweep
  | write hst hexec hx =>
      have hkeeps := KeepsClaims.update hexec (issued_claimsNothing hst).1 (hkept _)
      exact (h.withRows hids hkeeps).setRunner hx
  | lost hx => exact (h.withRows h.keyed (@KeepsClaims.refl _ (fun _ => ()) _)).setRunner hx
  | claim hsweep hexec => exact h.claim hsweep hexec hok.2
  | client hedits =>
      exact h.withRows hids (KeepsClaims.edits hok.1 (fun _ _ p _ _ => hkept p) hedits)
  | refused => exact h

omit [TextRules] in
/-- A table of unique identifiers, before any runner has claimed one of its jobs. -/
theorem initial (hids : (rows.map Job.id).Nodup) : Owned ({ rows } : JobsState κ) where
  keyed := hids
  owned _ _ hc := absurd hc List.not_mem_nil
  loaded _ _ htask := absurd htask List.not_mem_nil

/-- Under the invariant, a completion is written only under the claim that started its run. -/
theorem onlyCurrentFinishes (h : Owned s) : OnlyCurrentFinishes s := by
  intro r task htask job hjob run env result rows hexec
  obtain ⟨gate, hgate, hsome, -⟩ := JobsService.update_ok hexec
  have hcurrent : result.isSome = true → s.current task.claim.jobId = some task.claim := by
    intro hr
    obtain ⟨j, hj, hg⟩ := hsome.mp hr
    obtain ⟨hid, hs, hclaim⟩ := claimCondition_writes.mp ((hgate j).mp hg)
    have hid : j.id = task.claim.jobId := by
      rw [← h.loaded r task htask job hjob]
      exact (Option.some.inj ((finishStatement_id r job run).symm.trans hid)).symm
    refine h.owned r task.claim ?_ j hj hid hs hclaim
    exact List.mem_append_right _ (List.mem_map_of_mem htask)
  refine ⟨hcurrent, fun hne => ?_⟩
  cases result with
  | none => exact JobsService.update_none hexec
  | some _ => exact absurd (hcurrent rfl) hne

end Owned

/-- **A completion is written only under the claim that started its run**, in every state of every
run in which no runner claims a job that it still has a run of. -/
theorem finish_only_current {codec : CursorCodec κ} {config : ℕ → JobsConfig} {rows : List Job}
    {as : List JobsAction} {t : JobsState κ} (hids : (rows.map Job.id).Nodup)
    (hrun : Trace.Run (jobsStep codec config) (fun s a => a.Accepted ∧ ClaimsAfresh s a)
      { rows } as t) : OnlyCurrentFinishes t :=
  (hrun.invariant Owned (fun h hok ha => h.step hok ha) (.initial hids)).onlyCurrentFinishes

omit [TextRules] in
/-- One runner claims a job and runs it. -/
theorem finish_only_current_sweep :
    letI := TextRules.ascii
    ∃ t : JobsState CursorState, ((t.runner 7).inFlight.map (·.job.isSome)) = [true] ∧
      OnlyCurrentFinishes t := by
  let _ := TextRules.ascii
  have hrun : (Trace.exec (jobsStep .plain fun _ => ⟨2, 3600, true⟩)
      (fun s a => a.Accepted ∧ ClaimsAfresh s a) { rows := [Job.queued 1 2] }
      (.enter 7 :: sweepActions 7 0 7 ++ [.load 7 ⟨0, 7, 1⟩])).map
        (fun t => (t.runner 7).inFlight.map (·.job.isSome)) = some [true] := by decide
  obtain ⟨t, ht, hload⟩ := Option.map_eq_some_iff.mp hrun
  exact ⟨t, hload, finish_only_current (by decide) (.of_exec ht)⟩

omit [TextRules] in
/-- A runner recovers its own slow job after an hour and claims it again. The first body then
completes the job, although it is under the second claim. -/
theorem finish_of_reclaimed :
    letI := TextRules.ascii
    ∃ t, Trace.exec (jobsStep .plain fun _ => ⟨2, 3600, true⟩) (fun _ a => a.Accepted)
        { rows := [Job.queued 1 2] } (.enter 7 :: sweepActions 7 0 7 ++ .load 7 ⟨0, 7, 1⟩ ::
          sweepActions 7 3600000001 8) = some t ∧ ¬ OnlyCurrentFinishes t := by
  let _ := TextRules.ascii
  let first : Job := { Job.queued 1 2 with
    status := .running, claimedBy := some 7, claimedAt := some 0, attempts := 1 }
  let second : Job := { first with
    detail := some "recovered stale claim", claimedAt := some 3600000001, attempts := 2 }
  have hrun : (Trace.exec (jobsStep .plain fun _ => ⟨2, 3600, true⟩) (fun _ a => a.Accepted)
      { rows := [Job.queued 1 2] } (.enter 7 :: sweepActions 7 0 7 ++ .load 7 ⟨0, 7, 1⟩ ::
        sweepActions 7 3600000001 8)).map
        (fun t => ((t.runner 7).inFlight, t.current 1, t.rows)) = some
      ([⟨⟨0, 7, 1⟩, some first⟩, ⟨⟨1, 7, 1⟩, none⟩], some ⟨1, 7, 1⟩, [second]) := by decide
  obtain ⟨t, ht, hstate⟩ := Option.map_eq_some_iff.mp hrun
  simp only [Prod.mk.injEq] at hstate
  obtain ⟨hin, hcur, hrows⟩ := hstate
  refine ⟨t, ht, fun h => ?_⟩
  have htask : ⟨⟨0, 7, 1⟩, some first⟩ ∈ (t.runner 7).inFlight := by simp [hin]
  have hwrites : ((finishStatement 7 first {}).execute ⟨0, 0⟩ [second]).toOption.map
      (·.1.isSome) = some true := by decide
  cases hfinish : (finishStatement 7 first {}).execute ⟨0, 0⟩ [second] with
  | error e =>
      rw [hfinish] at hwrites
      cases hwrites
  | ok written =>
      rw [hfinish] at hwrites
      have hclaim := (h 7 _ htask first rfl {} ⟨0, 0⟩ written.1 written.2 (hrows ▸ hfinish)).1
        (Option.some.inj hwrites)
      simp [hcur] at hclaim

end Resourcey
