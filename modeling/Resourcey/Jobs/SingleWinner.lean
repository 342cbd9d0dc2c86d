import Resourcey.Jobs.Ledger
import Resourcey.Jobs.Sweep
import Resourcey.Logic.Trace

/-!
# One winner, one body, one attempt

The update that claims a job is conditional on `PENDING`, so one claim wins it (`SingleWinner`), and
the sweep that won it starts one body for it (`Started`). The attempts it stores are one more than
those of the copy it was computed from, which may have been claimed and put back since
(`attempts_of_outdated`). `claims_exact` is the run theorem under the condition that it has not.

A sweep that is cut off between a claim and its end starts no body for the claim: its statements are
one transaction, which is then rolled back, and the theorem is about the runs without that.
-/

namespace Resourcey

open JobRunner

variable {κ : Type}

/-- A job that goes from `PENDING` to `RUNNING` was claimed once, by the runner that then owns it,
and that counted one attempt. -/
def SingleWinner (s : JobsState κ) (a : JobsAction) (t : JobsState κ) : Prop :=
  ∀ j ∈ s.rows, j.status = .pending → ∀ j' ∈ t.rows, j'.id = j.id → j'.status = .running →
    ∃ r env, a = .advance r env ∧ t.claims = s.nextClaim r j.id :: s.claims ∧
      j'.claimedBy = some r ∧ j'.attempts = j.attempts + 1

/-- Each claim is held by the sweep that won it, or its body was started once, in its runner; and
no runner has more bodies in flight than it may. -/
structure Started (config : ℕ → JobsConfig) (s : JobsState κ) : Prop where
  once : ∀ c ∈ s.claims, c ∈ (s.runner c.runnerId).sweep.claimed ∧ c ∉ s.starts ∨
    c ∉ (s.runner c.runnerId).sweep.claimed ∧ s.starts.count c = 1
  body : ∀ r, ∀ task ∈ (s.runner r).inFlight, task.claim ∈ s.starts ∧ task.claim.runnerId = r
  capacity : ∀ r, (s.runner r).inFlight.length ≤ (config r).maxConcurrent

/-- The step does not cut off a sweep that holds claims. -/
def Uninterrupted (s : JobsState κ) (a : JobsAction) : Prop :=
  ∀ r ∈ a.cutsOff, (s.runner r).sweep.claimed = []

/-- A client creates jobs under a client's status; only the producer, which creates one job at a
time, may choose another. -/
def CreatesQueued (a : JobsAction) : Prop :=
  a.edits.length ≤ 1 ∨
    ∀ e ∈ a.edits, ∀ p ∈ e.2.created, ∀ status ∈ p.status, status ∈ clientStatusValues

/-- The condition of a step. -/
def ClaimsExactly (s : JobsState κ) (a : JobsAction) : Prop :=
  a.Accepted ∧ CreatesQueued a ∧ FreshCopy s a ∧ Uninterrupted s a

instance (s : JobsState κ) (a : JobsAction) : Decidable (Uninterrupted s a) :=
  inferInstanceAs (Decidable (∀ r ∈ a.cutsOff, _))

instance (a : JobsAction) : Decidable (CreatesQueued a) :=
  inferInstanceAs (Decidable (_ ∨ ∀ e ∈ a.edits, ∀ p ∈ e.2.created, ∀ status ∈ p.status, _))

instance (s : JobsState κ) (a : JobsAction) : Decidable (ClaimsExactly s a) :=
  inferInstanceAs (Decidable (_ ∧ _))

variable [TextRules] {codec : CursorCodec κ} {config : ℕ → JobsConfig} {s t : JobsState κ}
  {a : JobsAction} {rows rows' : List Job}

/-! ## The transition -/

/-- No job of this identifier runs. -/
def NotRunning (id : ℕ) (rows : List Job) : Prop := ∀ j ∈ rows, j.id = id → j.status ≠ .running

/-- An update that claims nothing sets no job running. -/
theorem NotRunning.update {id : ℕ} (h : NotRunning id rows) {env : JobsEnv} {p : JobPayload}
    {condition : Option SearchFilter} {result : Option Job} (hp : p.ClaimsNothing)
    (hu : JobsService.update env rows p condition = .ok (result, rows')) : NotRunning id rows' := by
  obtain ⟨gate, -, -, rfl⟩ := JobsService.update_ok hu
  intro j' hj' hid
  obtain ⟨j, hj, rfl⟩ := List.mem_map.mp hj'
  split at hid
  · next hg =>
      rw [if_pos hg]
      show p.status.getD j.status ≠ .running
      cases hstatus : p.status with
      | none => exact h j hj hid
      | some status => exact fun hr => hp.status (hstatus.trans (congrArg some hr))
  · next hg =>
      rw [if_neg hg]
      exact h j hj hid

/-- A request of a client sets no pending job running. -/
theorem NotRunning.edits {j : Job} (hj : j ∈ rows) (h : NotRunning j.id rows)
    {principal : Option ℕ} {edits : List (JobsEnv × Edit JobPayload)} {results : List (Option Job)}
    (haccepted : (JobsAction.client principal edits).Accepted)
    (hqueued : CreatesQueued (.client principal edits))
    (hedits : jobsResource.applyEdits (JobsService.writeActions principal) rows edits
      = .ok (results, rows')) : NotRunning j.id rows' := by
  rcases hqueued with hone | hqueued
  · -- A single edit: a created job has an identifier of its own.
    match edits with
    | [] =>
        cases hedits
        exact h
    | [e] =>
        obtain ⟨result, mid, results', he, hnil, -⟩ := SqlResource.applyEdits_cons hedits
        cases hnil
        have haccepted := haccepted e List.mem_cons_self
        obtain ⟨env, e⟩ := e
        cases JobsService.applyEdit_effect he with
        | create hinsert hfresh =>
            intro j' hj' hid
            rcases List.mem_append.mp hj' with hj' | hj'
            · exact h j' hj' hid
            · obtain rfl := List.mem_singleton.mp hj'
              exact absurd hid.symm (hfresh j hj)
        | update hu => exact h.update haccepted.claimsNothing hu
        | delete gate _ => exact fun j' hj' => h j' (List.mem_of_mem_filter hj')
    | _ :: _ :: _ =>
        simp only [JobsAction.edits, List.length_cons] at hone
        omega
  · refine SqlResource.applyEdits_invariant (NotRunning j.id) (fun {env e _ _ _} hmem h he => ?_)
      hedits h
    have haccepted : e.Accepted := haccepted _ hmem
    have hqueued := hqueued _ hmem
    cases JobsService.applyEdit_effect he with
    | @create p j₀ hinsert hfresh =>
        intro j' hj' hid
        rcases List.mem_append.mp hj' with hj' | hj'
        · exact h j' hj' hid
        · obtain rfl := List.mem_singleton.mp hj'
          rw [(JobsService.insert_creates hinsert).status]
          cases hp : p.status with
          | none => exact nofun
          | some status =>
              have hclient : status ∈ clientStatusValues := hqueued p rfl status hp
              intro hr
              rw [Option.getD_some] at hr
              rw [hr] at hclient
              simp [clientStatusValues] at hclient
    | update hu => exact h.update haccepted.claimsNothing hu
    | delete gate _ => exact fun j' hj' => h j' (List.mem_of_mem_filter hj')

/-- **One claim makes the transition.** -/
theorem single_winner (hids : (s.rows.map Job.id).Nodup) (hok : ClaimsExactly s a)
    (ha : jobsStep codec config s a = some t) : SingleWinner s a t := by
  obtain ⟨haccepted, hqueued, hfresh, -⟩ := hok
  intro j hj hpending j' hj' hid hrunning
  have hnot : NotRunning j.id s.rows := by
    intro j₁ hj₁ hid₁
    obtain rfl := List.inj_on_of_nodup_map hids hj₁ hj hid₁
    rw [hpending]
    exact nofun
  cases step_effect ha with
  | quiet => exact absurd hrunning (hnot j' hj' hid)
  | start => exact absurd hrunning (hnot j' hj' hid)
  | write hst hexec _ =>
      exact absurd hrunning (hnot.update (issued_claimsNothing hst).1 hexec j' hj' hid)
  | lost => exact absurd hrunning (hnot j' hj' hid)
  | @claim r env now attempts claimed job j₀ _ hsweep hexec =>
      obtain ⟨gate, hgate, -, rfl⟩ := JobsService.update_ok hexec
      obtain ⟨j₁, hj₁, rfl⟩ := List.mem_map.mp hj'
      by_cases hg : gate j₁ = true
      · rw [if_pos hg] at hid ⊢
        have hwon := claim_writes.mp ((hgate j₁).mp hg)
        have hsame : j₁ = j := List.inj_on_of_nodup_map hids hj₁ hj hid
        have hfresh := hfresh _ (attempted_advance hsweep)
        have hcopy := hfresh j hj (hsame ▸ hwon.1) hpending
        have hjob : j.id = job.id := hsame ▸ hwon.1
        refine ⟨r, env, rfl, ?_, rfl, ?_⟩
        · rw [hjob]
          rfl
        · show job.attempts + 1 = j.attempts + 1
          rw [hcopy]
      · rw [if_neg hg] at hid hrunning
        exact absurd hrunning (hnot j₁ hj₁ hid)
  | client hedits =>
      exact absurd hrunning (hnot.edits hj haccepted hqueued hedits j' hj' hid)
  | refused => exact absurd hrunning (hnot j' hj' hid)

/-! ## The bodies -/

/-- What a sweep may still hold: below its capacity while it takes a job, and within it always. -/
def Fits (config : JobsConfig) (x : JobRunner κ) : Prop :=
  match x.sweep with
  | .taking _ _ claimed _ => x.inFlight.length + claimed.length < config.maxConcurrent
  | _ => x.inFlight.length + x.sweep.claimed.length ≤ config.maxConcurrent

omit [TextRules] in
theorem Fits.le {config : JobsConfig} {x : JobRunner κ} (h : Fits config x) :
    x.inFlight.length + x.sweep.claimed.length ≤ config.maxConcurrent := by
  unfold Fits at h
  split at h
  · next hsweep =>
      rw [hsweep]
      exact Nat.le_of_lt h
  · exact h

/-- The claims and bodies of every runner are accounted for. -/
structure Bodies (config : ℕ → JobsConfig) (s : JobsState κ) : Prop where
  ledger : Ledger s
  complete : ∀ c ∈ s.claims, c ∈ (s.runner c.runnerId).sweep.claimed ∨ c ∈ s.starts
  body : ∀ r, ∀ task ∈ (s.runner r).inFlight, task.claim ∈ s.starts ∧ task.claim.runnerId = r
  fits : ∀ r, Fits (config r) (s.runner r)

namespace Bodies

omit [TextRules] in
theorem started (h : Bodies config s) : Started config s where
  once c hc := by
    by_cases hheld : c ∈ (s.runner c.runnerId).sweep.claimed
    · exact .inl ⟨hheld, (h.ledger.heldBy _ c hheld).2.2⟩
    · have hst : c ∈ s.starts := (h.complete c hc).resolve_left hheld
      exact .inr ⟨hheld, List.count_eq_one_of_mem h.ledger.once hst⟩
  body := h.body
  capacity r := Nat.le_of_add_right_le (h.fits r).le

omit [TextRules] in
/-- A runner stays within its capacity. -/
theorem fits_step {r : ℕ} (h : Fits (config r) (s.runner r))
    (ht : RunnerStep (config r) s a r t) : Fits (config r) (t.runner r) := by
  have hle := h.le
  cases ht with
  | same hsweep hin =>
      unfold Fits at h ⊢
      rw [hsweep]
      split at h
      · exact Nat.lt_of_le_of_lt (Nat.add_le_add_right hin _) h
      · exact Nat.le_trans (Nat.add_le_add_right hin _) h
  | stop hsweep hin _ =>
      unfold Fits
      rw [hsweep]
      exact Nat.le_trans hin (Nat.le_of_add_right_le hle)
  | begin _ ht _ =>
      rw [ht, JobsState.setSweep_self]
      exact Nat.le_of_add_right_le hle
  | page _ _ ht =>
      rcases ht with ⟨_, ht⟩ | ht
      · rw [ht, JobsState.setSweep_self]
        exact Nat.le_of_add_right_le hle
      · rw [ht, JobsState.setSweep_self]
        exact Nat.le_of_add_right_le hle
  | promote _ ht =>
      rw [ht, JobsState.setSweep_self]
      exact Nat.le_of_add_right_le hle
  | claim _ ht =>
      rw [ht, JobsState.setSweep_self]
      exact Nat.le_of_add_right_le hle
  | next _ hsweep hin =>
      unfold Fits
      rw [hsweep, hin]
      exact Nat.le_of_add_right_le hle
  | take hsweep hcapacity ht =>
      rw [ht, JobsState.setSweep_self]
      exact hcapacity
  | @start now attempts claimed hsweep ht =>
      rw [hsweep] at hle
      rw [ht, JobsState.startClaimed_runner, if_pos rfl]
      simp only [Fits, Sweep.claimed, List.length_append, List.length_map, List.length_nil]
      exact hle
  | @taken now attempts claimed job won hsweep hwon ht hin =>
      have hlen : won.length ≤ 1 := by
        rcases hwon with rfl | ⟨rfl, -⟩
        · exact Nat.zero_le 1
        · exact Nat.le_refl 1
      simp only [Fits, hsweep] at h
      simp only [Fits, ht, hin, Sweep.claimed, List.length_append]
      omega

omit [TextRules] in
/-- A sweep that is not cut off keeps what it holds until it starts it. -/
theorem held_step {r : ℕ} {c : Claim} (hc : c ∈ (s.runner r).sweep.claimed)
    (huncut : a.cutsOff = some r → (s.runner r).sweep.claimed = []) (ht : RunnerStep (config r) s a r t) :
    c ∈ (t.runner r).sweep.claimed ∨ c ∈ t.starts := by
  cases ht with
  | same hsweep _ => exact .inl (hsweep ▸ hc)
  | stop _ _ hnone =>
      have hempty : (s.runner r).sweep.claimed = [] := by
        by_cases hcut : a.cutsOff = some r
        · exact huncut hcut
        · exact hnone hcut
      rw [hempty] at hc
      cases hc
  | begin _ _ hsweep => exact absurd (hsweep ▸ hc) List.not_mem_nil
  | page hsweep _ _ => exact absurd (hsweep ▸ hc) List.not_mem_nil
  | promote hsweep _ => exact absurd (hsweep ▸ hc) List.not_mem_nil
  | claim hsweep _ => exact absurd (hsweep ▸ hc) List.not_mem_nil
  | next hsweep _ _ => exact absurd (hsweep ▸ hc) List.not_mem_nil
  | take hsweep _ ht =>
      rw [hsweep] at hc
      rw [ht, JobsState.setSweep_self]
      exact .inl hc
  | start hsweep ht =>
      rw [hsweep] at hc
      rw [ht]
      exact .inr (List.mem_append_right _ hc)
  | taken won hsweep _ ht _ =>
      rw [hsweep] at hc
      rw [ht]
      exact .inl (List.mem_append_left _ hc)

/-- What a step does to the lists of claims. -/
theorem claims_step (ha : jobsStep codec config s a = some t) : s.starts ⊆ t.starts ∧
    ∀ c ∈ t.claims, c ∈ s.claims ∨ c ∈ (t.runner c.runnerId).sweep.claimed := by
  cases step_effect ha with
  | quiet => exact ⟨fun _ hc => hc, fun _ hc => .inl hc⟩
  | start => exact ⟨List.subset_append_left _ _, fun _ hc => .inl hc⟩
  | write => exact ⟨fun _ hc => hc, fun _ hc => .inl hc⟩
  | lost => exact ⟨fun _ hc => hc, fun _ hc => .inl hc⟩
  | @claim r _ _ _ _ job =>
      refine ⟨fun _ hc => hc, fun c hc => ?_⟩
      rcases List.mem_cons.mp hc with rfl | hc
      · have hby : (s.nextClaim r job.id).runnerId = r := rfl
        rw [Ledger.claimed_runner, if_pos hby]
        exact .inr (List.mem_append_right _ (List.mem_singleton_self _))
      · exact .inl hc
  | client => exact ⟨fun _ hc => hc, fun _ hc => .inl hc⟩
  | refused => exact ⟨fun _ hc => hc, fun _ hc => .inl hc⟩

/-- The bodies that run were started, each by a claim of its runner. -/
theorem body_step (h : Bodies config s) (ha : jobsStep codec config s a = some t) :
    ∀ r, ∀ task ∈ (t.runner r).inFlight, task.claim ∈ t.starts ∧ task.claim.runnerId = r := by
  have hset : ∀ {r x}, (s.runner r).Quiet x → ∀ r', ∀ task ∈ ((s.setRunner r x).runner r').inFlight,
      task.claim ∈ s.starts ∧ task.claim.runnerId = r' := by
    intro r x hx r' task htask
    rw [JobsState.setRunner_runner] at htask
    split at htask
    · next hr =>
        subst hr
        obtain ⟨task', htask', hclaim, -⟩ := hx.inFlight task htask
        exact hclaim ▸ h.body r' task' htask'
    · exact h.body r' task htask
  cases step_effect ha with
  | quiet hx => exact hset hx
  | @start r _ now attempts claimed hsweep =>
      intro r' task htask
      rw [JobsState.startClaimed_runner] at htask
      split at htask
      · next hr =>
          have htask : task ∈ (s.runner r).inFlight ++
            claimed.map fun claim => ({ claim } : RunTask) := htask
          rcases List.mem_append.mp htask with htask | htask
          · obtain ⟨hst, hby⟩ := h.body r task htask
            exact ⟨List.mem_append_left _ hst, hby.trans hr.symm⟩
          · obtain ⟨c, hc, rfl⟩ := List.mem_map.mp htask
            have hby := (h.ledger.heldBy r c (by rw [hsweep]; exact hc)).1
            exact ⟨List.mem_append_right _ hc, hby.trans hr.symm⟩
      · obtain ⟨hst, hby⟩ := h.body r' task htask
        exact ⟨List.mem_append_left _ hst, hby⟩
  | write _ _ hx => exact hset hx
  | lost hx => exact hset hx
  | claim hsweep _ =>
      intro r' task htask
      rw [JobsState.claimed_inFlight] at htask
      exact h.body r' task htask
  | client => exact h.body
  | refused => exact h.body

theorem step (h : Bodies config s) (hok : Uninterrupted s a)
    (ha : jobsStep codec config s a = some t) : Bodies config t where
  ledger := h.ledger.step ha
  complete c hc := by
    obtain ⟨hstarts, hclaims⟩ := claims_step ha
    rcases hclaims c hc with hc | hheld
    · rcases h.complete c hc with hheld | hst
      · exact held_step hheld (fun hcut => hok _ hcut) (runner_step ha _)
      · exact .inr (hstarts hst)
    · exact .inl hheld
  body := h.body_step ha
  fits r := fits_step (h.fits r) (runner_step ha r)

omit [TextRules] in
theorem initial : Bodies config ({ rows } : JobsState κ) where
  ledger := .initial
  complete _ hc := absurd hc List.not_mem_nil
  body _ _ htask := absurd htask List.not_mem_nil
  fits _ := Nat.zero_le _

end Bodies

/-! ## The run -/

/-- **Every claim has one winner, starts one body and counts one attempt**, along every run in which
no claim is computed from an outdated copy, and no runner has more bodies in flight than it may. -/
theorem claims_exact {as : List JobsAction} (hids : (rows.map Job.id).Nodup)
    (hrun : Trace.Run (jobsStep codec config) ClaimsExactly { rows } as s) :
    Started config s ∧ ∀ a t, ClaimsExactly s a → jobsStep codec config s a = some t →
      SingleWinner s a t ∧ Started config t := by
  obtain ⟨hkeyed, hbodies⟩ := hrun.invariant
    (fun s => (s.rows.map Job.id).Nodup ∧ Bodies config s)
    (fun h hok ha => ⟨step_keyed h.1 ha, h.2.step hok.2.2.2 ha⟩) ⟨hids, .initial⟩
  refine ⟨hbodies.started, fun a t hok ha => ?_⟩
  exact ⟨single_winner hkeyed hok ha, (hbodies.step hok.2.2.2 ha).started⟩

omit [TextRules] in
/-- Two runners race for one job: the second one's update finds it taken. -/
theorem claims_exact_race :
    letI := TextRules.ascii
    ∃ s : JobsState CursorState, s.claims = [⟨0, 7, 1⟩] ∧ s.starts = [⟨0, 7, 1⟩] ∧
      Started (fun _ => ⟨1, 3600, true⟩) s := by
  let _ := TextRules.ascii
  have hrun : (Trace.exec (jobsStep .plain fun _ => ⟨1, 3600, true⟩) ClaimsExactly
      { rows := [Job.queued 1 2] } (.enter 7 :: .enter 8 :: sweepActions 7 0 5 ++
        sweepActions 8 0 5 ++ List.replicate 2 (.advance 7 ⟨0, 0⟩) ++
          List.replicate 2 (.advance 8 ⟨0, 0⟩))).map (fun s => (s.claims, s.starts))
        = some ([⟨0, 7, 1⟩], [⟨0, 7, 1⟩]) := by decide
  obtain ⟨s, hs, hclaims⟩ := Option.map_eq_some_iff.mp hrun
  simp only [Prod.mk.injEq] at hclaims
  exact ⟨s, hclaims.1, hclaims.2, (claims_exact (by decide) (.of_exec hs)).1⟩

omit [TextRules] in
/-- A runner reads a job and is slow to claim it. Another one claims the job, its body fails, and
the job is put back after one attempt; the claim then stores one attempt again. -/
theorem attempts_of_outdated :
    letI := TextRules.ascii
    ∃ s t, Trace.exec (jobsStep .plain fun _ => ⟨1, 3600, true⟩) (fun s a => a.Accepted ∧
        CreatesQueued a ∧ Uninterrupted s a) { rows := [Job.queued 1 2] } (.enter 7 :: .enter 8 ::
          sweepActions 8 0 5 ++ sweepActions 7 0 7 ++ [.load 7 ⟨0, 7, 1⟩,
            .finish 7 ⟨0, 7, 1⟩ { status := .error } ⟨0, 0⟩]) = some s ∧
      jobsStep .plain (fun _ => ⟨1, 3600, true⟩) s (.advance 8 ⟨0, 0⟩) = some t ∧
      ¬ SingleWinner s (.advance 8 ⟨0, 0⟩) t := by
  let _ := TextRules.ascii
  have hrun : (Trace.exec (jobsStep .plain fun _ => ⟨1, 3600, true⟩) (fun s a => a.Accepted ∧
      CreatesQueued a ∧ Uninterrupted s a) { rows := [Job.queued 1 2] } (.enter 7 :: .enter 8 ::
        sweepActions 8 0 5 ++ sweepActions 7 0 7 ++ [.load 7 ⟨0, 7, 1⟩,
          .finish 7 ⟨0, 7, 1⟩ { status := .error } ⟨0, 0⟩])).map (fun s =>
      (s.rows.map fun j => (j.id, j.status, j.attempts),
        (jobsStep .plain (fun _ => ⟨1, 3600, true⟩) s (.advance 8 ⟨0, 0⟩)).map fun t =>
          t.rows.map fun j => (j.id, j.status, j.attempts)))
      = some ([(1, .pending, 1)], some [(1, .running, 1)]) := by decide
  obtain ⟨s, hs, hstate⟩ := Option.map_eq_some_iff.mp hrun
  simp only [Prod.mk.injEq, Option.map_eq_some_iff] at hstate
  obtain ⟨hrows, t, ht, hrows'⟩ := hstate
  refine ⟨s, t, hs, ht, fun h => ?_⟩
  obtain ⟨j, hj, hpair⟩ := List.mem_map.mp (hrows ▸ List.mem_singleton_self _)
  obtain ⟨j', hj', hpair'⟩ := List.mem_map.mp (hrows' ▸ List.mem_singleton_self _)
  simp only [Prod.mk.injEq] at hpair hpair'
  obtain ⟨r, env, -, -, -, hcount⟩ := h j hj hpair.2.1 j' hj' (hpair'.1.trans hpair.1.symm)
    hpair'.2.1
  omega

end Resourcey
