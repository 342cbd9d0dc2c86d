import Resourcey.Jobs.Model

/-!
# The job runner

Any number of `JobRunner`s and clients over one `jobs` table, at the level of single database
statements: each statement is atomic and takes effect at once, and between two of them anyone else
may act. A runner makes one sweep at a time, which enumerates page by page, writes job by job and
claims job by job from copies that may be outdated by then; its bodies run beside the sweeps and
finish, or not, in any order. A client request is a list of edits that applies as a whole.

Three fields are ghosts: `claims` are all claims made, latest first, `current` is the claim a
running row is under, and `starts` are the claims whose bodies were started. `step_effect` says
what a step can do to the table and to the claims that are still open, and every invariant is
proved from it.
-/

namespace Resourcey

/-- The settings of a runner. -/
structure JobsConfig where
  maxConcurrent : ℕ
  defaultMaxSecondsForRun : ℤ
  enabled : Bool := true

/-- `JobOutcome`. -/
inductive JobOutcome where
  | completed
  | error
  deriving DecidableEq, Repr

/-- The status an outcome is stored as. -/
def JobOutcome.status : JobOutcome → JobStatus
  | .completed => .completed
  | .error => .error

/-- What a body reports, or is mapped to when it raises. -/
structure JobRun where
  status : JobOutcome := .completed
  detail : Option String := none
  deriving DecidableEq, Repr

/-- An update the runner issues. -/
structure Statement where
  payload : JobPayload
  condition : SearchFilter

namespace JobRunner

/-- `_claim_condition`: the ownership gate. -/
def claimCondition (claimedBy : Option ℕ) : SearchFilter :=
  SearchFilter.and_ [statusFilter .running, claimedByFilter claimedBy]

/-- The payload that returns a job to `PENDING` and clears its claim. -/
def requeue (id : ℕ) (detail : Option (Option String)) : JobPayload where
  id := id
  status := some .pending
  claimedBy := some none
  claimedAt := some none
  detail := detail

/-- The update `_recover_stale` issues for an enumerated job, if its claim is stale. -/
def recoverStatement (config : JobsConfig) (now : ℤ) (job : Job) : Option Statement :=
  match job.claimedAt with
  | none => none
  | some claimedAt =>
    let bound := job.maxSecondsForRun.getD config.defaultMaxSecondsForRun
    if now - claimedAt ≤ bound * 1000000 then none
    else if job.attempts < job.maxAttempts then
      some ⟨requeue job.id (some "recovered stale claim"), claimCondition job.claimedBy⟩
    else
      some ⟨{ requeue job.id (some "stale claim; attempts exhausted") with status := some .error },
        claimCondition job.claimedBy⟩

/-- The update `_promote_due_scheduled` issues for an enumerated job, if it is due. -/
def promoteStatement (now : ℤ) (job : Job) : Option Statement :=
  if ∃ t ∈ job.runAt, now < t then none
  else some ⟨{ id := job.id, status := some .pending }, statusFilter .scheduled⟩

/-- The update that claims a job from a copy of it. -/
def claimStatement (runnerId : ℕ) (now : ℤ) (job : Job) : Statement where
  payload := { id := job.id, status := some .running, claimedBy := some runnerId
               claimedAt := some now, attempts := some (job.attempts + 1) }
  condition := statusFilter .pending

/-- The update of `_finish`, from the copy of the job that was loaded for the run. -/
def finishStatement (runnerId : ℕ) (job : Job) (run : JobRun) : Statement where
  payload :=
    if run.status = .error ∧ job.attempts < job.maxAttempts then requeue job.id run.detail
    else { id := job.id, status := some run.status.status, detail := some run.detail }
  condition := claimCondition (some runnerId)

theorem finishStatement_id (runnerId : ℕ) (job : Job) (run : JobRun) :
    (finishStatement runnerId job run).payload.id = some job.id := by
  unfold finishStatement
  split <;> rfl

/-- The update of `_release`. -/
def releaseStatement (runnerId : ℕ) (jobId : ℕ) : Statement where
  payload := requeue jobId none
  condition := claimCondition (some runnerId)

/-- The two passes of a sweep over enumerated jobs. -/
inductive Pass where
  | recover
  | promote
  deriving DecidableEq, Repr

/-- The status a pass enumerates. -/
def Pass.status : Pass → JobStatus
  | .recover => .running
  | .promote => .scheduled

/-- The update a pass issues for an enumerated job. -/
def Pass.statement (config : JobsConfig) (now : ℤ) : Pass → Job → Option Statement
  | .recover, job => recoverStatement config now job
  | .promote, job => promoteStatement now job

/-- `_ENUMERATE_PAGE`. -/
def enumeratePage : ℕ := 200

/-- `_CLAIM_ATTEMPT_FACTOR`. -/
def claimAttemptFactor : ℕ := 4

/-- A claim that was won: by which runner, of which job. The serial number tells the claims of one
job by one runner apart. -/
structure Claim where
  serial : ℕ
  runnerId : ℕ
  jobId : ℕ
  deriving DecidableEq, Repr

/-- Where a runner is in its sweep, between two statements. -/
inductive Sweep (κ : Type) where
  | idle
  | enumerating (pass : Pass) (now : ℤ) (cursor : Option κ) (items : List Job)
  | processing (pass : Pass) (now : ℤ) (jobs : List Job)
  | claiming (now : ℤ) (attempts : ℕ) (claimed : List Claim)
  | taking (now : ℤ) (attempts : ℕ) (claimed : List Claim) (job : Job)
  deriving DecidableEq

/-- The claims a sweep has made and not started yet. -/
def Sweep.claimed {κ : Type} : Sweep κ → List Claim
  | .claiming _ _ claimed => claimed
  | .taking _ _ claimed _ => claimed
  | _ => []

/-- A task that runs a body: the claim that started it, and the copy `_load` read once it has. -/
structure RunTask where
  claim : Claim
  job : Option Job := none
  deriving DecidableEq

end JobRunner

open JobRunner

/-- A runner, between two statements. -/
structure JobRunner (κ : Type) where
  entered : Bool := false
  looping : Bool := false
  sweep : Sweep κ := .idle
  inFlight : List RunTask := []
  releasing : List ℕ := []

/-- The table, the runners, and the claims. -/
structure JobsState (κ : Type) where
  rows : List Job := []
  runner : ℕ → JobRunner κ := fun _ => {}
  claims : List Claim := []
  current : ℕ → Option Claim := fun _ => none
  starts : List Claim := []

/-- What a runner or a client may do next. -/
inductive JobsAction where
  | enter (r : ℕ)
  | beginSweep (r : ℕ) (now : ℤ)
  | advance (r : ℕ) (env : JobsEnv)
  | abort (r : ℕ)
  | load (r : ℕ) (claim : Claim)
  | finish (r : ℕ) (claim : Claim) (run : JobRun) (env : JobsEnv)
  | drop (r : ℕ) (claim : Claim)
  | exit (r : ℕ)
  | release (r : ℕ) (env : JobsEnv)
  | skipRelease (r : ℕ)
  | client (principal : Option ℕ) (edits : List (JobsEnv × Edit JobPayload))

/-- `CLIENT_STATUS_VALUES`. -/
def clientStatusValues : List JobStatus := [.pending, .scheduled, .cancelled]

/-- An edit that `jobs_view` or `enqueue` lets through: it writes no column of a claim, and an update
sets the status to a client's one. -/
def Edit.Accepted : Edit JobPayload → Prop
  | .create p => p.claimedBy = none ∧ p.claimedAt = none ∧ p.attempts = none
  | .update p _ => p.claimedBy = none ∧ p.claimedAt = none ∧ p.attempts = none ∧
      ∀ status ∈ p.status, status ∈ clientStatusValues
  | .delete _ _ => True

namespace JobsAction

/-- The edits of a client's request. -/
def edits : JobsAction → List (JobsEnv × Edit JobPayload)
  | .client _ edits => edits
  | _ => []

/-- The principal of a client's request. -/
def principal : JobsAction → Option ℕ
  | .client principal _ => principal
  | _ => none

/-- The runner whose sweep the action starts. -/
def begins : JobsAction → Option ℕ
  | .beginSweep r _ => some r
  | _ => none

/-- The runner whose sweep the action cuts off. -/
def cutsOff : JobsAction → Option ℕ
  | .abort r => some r
  | .exit r => some r
  | _ => none

/-- A request of a client that the view or the producer lets through. -/
def Accepted (a : JobsAction) : Prop := ∀ e ∈ a.edits, e.2.Accepted

end JobsAction

instance : (e : Edit JobPayload) → Decidable e.Accepted
  | .create _ => inferInstanceAs (Decidable (_ ∧ _))
  | .update _ _ => inferInstanceAs (Decidable (_ ∧ _))
  | .delete _ _ => .isTrue trivial

instance (a : JobsAction) : Decidable a.Accepted :=
  inferInstanceAs (Decidable (∀ e ∈ a.edits, e.2.Accepted))

namespace JobsState

variable {κ : Type}

def setRunner (s : JobsState κ) (r : ℕ) (x : JobRunner κ) : JobsState κ :=
  { s with runner := Function.update s.runner r x }

def setSweep (s : JobsState κ) (r : ℕ) (sweep : Sweep κ) : JobsState κ :=
  s.setRunner r { s.runner r with sweep }

/-- The state after a statement: a row that is no longer running is under no claim. -/
def withRows (s : JobsState κ) (rows : List Job) : JobsState κ :=
  { s with
    rows
    current := fun id =>
      if ∃ j ∈ rows, j.id = id ∧ j.status = .running then s.current id else none }

/-- The claim a runner wins next, of a job. -/
def nextClaim (s : JobsState κ) (r : ℕ) (jobId : ℕ) : Claim := ⟨s.claims.length, r, jobId⟩

/-- The state after a claim is won, which the row is under from then on. -/
def withClaim (s : JobsState κ) (c : Claim) : JobsState κ :=
  { s with claims := c :: s.claims, current := Function.update s.current c.jobId (some c) }

/-- The end of `_claim_and_start`: `_start` of each claimed job. -/
def startClaimed (s : JobsState κ) (r : ℕ) (claimed : List Claim) : JobsState κ :=
  { s.setRunner r { s.runner r with
      sweep := .idle
      inFlight := (s.runner r).inFlight ++ claimed.map fun claim => { claim } } with
    starts := s.starts ++ claimed }

/-- The runner after a task is done: `_on_done`. -/
def endTask (s : JobsState κ) (r : ℕ) (claim : Claim) : JobsState κ :=
  s.setRunner r { s.runner r with
    inFlight := (s.runner r).inFlight.filter fun task => task.claim ≠ claim }

end JobsState

section Step

variable {κ : Type} [TextRules]

/-- `service.update(payload, condition=condition)`. -/
def Statement.execute (st : Statement) (env : JobsEnv) (rows : List Job) :
    Except ResourceyError (Option Job × List Job) :=
  JobsService.update env rows st.payload (some st.condition)

/-- A page of the jobs of a status. -/
def searchStatus (codec : CursorCodec κ) (rows : List Job) (status : JobStatus)
    (cursor : Option κ) (limit : ℕ) : Except ResourceyError (Page Job κ) :=
  jobsResource.search codec rows (some (statusFilter status)) none cursor limit

/-- The next statement of a runner's sweep. A statement that raises ends the sweep: the loop logs
the failure and goes on. -/
def advance (codec : CursorCodec κ) (config : JobsConfig) (s : JobsState κ) (r : ℕ)
    (env : JobsEnv) : Option (JobsState κ) :=
  match (s.runner r).sweep with
  | .idle => none
  | .enumerating pass now cursor items =>
    match searchStatus codec s.rows pass.status cursor enumeratePage with
    | .error _ => s.setSweep r .idle
    | .ok page =>
      match page.nextCursor with
      | some cursor => s.setSweep r (.enumerating pass now (some cursor) (items ++ page.items))
      | none => s.setSweep r (.processing pass now (items ++ page.items))
  | .processing .recover now [] => s.setSweep r (.enumerating .promote now none [])
  | .processing .promote now [] => s.setSweep r (.claiming now 0 [])
  | .processing pass now (job :: jobs) =>
    match pass.statement config now job with
    | none => s.setSweep r (.processing pass now jobs)
    | some st =>
      match st.execute env s.rows with
      | .error _ => s.setSweep r .idle
      | .ok (_, rows) => (s.withRows rows).setSweep r (.processing pass now jobs)
  | .claiming now attempts claimed =>
    if (s.runner r).inFlight.length + claimed.length < config.maxConcurrent ∧
        attempts < config.maxConcurrent * claimAttemptFactor then
      match searchStatus codec s.rows .pending none 1 with
      | .error _ => s.setSweep r .idle
      | .ok page =>
        match page.items with
        | [] => s.startClaimed r claimed
        | job :: _ => s.setSweep r (.taking now (attempts + 1) claimed job)
    else s.startClaimed r claimed
  | .taking now attempts claimed job =>
    match (claimStatement r now job).execute env s.rows with
    | .error _ => s.setSweep r .idle
    | .ok (none, rows) => (s.withRows rows).setSweep r (.claiming now attempts claimed)
    | .ok (some _, rows) =>
      let claim := s.nextClaim r job.id
      ((s.withRows rows).withClaim claim).setSweep r (.claiming now attempts (claimed ++ [claim]))

/-- The next state. A runner's sweeps start only while its loop runs, and its claims are released
only once it has exited; cancelling a task or the loop leaves what its statements wrote. -/
def jobsStep (codec : CursorCodec κ) (config : ℕ → JobsConfig) (s : JobsState κ) :
    JobsAction → Option (JobsState κ)
  | .enter r =>
    let x := s.runner r
    if x.entered ∨ x.releasing ≠ [] then none
    else s.setRunner r { x with entered := true, looping := (config r).enabled }
  | .beginSweep r now =>
    let x := s.runner r
    match x.looping, x.sweep with
    | true, .idle => s.setSweep r (.enumerating .recover now none [])
    | _, _ => none
  | .advance r env => advance codec (config r) s r env
  | .abort r => s.setSweep r .idle
  | .load r claim =>
    let x := s.runner r
    match x.inFlight.find? fun task => task.claim = claim with
    | some { job := none, .. } =>
      match jobsResource.read s.rows (Job.uuidValue (some claim.jobId)) with
      | .error _ => s.endTask r claim
      | .ok job => s.setRunner r { x with
          inFlight := x.inFlight.map fun task =>
            if task.claim = claim then { task with job := some job } else task }
    | _ => none
  | .finish r claim run env =>
    match (s.runner r).inFlight.find? fun task => task.claim = claim with
    | some { job := some job, .. } =>
      match (finishStatement r job run).execute env s.rows with
      | .error _ => s.endTask r claim
      | .ok (_, rows) => (s.withRows rows).endTask r claim
    | _ => none
  | .drop r claim => s.endTask r claim
  | .exit r =>
    let x := s.runner r
    s.setRunner r { x with
      entered := false, looping := false, sweep := .idle, inFlight := []
      releasing := x.releasing ++ x.inFlight.map fun task => task.claim.jobId }
  | .release r env =>
    let x := s.runner r
    match x.releasing with
    | [] => none
    | jobId :: rest =>
      let s' := s.setRunner r { x with releasing := rest }
      match (releaseStatement r jobId).execute env s.rows with
      | .error _ => s'
      | .ok (_, rows) => s'.withRows rows
  | .skipRelease r =>
    let x := s.runner r
    s.setRunner r { x with releasing := x.releasing.tail }
  | .client principal edits =>
    match jobsResource.applyEdits (JobsService.writeActions principal) s.rows edits with
    | .error _ => some s
    | .ok (_, rows) => s.withRows rows

end Step

/-! ## What a step does -/

section Effect

variable {κ : Type} {codec : CursorCodec κ} {config : ℕ → JobsConfig} {s s' : JobsState κ}
  {a : JobsAction}

/-- The claims of a runner whose runs are not over. -/
def JobRunner.openClaims (x : JobRunner κ) : List Claim :=
  x.sweep.claimed ++ x.inFlight.map (·.claim)

/-- What a runner's own step changes about its claims, short of winning or starting one: it may let
go of some, and load the job of a task. -/
structure JobRunner.Quiet (x x' : JobRunner κ) : Prop where
  claimed : x'.sweep.claimed.Sublist x.sweep.claimed
  inFlight : ∀ task' ∈ x'.inFlight, ∃ task ∈ x.inFlight, task.claim = task'.claim ∧
    (task' = task ∨ ∃ job, task'.job = some job ∧ job.id = task'.claim.jobId)

/-- The claim a runner attempts next, and the copy it was computed from. -/
def attempted (s : JobsState κ) : JobsAction → Option (ℕ × Job)
  | .advance r _ =>
    match (s.runner r).sweep with
    | .taking _ _ _ job => some (r, job)
    | _ => none
  | _ => none

theorem attempted_advance {r : ℕ} {env : JobsEnv} {now : ℤ} {attempts : ℕ} {claimed : List Claim}
    {job : Job} (h : (s.runner r).sweep = .taking now attempts claimed job) :
    attempted s (.advance r env) = some (r, job) := by
  rw [attempted, h]

/-- The update a runner issues next, other than a claim. -/
def issued (config : ℕ → JobsConfig) (s : JobsState κ) : JobsAction → Option Statement
  | .advance r _ =>
    match (s.runner r).sweep with
    | .processing pass now (job :: _) => pass.statement (config r) now job
    | _ => none
  | .finish r claim run _ =>
    match (s.runner r).inFlight.find? fun task => task.claim = claim with
    | some { job := some job, .. } => some (finishStatement r job run)
    | _ => none
  | .release r _ =>
    match (s.runner r).releasing with
    | jobId :: _ => some (releaseStatement r jobId)
    | [] => none
  | _ => none

/-- The update sets no job running and leaves its attempts alone; of a claim it can only let go. -/
structure JobPayload.ClaimsNothing (p : JobPayload) : Prop where
  status : p.status ≠ some .running
  claim : p.claimedBy = none ∧ p.claimedAt = none ∨
    p.claimedBy = some none ∧ p.claimedAt = some none
  attempts : p.attempts = none

theorem requeue_claimsNothing (id : ℕ) (detail : Option (Option String)) :
    (requeue id detail).ClaimsNothing :=
  ⟨nofun, .inr ⟨rfl, rfl⟩, rfl⟩

/-- What a runner issues other than its claims claims nothing, and keeps the job's bounds. -/
theorem issued_claimsNothing {st : Statement} (h : issued config s a = some st) :
    st.payload.ClaimsNothing ∧ st.payload.maxAttempts = none ∧
      st.payload.maxSecondsForRun = none := by
  unfold issued at h
  split at h
  · split at h
    · next pass now job jobs hsweep =>
        cases pass with
        | recover =>
            simp only [Pass.statement, recoverStatement] at h
            split at h
            · cases h
            · split at h
              · cases h
              · split at h
                · cases h
                  exact ⟨requeue_claimsNothing _ _, rfl, rfl⟩
                · cases h
                  exact ⟨⟨nofun, .inr ⟨rfl, rfl⟩, rfl⟩, rfl, rfl⟩
        | promote =>
            simp only [Pass.statement, promoteStatement] at h
            split at h
            · cases h
            · cases h
              exact ⟨⟨nofun, .inl ⟨rfl, rfl⟩, rfl⟩, rfl, rfl⟩
    · cases h
  · next run _ =>
      split at h
      · cases h
        unfold finishStatement
        split
        · exact ⟨requeue_claimsNothing _ _, rfl, rfl⟩
        · refine ⟨⟨?_, .inl ⟨rfl, rfl⟩, rfl⟩, rfl, rfl⟩
          cases run.status <;> exact nofun
      · cases h
  · split at h
    · cases h
      exact ⟨requeue_claimsNothing _ _, rfl, rfl⟩
    · cases h
  · cases h

/-- An accepted update of a client claims nothing. -/
theorem Edit.Accepted.claimsNothing {p : JobPayload} {condition : Option SearchFilter}
    (h : (Edit.update p condition).Accepted) : p.ClaimsNothing := by
  obtain ⟨hby, hat, hattempts, hstatus⟩ := h
  refine ⟨fun hr => ?_, .inl ⟨hby, hat⟩, hattempts⟩
  simpa [clientStatusValues] using hstatus _ hr

theorem JobRunner.Quiet.open_subset {x x' : JobRunner κ} (h : x.Quiet x') :
    x'.openClaims ⊆ x.openClaims := by
  intro c hc
  rcases List.mem_append.mp hc with hc | hc
  · exact List.mem_append_left _ (h.claimed.subset hc)
  · obtain ⟨task', htask', rfl⟩ := List.mem_map.mp hc
    obtain ⟨task, htask, hclaim, -⟩ := h.inFlight task' htask'
    exact List.mem_append_right _ (hclaim ▸ List.mem_map_of_mem htask)

theorem JobsState.setRunner_runner (r r' : ℕ) (x : JobRunner κ) :
    (s.setRunner r x).runner r' = if r' = r then x else s.runner r' :=
  Function.update_apply _ _ _ _

theorem JobsState.startClaimed_runner (r r' : ℕ) (claimed : List Claim) :
    (s.startClaimed r claimed).runner r' = if r' = r then { s.runner r with
      sweep := .idle
      inFlight := (s.runner r).inFlight ++ claimed.map fun claim => { claim } }
    else s.runner r' :=
  Function.update_apply _ _ _ _

/-- Starting the claims of a sweep leaves them open. -/
theorem JobsState.startClaimed_open {r : ℕ} {now : ℤ} {attempts : ℕ} {claimed : List Claim}
    (hsweep : (s.runner r).sweep = .claiming now attempts claimed) (r' : ℕ) :
    ((s.startClaimed r claimed).runner r').openClaims ⊆ (s.runner r').openClaims := by
  intro c hc
  rw [startClaimed_runner] at hc
  split at hc
  · next hr =>
      subst hr
      simp only [openClaims, Sweep.claimed, List.nil_append, List.map_append, List.map_map,
        List.mem_append, hsweep] at hc ⊢
      rw [or_comm]
      simpa using hc
  · exact hc

/-- The state after a runner has won a claim. -/
def JobsState.claimed (s : JobsState κ) (r : ℕ) (now : ℤ) (attempts : ℕ) (claimed : List Claim)
    (jobId : ℕ) (rows : List Job) : JobsState κ :=
  ((s.withRows rows).withClaim (s.nextClaim r jobId)).setSweep r
    (.claiming now attempts (claimed ++ [s.nextClaim r jobId]))

/-- Winning a claim starts no task. -/
theorem JobsState.claimed_inFlight (r r' : ℕ) (now : ℤ) (attempts : ℕ) (claimed : List Claim)
    (jobId : ℕ) (rows : List Job) : ((s.claimed r now attempts claimed jobId rows).runner r').inFlight
      = (s.runner r').inFlight := by
  have hrun : (s.claimed r now attempts claimed jobId rows).runner r' =
      if r' = r then { s.runner r with
        sweep := .claiming now attempts (claimed ++ [s.nextClaim r jobId]) }
      else s.runner r' := Function.update_apply _ _ _ _
  rw [hrun]
  split
  · next hr => rw [hr]
  · rfl

/-- A claim that is won is the one claim that becomes open. -/
theorem JobsState.claimed_open {r : ℕ} {now : ℤ} {attempts : ℕ} {claimed : List Claim} {job : Job}
    {rows : List Job} (hsweep : (s.runner r).sweep = .taking now attempts claimed job) {r' : ℕ}
    {c : Claim} (hc : c ∈ ((s.claimed r now attempts claimed job.id rows).runner r').openClaims) :
    c ∈ (s.runner r').openClaims ∨ r' = r ∧ c = s.nextClaim r job.id := by
  have hrun : (s.claimed r now attempts claimed job.id rows).runner r' =
      if r' = r then { s.runner r with
        sweep := .claiming now attempts (claimed ++ [s.nextClaim r job.id]) }
      else s.runner r' := Function.update_apply _ _ _ _
  rw [hrun] at hc
  split at hc
  · next hr =>
      subst hr
      have hopen : (s.runner r').openClaims = claimed ++ (s.runner r').inFlight.map (·.claim) := by
        rw [openClaims, hsweep]
        rfl
      rw [hopen]
      rcases List.mem_append.mp hc with hc | hc
      · rcases List.mem_append.mp hc with hc | hc
        · exact .inl (List.mem_append_left _ hc)
        · exact .inr ⟨rfl, List.mem_singleton.mp hc⟩
      · exact .inl (List.mem_append_right _ hc)
  · exact .inl hc

variable [TextRules]

/-- What a step does to the table and to the claims. -/
inductive Effect (config : ℕ → JobsConfig) (s : JobsState κ) : JobsAction → JobsState κ → Prop
  | quiet {a r x} : (s.runner r).Quiet x → Effect config s a (s.setRunner r x)
  | start {r env now attempts claimed} : (s.runner r).sweep = .claiming now attempts claimed →
      Effect config s (.advance r env) (s.startClaimed r claimed)
  | write {a r x env st result rows} : issued config s a = some st →
      st.execute env s.rows = .ok (result, rows) → (s.runner r).Quiet x →
      Effect config s a ((s.withRows rows).setRunner r x)
  | lost {a r x} : (s.runner r).Quiet x → Effect config s a ((s.withRows s.rows).setRunner r x)
  | claim {r env now attempts claimed job j rows} :
      (s.runner r).sweep = .taking now attempts claimed job →
      (claimStatement r now job).execute env s.rows = .ok (some j, rows) →
      Effect config s (.advance r env) (s.claimed r now attempts claimed job.id rows)
  | client {principal edits results rows} :
      jobsResource.applyEdits (JobsService.writeActions principal) s.rows edits
        = .ok (results, rows) → Effect config s (.client principal edits) (s.withRows rows)
  | refused {principal edits} : Effect config s (.client principal edits) s

omit [TextRules] in
/-- A runner that lets go of tasks. -/
theorem JobRunner.Quiet.of_sublist {x x' : JobRunner κ}
    (h : x'.sweep.claimed.Sublist x.sweep.claimed) (hin : x'.inFlight.Sublist x.inFlight) :
    x.Quiet x' where
  claimed := h
  inFlight task htask := ⟨task, hin.subset htask, rfl, .inl rfl⟩

theorem advance_effect {r : ℕ} {env : JobsEnv} (h : advance codec (config r) s r env = some s') :
    Effect config s (.advance r env) s' := by
  unfold advance at h
  split at h
  · cases h
  · -- A page of the enumeration.
    split at h
    · cases h
      exact .quiet (.of_sublist (List.nil_sublist _) (.refl _))
    · split at h
      all_goals
        cases h
        exact .quiet (.of_sublist (List.nil_sublist _) (.refl _))
  · cases h
    exact .quiet (.of_sublist (List.nil_sublist _) (.refl _))
  · cases h
    exact .quiet (.of_sublist (List.nil_sublist _) (.refl _))
  · next pass now job jobs hsweep =>
      split at h
      · cases h
        exact .quiet (.of_sublist (List.nil_sublist _) (.refl _))
      · next st hst =>
          split at h
          · cases h
            exact .quiet (.of_sublist (List.nil_sublist _) (.refl _))
          · next hexec =>
              cases h
              have hissued : issued config s (.advance r env) = some st := by
                rw [issued, hsweep]
                exact hst
              exact .write hissued hexec (.of_sublist (List.nil_sublist _) (.refl _))
  · next now attempts claimed hsweep =>
      split at h
      · split at h
        · cases h
          exact .quiet (.of_sublist (List.nil_sublist _) (.refl _))
        · split at h
          · cases h
            exact .start hsweep
          · cases h
            refine .quiet (.of_sublist ?_ (.refl _))
            rw [hsweep]
            exact .refl _
      · cases h
        exact .start hsweep
  · next now attempts claimed job hsweep =>
      split at h
      · cases h
        exact .quiet (.of_sublist (List.nil_sublist _) (.refl _))
      · next hexec =>
          cases h
          rw [JobsService.update_none hexec]
          refine .lost (.of_sublist ?_ (.refl _))
          rw [hsweep]
          exact .refl _
      · next hexec =>
          cases h
          exact .claim hsweep hexec

/-- **What a step does.** -/
theorem step_effect (h : jobsStep codec config s a = some s') : Effect config s a s' := by
  cases a with
  | enter r =>
      simp only [jobsStep] at h
      split at h
      · cases h
      · cases h
        exact .quiet (.of_sublist (.refl _) (.refl _))
  | beginSweep r now =>
      simp only [jobsStep] at h
      split at h
      · cases h
        exact .quiet (.of_sublist (List.nil_sublist _) (.refl _))
      · cases h
  | advance r env => exact advance_effect h
  | abort r =>
      cases h
      exact .quiet (.of_sublist (List.nil_sublist _) (.refl _))
  | load r claim =>
      simp only [jobsStep] at h
      split at h
      · split at h
        · cases h
          exact .quiet (.of_sublist (.refl _) List.filter_sublist)
        · next job hread =>
            cases h
            refine .quiet ⟨.refl _, fun task' htask' => ?_⟩
            obtain ⟨task, htask, rfl⟩ := List.mem_map.mp htask'
            by_cases hc : task.claim = claim
            · subst hc
              rw [if_pos rfl]
              exact ⟨task, htask, rfl, .inr ⟨job, rfl, JobsService.read_id hread⟩⟩
            · rw [if_neg hc]
              exact ⟨task, htask, rfl, .inl rfl⟩
      · cases h
  | finish r claim run env =>
      simp only [jobsStep] at h
      split at h
      · next claim' job hfind =>
          split at h
          · cases h
            exact .quiet (.of_sublist (.refl _) List.filter_sublist)
          · next hexec =>
              cases h
              have hissued : issued config s (.finish r claim run env)
                  = some (finishStatement r job run) := by
                rw [issued, hfind]
              exact .write hissued hexec (.of_sublist (.refl _) List.filter_sublist)
      · cases h
  | drop r claim =>
      cases h
      exact .quiet (.of_sublist (.refl _) List.filter_sublist)
  | exit r =>
      cases h
      exact .quiet (.of_sublist (List.nil_sublist _) (List.nil_sublist _))
  | release r env =>
      simp only [jobsStep] at h
      split at h
      · cases h
      · next jobId rest hreleasing =>
          split at h
          · cases h
            exact .quiet (.of_sublist (.refl _) (.refl _))
          · next hexec =>
              cases h
              have hissued : issued config s (.release r env) = some (releaseStatement r jobId) := by
                rw [issued, hreleasing]
              exact .write hissued hexec (.of_sublist (.refl _) (.refl _))
  | skipRelease r =>
      cases h
      exact .quiet (.of_sublist (.refl _) (.refl _))
  | client principal edits =>
      simp only [jobsStep] at h
      split at h
      · cases h
        exact .refused
      · next h' =>
          cases h
          exact .client h'

/-- A step keeps the identifiers unique. -/
theorem step_keyed (hids : (s.rows.map Job.id).Nodup)
    (ha : jobsStep codec config s a = some s') : (s'.rows.map Job.id).Nodup := by
  cases step_effect ha with
  | quiet => exact hids
  | start => exact hids
  | write _ hexec _ => exact JobsService.update_ids hexec ▸ hids
  | lost => exact hids
  | claim _ hexec => exact JobsService.update_ids hexec ▸ hids
  | client hedits =>
      refine SqlResource.applyEdits_invariant (fun rows => (rows.map Job.id).Nodup)
        (fun _ hrows he => ?_) hedits hids
      exact (JobsService.applyEdit_effect he).keyed hrows
  | refused => exact hids

/-- A claim writes the job it was read for, if that is still pending. -/
theorem claim_writes {r : ℕ} {now : ℤ} {job j : Job} :
    JobsService.Writes (claimStatement r now job).payload (claimStatement r now job).condition j ↔
      j.id = job.id ∧ j.status = .pending := by
  have h := @JobsService.writes_iff _ (claimStatement r now job).payload _
    (wellTyped_statusFilter .pending) j
  refine h.trans ?_
  rw [holds_statusFilter, decide_eq_true_eq, claimStatement, Option.some.injEq]
  constructor
  · rintro ⟨hid, -, hpending⟩
    exact ⟨hid.symm, hpending⟩
  · rintro ⟨hid, hpending⟩
    exact ⟨hid.symm, by rw [hpending]; rfl, hpending⟩

/-- The ownership gate keeps the running jobs of the owner. -/
theorem claimCondition_writes {p : JobPayload} {claimedBy : Option ℕ} {j : Job} :
    JobsService.Writes p (claimCondition claimedBy) j ↔
      p.id = some j.id ∧ j.status = .running ∧ j.claimedBy = claimedBy := by
  have hf : WellTyped jobsResource.filterContext Job.columnType (claimCondition claimedBy) := by
    refine .and_ fun f hf => ?_
    simp only [List.mem_cons, List.not_mem_nil, or_false] at hf
    rcases hf with rfl | rfl
    · exact wellTyped_statusFilter _
    · exact wellTyped_claimedByFilter _
  rw [JobsService.writes_iff hf]
  have hholds : (claimCondition claimedBy).holds (jobsResource.toDto j) = true ↔
      j.status = .running ∧ j.claimedBy = claimedBy := by
    simp [claimCondition]
  rw [hholds]
  refine and_congr_right fun _ => ⟨And.right, fun h => ⟨?_, h⟩⟩
  rw [h.1]
  rfl

end Effect

/-! ## Small runs -/

/-- A job that nothing has claimed yet. -/
def Job.queued (id : ℕ) (maxAttempts : ℤ) : Job where
  id := id
  jobDetailsKind := "LogJobDetails"
  jobDetails := ⟨"LogJobDetails", ""⟩
  status := .pending
  detail := none
  runAt := none
  claimedBy := none
  claimedAt := none
  attempts := 0
  maxAttempts := maxAttempts
  maxSecondsForRun := none
  creatorId := none
  createdAt := 0
  updatedAt := 0

/-- The start of a sweep at an instant, and its next statements. -/
def sweepActions (r : ℕ) (now : ℤ) (statements : ℕ) : List JobsAction :=
  .beginSweep r now :: List.replicate statements (.advance r ⟨0, 0⟩)

end Resourcey
