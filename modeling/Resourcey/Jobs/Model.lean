import Resourcey.Sql.SqlService

/-!
# The jobs table

The `jobs` row, the payloads that write it and `JobsService`, the SQL service that folds "not
terminal" into the condition of every update. `JobsService.Writes` is which jobs an update writes,
whatever its condition, and `JobsService.update_ok` what it then does to the table; under a typed
condition, as every condition of the runner is, `JobsService.writes_iff` reads it off the job.
Instants are microseconds and identifiers are numbers.
-/

namespace Resourcey

/-- `JobStatus`. -/
inductive JobStatus where
  | pending
  | scheduled
  | running
  | completed
  | error
  | cancelled
  deriving DecidableEq, Repr

namespace JobStatus

/-- The text a status is stored as. -/
def text : JobStatus → String
  | .pending => "PENDING"
  | .scheduled => "SCHEDULED"
  | .running => "RUNNING"
  | .completed => "COMPLETED"
  | .error => "ERROR"
  | .cancelled => "CANCELLED"

/-- `TERMINAL_STATUSES`. -/
def terminalStatuses : List JobStatus := [.completed, .error, .cancelled]

/-- A terminal status never transitions. -/
def isTerminal (s : JobStatus) : Bool := s ∈ terminalStatuses

theorem text_injective : Function.Injective text := by
  intro s s' h
  cases s <;> cases s' <;> first | rfl | simp [text] at h

end JobStatus

/-- A stored job body: the kind it is resolved by and its serialized fields. -/
structure JobDetails where
  kind : String
  fields : String
  deriving DecidableEq, Repr

/-- A `jobs` row. -/
structure Job where
  id : ℕ
  jobDetailsKind : String
  jobDetails : JobDetails
  status : JobStatus
  detail : Option String
  runAt : Option ℤ
  claimedBy : Option ℕ
  claimedAt : Option ℤ
  attempts : ℤ
  maxAttempts : ℤ
  maxSecondsForRun : Option ℤ
  creatorId : Option ℕ
  createdAt : ℤ
  updatedAt : ℤ
  deriving DecidableEq, Repr

/-- A DTO of the jobs resource: of each field whether it is supplied, and with what. -/
structure JobPayload where
  id : Option ℕ := none
  jobDetailsKind : Option String := none
  jobDetails : Option JobDetails := none
  status : Option JobStatus := none
  detail : Option (Option String) := none
  runAt : Option (Option ℤ) := none
  claimedBy : Option (Option ℕ) := none
  claimedAt : Option (Option ℤ) := none
  attempts : Option ℤ := none
  maxAttempts : Option ℤ := none
  maxSecondsForRun : Option (Option ℤ) := none
  creatorId : Option (Option ℕ) := none
  createdAt : Option ℤ := none
  updatedAt : Option ℤ := none
  deriving DecidableEq, Repr

/-- What the defaults of an operation draw on: `uuid4()` and `utc_now()`. -/
structure JobsEnv where
  uuid : ℕ
  now : ℤ

namespace Job

/-- The value of a nullable identifier, text, instant or number. -/
def uuidValue (n : Option ℕ) : Value := n.elim .none fun n => .scalar (.uuid n)

def strValue (s : Option String) : Value := s.elim .none fun s => .scalar (.str s)

def datetimeValue (t : Option ℤ) : Value := t.elim .none fun t => .scalar (.datetime t)

def intValue (i : Option ℤ) : Value := i.elim .none fun i => .scalar (.int i)

/-- The columns of the table, each with the type of its values. -/
def columnType : String → Option Kind
  | "id" => some .uuid
  | "job_details_kind" => some .str
  | "job_details" => some .str
  | "status" => some .str
  | "detail" => some .str
  | "run_at" => some .datetime
  | "claimed_by" => some .uuid
  | "claimed_at" => some .datetime
  | "attempts" => some .int
  | "max_attempts" => some .int
  | "max_seconds_for_run" => some .int
  | "creator_id" => some .uuid
  | "created_at" => some .datetime
  | "updated_at" => some .datetime
  | _ => none

/-- The stored row of a job. -/
def row (j : Job) : SqlRow
  | "id" => uuidValue (some j.id)
  | "job_details_kind" => strValue (some j.jobDetailsKind)
  | "job_details" => strValue (some j.jobDetails.fields)
  | "status" => strValue (some j.status.text)
  | "detail" => strValue j.detail
  | "run_at" => datetimeValue j.runAt
  | "claimed_by" => uuidValue j.claimedBy
  | "claimed_at" => datetimeValue j.claimedAt
  | "attempts" => intValue (some j.attempts)
  | "max_attempts" => intValue (some j.maxAttempts)
  | "max_seconds_for_run" => intValue j.maxSecondsForRun
  | "creator_id" => uuidValue j.creatorId
  | "created_at" => datetimeValue (some j.createdAt)
  | "updated_at" => datetimeValue (some j.updatedAt)
  | _ => .none

/-- The row after the supplied columns are set. The identifier is never written. -/
def write (p : JobPayload) (j : Job) : Job where
  id := j.id
  jobDetailsKind := p.jobDetailsKind.getD j.jobDetailsKind
  jobDetails := p.jobDetails.getD j.jobDetails
  status := p.status.getD j.status
  detail := p.detail.getD j.detail
  runAt := p.runAt.getD j.runAt
  claimedBy := p.claimedBy.getD j.claimedBy
  claimedAt := p.claimedAt.getD j.claimedAt
  attempts := p.attempts.getD j.attempts
  maxAttempts := p.maxAttempts.getD j.maxAttempts
  maxSecondsForRun := p.maxSecondsForRun.getD j.maxSecondsForRun
  creatorId := p.creatorId.getD j.creatorId
  createdAt := p.createdAt.getD j.createdAt
  updatedAt := p.updatedAt.getD j.updatedAt

end Job

namespace JobPayload

/-- `apply_operation_defaults` of the `jobs` DTO. -/
def withDefaults (env : JobsEnv) (operation : Action) (p : JobPayload) : JobPayload :=
  match operation with
  | .create => { p with
      id := p.id.getD env.uuid
      status := p.status.getD .pending
      detail := p.detail.getD none
      runAt := p.runAt.getD none
      maxAttempts := p.maxAttempts.getD 1
      maxSecondsForRun := p.maxSecondsForRun.getD none
      createdAt := p.createdAt.getD env.now
      updatedAt := p.updatedAt.getD env.now }
  | .update => { p with updatedAt := p.updatedAt.getD env.now }
  | _ => p

/-- Whether a column besides the identifier is supplied. -/
def hasData (p : JobPayload) : Bool :=
  p.jobDetailsKind.isSome || p.jobDetails.isSome || p.status.isSome || p.detail.isSome ||
    p.runAt.isSome || p.claimedBy.isSome || p.claimedAt.isSome || p.attempts.isSome ||
    p.maxAttempts.isSome || p.maxSecondsForRun.isSome || p.creatorId.isSome ||
    p.createdAt.isSome || p.updatedAt.isSome

/-- The row an insert stores, the columns without a value taking the table's own defaults. -/
def insert (env : JobsEnv) (p : JobPayload) : Except String Job :=
  match p.jobDetailsKind, p.jobDetails with
  | none, _ => .error "jobs.job_details_kind"
  | _, none => .error "jobs.job_details"
  | some kind, some details => .ok
    { id := p.id.getD env.uuid
      jobDetailsKind := kind
      jobDetails := details
      status := p.status.getD .pending
      detail := p.detail.getD none
      runAt := p.runAt.getD none
      claimedBy := p.claimedBy.getD none
      claimedAt := p.claimedAt.getD none
      attempts := p.attempts.getD 0
      maxAttempts := p.maxAttempts.getD 1
      maxSecondsForRun := p.maxSecondsForRun.getD none
      creatorId := p.creatorId.getD none
      createdAt := p.createdAt.getD env.now
      updatedAt := p.updatedAt.getD env.now }

end JobPayload

/-- `jobs_resource`, the inner resource: every column is readable and queryable. -/
def jobsResource : SqlResource Job JobPayload JobsEnv where
  name := "jobs"
  columnForAttr a := if (Job.columnType a).isSome then some a else none
  queryable a := (Job.columnType a).isSome
  sortable a := (Job.columnType a).isSome
  idColumn := "id"
  row := Job.row
  payloadId p := Job.uuidValue p.id
  withDefaults := JobPayload.withDefaults
  hasData := JobPayload.hasData
  write := Job.write
  insert := JobPayload.insert
  supported := [.create, .read, .update, .delete, .search, .count, .batchRead]

/-! ## Conditions on a job -/

/-- `AttrFilter("status", EqFilter(status))`. -/
def statusFilter (status : JobStatus) : SearchFilter :=
  .attr "status" (.eq (Job.strValue (some status.text)))

/-- `AttrFilter("claimed_by", EqFilter(runner))`. -/
def claimedByFilter (runner : Option ℕ) : SearchFilter :=
  .attr "claimed_by" (.eq (Job.uuidValue runner))

section Typed

theorem uuidValue_ofKind (n : Option ℕ) : (Job.uuidValue n).OfKind .uuid := by
  cases n with
  | none => trivial
  | some _ => rfl

theorem strValue_ofKind (s : Option String) : (Job.strValue s).OfKind .str := by
  cases s with
  | none => trivial
  | some _ => rfl

theorem datetimeValue_ofKind (t : Option ℤ) : (Job.datetimeValue t).OfKind .datetime := by
  cases t with
  | none => trivial
  | some _ => rfl

theorem intValue_ofKind (i : Option ℤ) : (Job.intValue i).OfKind .int := by
  cases i with
  | none => trivial
  | some _ => rfl

/-- A stored row holds values of the declared types. -/
theorem Job.row_typed (j : Job) : ColumnTypes.Typed Job.columnType j.row := by
  intro c k h
  unfold Job.columnType at h
  split at h
  all_goals cases h
  all_goals first
    | exact uuidValue_ofKind _
    | exact strValue_ofKind _
    | exact datetimeValue_ofKind _
    | exact intValue_ofKind _

/-- The DTO of a row holds its queryable columns. -/
theorem Job.row_represents (j : Job) :
    jobsResource.filterContext.Represents (jobsResource.toDto j) j.row := by
  intro name column h
  cases hk : Job.columnType name with
  | none => simp [SqlTable.filterContext, jobsResource, hk] at h
  | some k =>
      simp only [SqlTable.filterContext, jobsResource, hk, Option.isSome_some, if_true,
        Option.some.injEq] at h
      subst h
      simp [SqlTable.toDto, Subject.get, SqlTable.getColumnName, jobsResource, hk]

theorem wellTyped_statusFilter (status : JobStatus) :
    WellTyped jobsResource.filterContext Job.columnType (statusFilter status) :=
  .attr rfl rfl (.eq (strValue_ofKind _))

theorem wellTyped_claimedByFilter (runner : Option ℕ) :
    WellTyped jobsResource.filterContext Job.columnType (claimedByFilter runner) :=
  .attr rfl rfl (.eq (uuidValue_ofKind _))

end Typed

section Holds

variable [TextRules] (j : Job)

@[simp] theorem holds_statusFilter (status : JobStatus) :
    (statusFilter status).holds (jobsResource.toDto j) = decide (j.status = status) := by
  show (Job.strValue (some j.status.text)).pyEq (Job.strValue (some status.text)) = _
  rw [Bool.eq_iff_iff, Value.pyEq_iff (strValue_ofKind _) (strValue_ofKind _), decide_eq_true_eq]
  simp [Job.strValue, JobStatus.text_injective.eq_iff]

@[simp] theorem holds_claimedByFilter (runner : Option ℕ) :
    (claimedByFilter runner).holds (jobsResource.toDto j) = decide (j.claimedBy = runner) := by
  show (Job.uuidValue j.claimedBy).pyEq (Job.uuidValue runner) = _
  rw [Bool.eq_iff_iff, Value.pyEq_iff (uuidValue_ofKind _) (uuidValue_ofKind _), decide_eq_true_eq]
  cases j.claimedBy <;> cases runner <;> simp [Job.uuidValue]

end Holds

/-! ## The service -/

namespace JobsService

/-- `not_(or_(…))`: the status is none of the terminal ones. -/
def guard : SearchFilter :=
  SearchFilter.not_ (SearchFilter.or_ (JobStatus.terminalStatuses.map statusFilter))

/-- The condition of a client's update with the guard folded in. -/
def folded (condition : Option SearchFilter) : SearchFilter :=
  condition.elim guard fun condition => SearchFilter.and_ [guard, condition]

/-- The payload `JobsService.create` inserts: the kind comes from the body, and the creator from the
authenticated principal. -/
def stamped (principal : Option ℕ) (p : JobPayload) : JobPayload :=
  { p with
    jobDetailsKind := p.jobDetails.elim p.jobDetailsKind fun details => some details.kind
    creatorId := if principal.isSome && (p.creatorId.getD none).isNone then some principal
      else p.creatorId }

variable [TextRules]

/-- `JobsService.create`. -/
def create (principal : Option ℕ) (env : JobsEnv) (rows : List Job) (p : JobPayload) :
    Except ResourceyError (Job × List Job) :=
  jobsResource.create env rows (stamped principal p)

/-- `JobsService.update`: the SQL update, under the folded condition. -/
def update (env : JobsEnv) (rows : List Job) (p : JobPayload) (condition : Option SearchFilter) :
    Except ResourceyError (Option Job × List Job) :=
  jobsResource.update env rows p (some (folded condition))

/-- The write actions of `JobsService`, for a batch. -/
def writeActions (principal : Option ℕ) : WriteActions Job JobPayload JobsEnv where
  create := create principal
  update := update
  delete := jobsResource.delete

omit [TextRules] in
theorem wellTyped_guard : WellTyped jobsResource.filterContext Job.columnType guard := by
  have h : guard = .not (.or (JobStatus.terminalStatuses.map statusFilter)) := rfl
  rw [h]
  refine .not (.or fun f hf => ?_)
  obtain ⟨status, -, rfl⟩ := List.mem_map.mp hf
  exact wellTyped_statusFilter status

/-- The guard holds of the jobs that are not terminal. -/
theorem holds_guard (j : Job) : guard.holds (jobsResource.toDto j) = !j.status.isTerminal := by
  simp [guard, JobStatus.terminalStatuses, JobStatus.isTerminal]

theorem holds_folded (f : SearchFilter) (j : Job) :
    (folded (some f)).holds (jobsResource.toDto j)
      = (!j.status.isTerminal && f.holds (jobsResource.toDto j)) := by
  simp [folded, holds_guard]

omit [TextRules] in
theorem wellTyped_folded {f : SearchFilter}
    (hf : WellTyped jobsResource.filterContext Job.columnType f) :
    WellTyped jobsResource.filterContext Job.columnType (folded (some f)) := by
  refine .and_ fun g hg => ?_
  simp only [List.mem_cons, List.not_mem_nil, or_false] at hg
  rcases hg with rfl | rfl
  · exact wellTyped_guard
  · exact hf

/-- The guard keeps the jobs that are not terminal. -/
theorem keeps_guard (j : Job) :
    Keeps jobsResource.filterContext guard j.row ↔ j.status.isTerminal = false := by
  rw [wellTyped_guard.keeps_iff j.row_typed j.row_represents, holds_guard, Bool.not_eq_true']

variable {env : JobsEnv} {rows rows' : List Job} {p : JobPayload} {condition : Option SearchFilter}

omit [TextRules] in
/-- An update of a job always has a column to write: its time. -/
theorem hasData_update : (p.withDefaults env .update).hasData = true := by
  simp [JobPayload.withDefaults, JobPayload.hasData]

omit [TextRules] in
/-- A payload names the job whose identifier it carries. -/
theorem idOf_eq_payloadId {j : Job} :
    jobsResource.idOf j = jobsResource.payloadId p ↔ p.id = some j.id := by
  show Job.uuidValue (some j.id) = Job.uuidValue p.id ↔ _
  cases p.id <;> simp [Job.uuidValue, eq_comm]

/-- A job that is read by its identifier has it. -/
theorem read_id {id : ℕ} {j : Job} (h : jobsResource.read rows (Job.uuidValue (some id)) = .ok j) :
    j.id = id := by
  have hid : Job.uuidValue (some j.id) = Job.uuidValue (some id) := (SqlTable.read_ok _ h).2
  simpa [Job.uuidValue] using hid

/-- The jobs an update writes: the one it names, if the folded condition keeps it. -/
def Writes (p : JobPayload) (condition : Option SearchFilter) (j : Job) : Prop :=
  p.id = some j.id ∧ Keeps jobsResource.filterContext (folded condition) j.row

/-- No update writes a terminal job. -/
theorem Writes.not_terminal {j : Job} (h : Writes p condition j) : j.status.isTerminal = false := by
  cases condition with
  | none => exact (keeps_guard j).mp h.2
  | some f => exact (keeps_guard j).mp (h.2.of_and_ guard (by simp))

/-- Under a typed condition an update writes the job it names if the condition holds of it. -/
theorem writes_iff {f : SearchFilter}
    (hf : WellTyped jobsResource.filterContext Job.columnType f) {j : Job} :
    Writes p (some f) j ↔ p.id = some j.id ∧ j.status.isTerminal = false ∧
      f.holds (jobsResource.toDto j) = true := by
  rw [Writes, (wellTyped_folded hf).keeps_iff j.row_typed j.row_represents, holds_folded,
    Bool.and_eq_true, Bool.not_eq_true']

/-- **What an update does to the table.** It answers with a row exactly when it wrote one. -/
theorem update_ok {result : Option Job} (h : update env rows p condition = .ok (result, rows')) :
    ∃ gate : Job → Bool, (∀ j, gate j = true ↔ Writes p condition j) ∧
      (result.isSome = true ↔ ∃ j ∈ rows, gate j = true) ∧
      rows' = rows.map fun j => if gate j then j.write (p.withDefaults env .update) else j := by
  obtain ⟨gate, hgate, hsome, hrows⟩ := SqlResource.update_ok h
  refine ⟨gate, fun j => (hgate j).trans ?_, hsome, hrows.trans (if_pos hasData_update)⟩
  rw [SqlResource.Touches, idOf_eq_payloadId, Writes]
  simp only [Option.mem_def, Option.some.injEq, forall_eq']
  rfl

/-- An update that names a job under a typed condition answers. -/
theorem exists_update {id : ℕ} (hid : p.id = some id) {f : SearchFilter}
    (hf : WellTyped jobsResource.filterContext Job.columnType f) :
    ∃ result rows', update env rows p (some f) = .ok (result, rows') := by
  have hne : jobsResource.payloadId p ≠ .none := by
    simp [jobsResource, hid, Job.uuidValue]
  obtain ⟨conditions, hconditions⟩ := jobsResource.exists_applyCondition (wellTyped_folded hf)
  exact SqlResource.exists_update hne hconditions fun _ _ => rfl

/-- An update that misses leaves the table as it is. -/
theorem update_none (h : update env rows p condition = .ok (none, rows')) : rows' = rows := by
  obtain ⟨gate, -, hsome, hrows⟩ := update_ok h
  rw [hrows]
  refine SqlResource.map_write_eq_self fun j hj hgate => ?_
  exact absurd (hsome.mpr ⟨j, hj, hgate⟩) Bool.false_ne_true

/-- An update keeps the identifiers. -/
theorem update_ids {result : Option Job} (h : update env rows p condition = .ok (result, rows')) :
    rows'.map Job.id = rows.map Job.id := by
  obtain ⟨gate, -, -, rfl⟩ := update_ok h
  rw [List.map_map]
  refine List.map_congr_left fun j _ => ?_
  show (if gate j then _ else j : Job).id = j.id
  split <;> rfl

/-- What an edit of a batch does to the table. -/
inductive EditEffect (principal : Option ℕ) (env : JobsEnv) (rows : List Job) :
    Edit JobPayload → List Job → Prop
  | create {p j} : ((stamped principal p).withDefaults env .create).insert env = .ok j →
      (∀ j' ∈ rows, j'.id ≠ j.id) → EditEffect principal env rows (.create p) (rows ++ [j])
  | update {p condition result rows'} :
      JobsService.update env rows p condition = .ok (result, rows') →
      EditEffect principal env rows (.update p condition) rows'
  | delete {v condition} (gate : Job → Bool) :
      (∀ j, gate j = true → v = Job.uuidValue (some j.id)) →
      EditEffect principal env rows (.delete v condition) (rows.filter fun j => !gate j)

/-- What a created job takes from its payload. -/
structure Creates (env : JobsEnv) (p : JobPayload) (j : Job) : Prop where
  id : j.id = p.id.getD env.uuid
  status : j.status = p.status.getD .pending
  claimedBy : j.claimedBy = p.claimedBy.getD none
  claimedAt : j.claimedAt = p.claimedAt.getD none
  attempts : j.attempts = p.attempts.getD 0
  maxAttempts : j.maxAttempts = p.maxAttempts.getD 1

omit [TextRules] in
theorem insert_creates {principal : Option ℕ} {j : Job}
    (h : ((stamped principal p).withDefaults env .create).insert env = .ok j) :
    Creates env p j := by
  unfold JobPayload.insert at h
  split at h
  · cases h
  · cases h
  · cases h
    exact ⟨rfl, rfl, rfl, rfl, rfl, rfl⟩

/-- An edit goes through the actions of `JobsService`. -/
theorem applyEdit_effect {principal : Option ℕ} {e : Edit JobPayload} {result : Option Job}
    (h : jobsResource.applyEdit (writeActions principal) env rows e = .ok (result, rows')) :
    EditEffect principal env rows e rows' := by
  have h := SqlResource.applyEdit_ok h
  cases e with
  | create p =>
      obtain ⟨j, h⟩ := h
      obtain ⟨hinsert, hfresh, rfl⟩ := SqlResource.create_ok h
      refine .create hinsert fun j' hj' hid => hfresh j' hj' ?_
      show Job.uuidValue (some j'.id) = Job.uuidValue (some j.id)
      rw [hid]
  | update p condition => exact .update h
  | delete v condition =>
      obtain ⟨b, h⟩ := h
      obtain ⟨gate, hgate, rfl⟩ := SqlResource.delete_ok h
      exact .delete gate fun j hj => ((hgate j).mp hj).2.1.symm

/-- An edit keeps the identifiers unique. -/
theorem EditEffect.keyed {principal : Option ℕ} {e : Edit JobPayload}
    (h : EditEffect principal env rows e rows') (hrows : (rows.map Job.id).Nodup) :
    (rows'.map Job.id).Nodup := by
  cases h with
  | create _ hfresh =>
      rw [List.map_append, List.nodup_append]
      refine ⟨hrows, List.nodup_singleton _, ?_⟩
      intro id hid id' hid'
      obtain ⟨j', hj', rfl⟩ := List.mem_map.mp hid
      rw [List.map_singleton, List.mem_singleton] at hid'
      exact hid' ▸ hfresh j' hj'
  | update hu => exact update_ids hu ▸ hrows
  | delete gate _ => exact hrows.sublist (List.filter_sublist.map _)

end JobsService

end Resourcey
