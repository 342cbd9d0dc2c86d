import Resourcey.Logic.Trace
import Resourcey.Tasks.CronParser

/-!
# The scheduler

The scheduling loop reads the clock, sleeps until the earliest next fire, reads the clock again and
starts the tasks whose schedules match the minute. Where every sleep ends at or after its deadline
and the loop is back at its first reading within a minute of it, both readings fall in the minute of
the deadline, and every task is started once for every minute that it is due (`fires_exactly_once`).

The next fires are computed together, and nothing handles one that raises: a task with an impossible
schedule ends the loop for all the others (`keeps_running_iff`).
-/

namespace Resourcey

/-- What the scheduler reads of a task. -/
structure BackgroundTask where
  name : String
  enabled : Bool := true
  schedule : Option String := none
  deriving DecidableEq

/-- Why a scheduler cannot be built: task names that are not unique, or a schedule that will not
parse. -/
inductive SchedulerError where
  | duplicateNames
  | cron (e : CronError)
  deriving DecidableEq

/-- `BackgroundTaskScheduler`: the tasks, and the parsed schedules by task name. -/
structure BackgroundTaskScheduler where
  tasks : List BackgroundTask
  schedules : List (String × CronSchedule)

namespace BackgroundTaskScheduler

/-- The schedules of the tasks that have one. An empty text is none. -/
def parseSchedules : List BackgroundTask → Except SchedulerError (List (String × CronSchedule))
  | [] => .ok []
  | task :: tasks =>
    match task.schedule with
    | none | some "" => parseSchedules tasks
    | some text =>
      match parseCron text with
      | .error e => .error (.cron e)
      | .ok schedule => (parseSchedules tasks).map ((task.name, schedule) :: ·)

/-- `BackgroundTaskScheduler.__init__`. -/
def init (tasks : List BackgroundTask) : Except SchedulerError BackgroundTaskScheduler :=
  if (tasks.map (·.name)).Nodup then
    (parseSchedules tasks).map fun schedules => ⟨tasks, schedules⟩
  else .error .duplicateNames

variable (s : BackgroundTaskScheduler)

/-- The active scheduled tasks with their schedules. -/
def active : List (BackgroundTask × CronSchedule) :=
  s.tasks.filterMap fun task =>
    if task.enabled then (s.schedules.lookup task.name).map fun schedule => (task, schedule) else none

/-- `_upcoming`. -/
def upcoming (now : ℕ) : Except FireError (List (ℕ × BackgroundTask)) :=
  s.active.mapM fun entry => (entry.2.nextFire now).map fun fire => (fire, entry.1)

/-- `tick`: the tasks that are started. -/
def tick (now : ℕ) : List BackgroundTask :=
  (s.active.filter fun entry => entry.2.matches (minuteOf now)).map (·.1)

end BackgroundTaskScheduler

/-! ## The loop -/

/-- Where the loop is: at its top, asleep until a deadline, ended as there is nothing to schedule, or
dead of an exception. -/
inductive LoopPhase where
  | top
  | asleep (due : ℕ)
  | idle
  | dead (e : FireError)
  deriving DecidableEq

/-- The deadline of a loop that is asleep. -/
def LoopPhase.due? : LoopPhase → Option ℕ
  | .asleep due => some due
  | _ => none

/-- The loop, with the first and the last reading of the clock, the last deadline, and the tasks that
were started, with the minutes they were started for. -/
structure SchedulerLoop where
  phase : LoopPhase := .top
  first : Option ℕ := none
  clock : Option ℕ := none
  deadline : Option ℕ := none
  starts : List (String × ℕ) := []

/-- A reading of the clock: at the top of the loop, or after a sleep. -/
inductive LoopAction where
  | read (now : ℕ)
  | wake (now : ℕ)

namespace BackgroundTaskScheduler

/-- What follows from the upcoming fires. -/
def plan : Except FireError (List (ℕ × BackgroundTask)) → LoopPhase
  | .error e => .dead e
  | .ok upcoming =>
    match (upcoming.map (·.1)).min? with
    | none => .idle
    | some due => .asleep due

variable (s : BackgroundTaskScheduler)

/-- `_run_loop`, from one reading of the clock to the next. -/
def loopStep (l : SchedulerLoop) : LoopAction → Option SchedulerLoop
  | .read now =>
    match l.phase with
    | .top => some { l with
        phase := plan (s.upcoming now), first := some (l.first.getD now), clock := some now }
    | _ => none
  | .wake now =>
    match l.phase with
    | .asleep due => some { l with
        phase := .top
        clock := some now
        deadline := some due
        starts := l.starts ++ (s.tick now).map fun task => (task.name, minuteOf now) }
    | _ => none

end BackgroundTaskScheduler

/-- The clock does not go back, a sleep ends at or after its deadline, and the loop reads the clock
within a minute of the deadline. -/
def Prompt (l : SchedulerLoop) : LoopAction → Prop
  | .read now => (∀ before ∈ l.clock, before ≤ now) ∧
      ∀ due ∈ l.deadline, now < (due + 1) * 60000000
  | .wake now => (∀ before ∈ l.clock, before ≤ now) ∧
      ∀ due ∈ l.phase.due?, due * 60000000 ≤ now ∧ now < (due + 1) * 60000000

instance (l : SchedulerLoop) (a : LoopAction) : Decidable (Prompt l a) :=
  match a with
  | .read _ => inferInstanceAs (Decidable ((∀ before ∈ l.clock, _) ∧ ∀ due ∈ l.deadline, _))
  | .wake _ => inferInstanceAs (Decidable ((∀ before ∈ l.clock, _) ∧ ∀ due ∈ l.phase.due?, _ ∧ _))

namespace BackgroundTaskScheduler

variable (s : BackgroundTaskScheduler)

/-- The task is enabled and has a schedule, which the minute matches, and the minute begins after the
first reading of the clock, and no later than the last. -/
def Due (l : SchedulerLoop) (task : BackgroundTask) (m : ℕ) : Prop :=
  (∃ schedule, (task, schedule) ∈ s.active ∧ schedule.matches m = true) ∧
    ∃ first ∈ l.first, ∃ clock ∈ l.clock, first < m * 60000000 ∧ m * 60000000 ≤ clock

/-- **Every task was started once for every minute that it was due, and for no other minute**, and
nothing else was started. -/
structure FiresExactly (l : SchedulerLoop) : Prop where
  once : ∀ task ∈ s.tasks, ∀ m, s.Due l task m → l.starts.count (task.name, m) = 1
  never : ∀ task ∈ s.tasks, ∀ m, ¬ s.Due l task m → l.starts.count (task.name, m) = 0
  tasks : ∀ start ∈ l.starts, ∃ task ∈ s.tasks, task.name = start.1

/-! ## Next fires -/

variable {s} {tasks : List BackgroundTask} {task : BackgroundTask} {schedule : CronSchedule}

theorem init_spec (h : init tasks = .ok s) :
    s.tasks = tasks ∧ (tasks.map (·.name)).Nodup ∧ parseSchedules tasks = .ok s.schedules := by
  unfold init at h
  split at h
  · next hnodup =>
      cases hschedules : parseSchedules tasks with
      | error e =>
          rw [hschedules] at h
          cases h
      | ok schedules =>
          rw [hschedules] at h
          cases h
          exact ⟨rfl, hnodup, rfl⟩
  · cases h

theorem mem_active : (task, schedule) ∈ s.active ↔
    task ∈ s.tasks ∧ task.enabled = true ∧ s.schedules.lookup task.name = some schedule := by
  simp only [active, List.mem_filterMap]
  constructor
  · rintro ⟨task', hmem, hsome⟩
    split at hsome
    · next henabled =>
        obtain ⟨schedule', hlookup, heq⟩ := Option.map_eq_some_iff.mp hsome
        cases heq
        exact ⟨hmem, henabled, hlookup⟩
    · cases hsome
  · rintro ⟨hmem, henabled, hlookup⟩
    exact ⟨task, hmem, by rw [if_pos henabled, hlookup]; rfl⟩

/-- What `_upcoming` computes of a task. -/
def nextFireOf (now : ℕ) (entry : BackgroundTask × CronSchedule) :
    Except FireError (ℕ × BackgroundTask) :=
  (entry.2.nextFire now).map fun fire => (fire, entry.1)

theorem nextFireOf_eq_ok_iff {now : ℕ} {entry : BackgroundTask × CronSchedule}
    {fire : ℕ × BackgroundTask} : nextFireOf now entry = .ok fire ↔
      entry.2.nextFire now = .ok fire.1 ∧ entry.1 = fire.2 := by
  obtain ⟨m, task⟩ := fire
  unfold nextFireOf
  cases entry.2.nextFire now with
  | error e => simp [Except.map]
  | ok n => simp [Except.map]

/-- The next fires are those of the tasks. -/
theorem nextFires_spec {entries : List (BackgroundTask × CronSchedule)} {now : ℕ}
    {fires : List (ℕ × BackgroundTask)} (h : entries.mapM (nextFireOf now) = .ok fires) :
    (∀ entry ∈ entries, ∃ fire ∈ fires, nextFireOf now entry = .ok fire) ∧
      ∀ fire ∈ fires, ∃ entry ∈ entries, nextFireOf now entry = .ok fire := by
  induction entries generalizing fires with
  | nil =>
      cases h
      exact ⟨List.forall_mem_nil _, List.forall_mem_nil _⟩
  | cons entry entries ih =>
      obtain ⟨fire, rest, hfire, hrest, rfl⟩ := mapM_cons_eq_ok.mp h
      obtain ⟨hentries, hfires⟩ := ih hrest
      refine ⟨List.forall_mem_cons.mpr ⟨⟨fire, .head _, hfire⟩, fun entry' hentry' => ?_⟩,
        List.forall_mem_cons.mpr ⟨⟨entry, .head _, hfire⟩, fun fire' hfire' => ?_⟩⟩
      · obtain ⟨fire', hmem, hok⟩ := hentries entry' hentry'
        exact ⟨fire', .tail _ hmem, hok⟩
      · obtain ⟨entry', hmem, hok⟩ := hfires fire' hfire'
        exact ⟨entry', .tail _ hmem, hok⟩

theorem nextFires_isOk {entries : List (BackgroundTask × CronSchedule)} {now : ℕ}
    (h : ∀ entry ∈ entries, ∃ m, entry.2.nextFire now = .ok m) :
    ∃ fires, entries.mapM (nextFireOf now) = .ok fires := by
  induction entries with
  | nil => exact ⟨[], rfl⟩
  | cons entry entries ih =>
      obtain ⟨hentry, hentries⟩ := List.forall_mem_cons.mp h
      obtain ⟨m, hm⟩ := hentry
      obtain ⟨fires, hfires⟩ := ih hentries
      exact ⟨(m, entry.1) :: fires, mapM_cons_eq_ok.mpr
        ⟨_, fires, nextFireOf_eq_ok_iff.mpr ⟨hm, rfl⟩, hfires, rfl⟩⟩

/-- An active task whose schedule has no matching minute left. -/
def Exhausted (s : BackgroundTaskScheduler) (now : ℕ) : Prop :=
  ∃ task schedule, (task, schedule) ∈ s.active ∧
    ∀ m, minuteOf now < m → m < maxMinute → schedule.matches m = false

/-- The next fires can be computed exactly if no active task is exhausted. -/
theorem upcoming_isOk_iff {now : ℕ} : (∃ fires, s.upcoming now = .ok fires) ↔ ¬ s.Exhausted now := by
  constructor
  · rintro ⟨fires, hfires⟩ ⟨task, schedule, hactive, hnone⟩
    obtain ⟨fire, -, hfire⟩ := (nextFires_spec hfires).1 _ hactive
    obtain ⟨m, hlater, hm, hmatches⟩ :=
      CronSchedule.nextFire_isOk_iff.mp ⟨_, (nextFireOf_eq_ok_iff.mp hfire).1⟩
    rw [hnone m hlater hm] at hmatches
    cases hmatches
  · intro hnot
    refine nextFires_isOk fun entry hentry => CronSchedule.nextFire_isOk_iff.mpr ?_
    by_contra hnone
    refine hnot ⟨entry.1, entry.2, hentry, fun m hlater hm => Bool.eq_false_iff.mpr fun htrue => ?_⟩
    exact hnone ⟨m, hlater, hm, htrue⟩

/-- The loop dies exactly if the next fires cannot be computed. -/
theorem exists_plan_eq_dead_iff {now : ℕ} :
    (∃ e, plan (s.upcoming now) = .dead e) ↔ s.Exhausted now := by
  rw [← not_iff_not, ← upcoming_isOk_iff]
  cases hupcoming : s.upcoming now with
  | error e => simp [plan]
  | ok fires =>
      have halive : ∀ e, plan (.ok fires) ≠ .dead e := fun e h => by
        simp only [plan] at h
        split at h <;> cases h
      simp [halive]

/-- The loop sleeps until the first minute that some schedule matches. -/
theorem plan_eq_asleep {now due : ℕ} (h : plan (s.upcoming now) = .asleep due) :
    minuteOf now < due ∧ ∀ task schedule, (task, schedule) ∈ s.active →
      ∀ m, minuteOf now < m → m < due → schedule.matches m = false := by
  cases hupcoming : s.upcoming now with
  | error e =>
      rw [hupcoming] at h
      cases h
  | ok fires =>
      rw [hupcoming, plan] at h
      split at h
      · cases h
      · next due' hmin =>
          cases h
          obtain ⟨hmem, hle⟩ := List.min?_eq_some_iff.mp hmin
          obtain ⟨hentries, hfires⟩ := nextFires_spec hupcoming
          constructor
          · obtain ⟨fire, hfire, rfl⟩ := List.mem_map.mp hmem
            obtain ⟨entry, -, hok⟩ := hfires fire hfire
            exact (CronSchedule.nextFire_eq_ok_iff.mp (nextFireOf_eq_ok_iff.mp hok).1).1.le
          · intro task schedule hactive m hlater hm
            obtain ⟨fire, hfire, hok⟩ := hentries _ hactive
            have hfirst := (CronSchedule.nextFire_eq_ok_iff.mp (nextFireOf_eq_ok_iff.mp hok).1).1
            have hdue := hle _ (List.mem_map.mpr ⟨fire, hfire, rfl⟩)
            exact hfirst.first m hlater (by omega)

/-- The loop ends only where there is nothing to schedule. -/
theorem plan_eq_idle {now : ℕ} (h : plan (s.upcoming now) = .idle) : s.active = [] := by
  cases hupcoming : s.upcoming now with
  | error e =>
      rw [hupcoming] at h
      cases h
  | ok fires =>
      rw [hupcoming, plan] at h
      split at h
      · next hmin =>
          have hnil : fires = [] := by simpa using hmin
          by_contra hne
          obtain ⟨entry, hentry⟩ := List.exists_mem_of_ne_nil _ hne
          obtain ⟨fire, hfire, -⟩ := (nextFires_spec hupcoming).1 entry hentry
          rw [hnil] at hfire
          cases hfire
      · cases h

/-! ## Starts -/

theorem active_sublist : (s.active.map (·.1)).Sublist s.tasks := by
  unfold active
  induction s.tasks with
  | nil => exact .slnil
  | cons task tasks ih =>
      rw [List.filterMap_cons]
      split
      · exact .cons _ ih
      · next entry hentry =>
          split at hentry
          · obtain ⟨schedule, -, rfl⟩ := Option.map_eq_some_iff.mp hentry
            exact ih.cons_cons _
          · cases hentry

theorem tick_sublist (now : ℕ) : (s.tick now).Sublist s.tasks :=
  ((List.filter_sublist).map _).trans active_sublist

theorem mem_tick {now : ℕ} : task ∈ s.tick now ↔
    ∃ schedule, (task, schedule) ∈ s.active ∧ schedule.matches (minuteOf now) = true := by
  simp [tick]

/-- A tick starts the tasks whose schedules match its minute, once each. -/
theorem count_tick (hnodup : (s.tasks.map (·.name)).Nodup) (htask : task ∈ s.tasks) (now m : ℕ) :
    ((s.tick now).map fun started => (started.name, minuteOf now)).count (task.name, m)
      = if m = minuteOf now ∧ task ∈ s.tick now then 1 else 0 := by
  have hsublist := (tick_sublist (s := s) now).map (·.name)
  have hpairs : ((s.tick now).map fun started => (started.name, minuteOf now)).Nodup := by
    have hnames := hsublist.nodup hnodup
    rw [show ((s.tick now).map fun started => (started.name, minuteOf now))
      = ((s.tick now).map (·.name)).map fun name => (name, minuteOf now) by simp]
    exact hnames.map fun _ _ heq => (Prod.mk.inj heq).1
  rw [hpairs.count]
  refine if_congr ?_ rfl rfl
  rw [List.mem_map]
  constructor
  · rintro ⟨started, hstarted, heq⟩
    obtain ⟨hname, hm⟩ := Prod.mk.inj heq
    have hsame : started = task :=
      List.inj_on_of_nodup_map hnodup ((tick_sublist now).subset hstarted) htask hname
    exact ⟨hm.symm, hsame ▸ hstarted⟩
  · rintro ⟨rfl, hmem⟩
    exact ⟨task, hmem, rfl⟩

/-! ## Runs of the loop -/

/-- The loop between two readings of the clock: the first one is the earliest; at the top the last
reading is in the minute of the last deadline; asleep there is nothing to start between the reading
and the deadline; dead there is an active task with no matching minute left, and idle there is no
active task. -/
structure OnTime (s : BackgroundTaskScheduler) (l : SchedulerLoop) : Prop where
  fires : s.FiresExactly l
  fresh : l.first = none → l.phase = .top ∧ l.clock = none ∧ l.starts = []
  first : ∀ first ∈ l.first, ∃ clock ∈ l.clock, first ≤ clock
  top : l.phase = .top → ∀ clock ∈ l.clock, ∃ due ∈ l.deadline, minuteOf clock = due
  asleep : ∀ due, l.phase = .asleep due → ∀ clock ∈ l.clock, minuteOf clock < due ∧
    ∀ task schedule, (task, schedule) ∈ s.active →
      ∀ m, minuteOf clock < m → m < due → schedule.matches m = false
  dead : ∀ e, l.phase = .dead e → ∃ clock ∈ l.clock, s.Exhausted clock
  idle : l.phase = .idle → s.active = []

theorem FiresExactly.congr {l l' : SchedulerLoop} (h : s.FiresExactly l)
    (hdue : ∀ task m, s.Due l task m ↔ s.Due l' task m) (hstarts : l'.starts = l.starts) :
    s.FiresExactly l' where
  once task htask m hm := by
    rw [hstarts]
    exact h.once task htask m ((hdue task m).mpr hm)
  never task htask m hm := by
    rw [hstarts]
    exact h.never task htask m fun hold => hm ((hdue task m).mp hold)
  tasks := by
    rw [hstarts]
    exact h.tasks

theorem plan_ne_top (fires : Except FireError (List (ℕ × BackgroundTask))) :
    plan fires ≠ .top := by
  unfold plan
  split
  · simp
  · split <;> simp

namespace OnTime

variable {l l' : SchedulerLoop} {a : LoopAction}

theorem initial : s.OnTime {} where
  fires := by
    refine ⟨fun task _ m hdue => ?_, fun _ _ _ _ => rfl, by simp⟩
    obtain ⟨-, first, hfirst, -⟩ := hdue
    cases hfirst
  fresh _ := ⟨rfl, rfl, rfl⟩
  first _ h := by cases h
  top _ _ h := by cases h
  asleep _ h := by cases h
  dead _ h := by cases h
  idle h := by cases h

/-- What is due depends on the minute of the last reading alone. -/
theorem due_congr {first clock clock' m : ℕ} (hfirst : l.first = some first)
    (hfirst' : l'.first = some first) (hclock : l.clock = some clock)
    (hclock' : l'.clock = some clock') (hminute : minuteOf clock = minuteOf clock') :
    s.Due l task m ↔ s.Due l' task m := by
  have hiff : m * 60000000 ≤ clock ↔ m * 60000000 ≤ clock' := by
    unfold minuteOf at hminute
    omega
  simp only [Due, hfirst, hfirst', hclock, hclock', Option.mem_some_iff, exists_eq_left', hiff]

theorem read (h : s.OnTime l) {now : ℕ} (hok : Prompt l (.read now))
    (ha : s.loopStep l (.read now) = some l') : s.OnTime l' := by
  simp only [loopStep] at ha
  split at ha
  case h_2 => cases ha
  next htop =>
  cases ha
  obtain ⟨hmono, hprompt⟩ := hok
  have hdue : ∀ task m, s.Due l task m ↔ s.Due
      { l with phase := plan (s.upcoming now), first := some (l.first.getD now), clock := some now }
      task m := by
    intro task m
    cases hfirst : l.first with
    | none =>
        constructor
        · rintro ⟨-, first, hmem, -⟩
          rw [hfirst] at hmem
          cases hmem
        · rintro ⟨-, first, ⟨⟩, clock, ⟨⟩, hafter, hbefore⟩
          rw [Option.getD_none] at hafter
          omega
    | some first =>
        obtain ⟨clock, hclock, hle⟩ := h.first first hfirst
        obtain ⟨due, hdeadline, hminute⟩ := h.top htop clock hclock
        have hnow := hmono clock hclock
        have hin := hprompt due hdeadline
        refine due_congr hfirst rfl hclock rfl ?_
        unfold minuteOf at *
        omega
  refine ⟨h.fires.congr hdue rfl, ?_, ?_, ?_, ?_, ?_, plan_eq_idle⟩
  · intro hnone
    cases hnone
  · rintro first ⟨⟩
    refine ⟨now, rfl, ?_⟩
    cases hfirst : l.first with
    | none => exact le_rfl
    | some first =>
        obtain ⟨clock, hclock, hle⟩ := h.first first hfirst
        exact hle.trans (hmono clock hclock)
  · intro hphase
    exact absurd hphase (plan_ne_top _)
  · rintro due hphase clock ⟨⟩
    exact plan_eq_asleep hphase
  · intro e hphase
    exact ⟨now, rfl, exists_plan_eq_dead_iff.mp ⟨e, hphase⟩⟩

theorem wake (h : s.OnTime l) (hnodup : (s.tasks.map (·.name)).Nodup) {now : ℕ}
    (hok : Prompt l (.wake now)) (ha : s.loopStep l (.wake now) = some l') : s.OnTime l' := by
  simp only [loopStep] at ha
  split at ha
  case h_2 => cases ha
  next due hasleep =>
  cases ha
  obtain ⟨hmono, hprompt⟩ := hok
  obtain ⟨hstart, hend⟩ := hprompt due (by rw [hasleep]; rfl)
  have hnow : minuteOf now = due := by
    unfold minuteOf
    omega
  obtain ⟨first, hfirst⟩ : ∃ first, l.first = some first := by
    refine Option.ne_none_iff_exists'.mp fun hnone => ?_
    rw [(h.fresh hnone).1] at hasleep
    cases hasleep
  obtain ⟨clock, hclock, hle⟩ := h.first first hfirst
  obtain ⟨hbefore, hnothing⟩ := h.asleep due hasleep clock hclock
  have hlater := hmono clock hclock
  set l' : SchedulerLoop :=
    { l with
      phase := .top
      clock := some now
      deadline := some due
      starts := l.starts ++ (s.tick now).map fun task => (task.name, minuteOf now) } with hl'
  have hcount : ∀ task ∈ s.tasks, ∀ m, l'.starts.count (task.name, m)
      = l.starts.count (task.name, m) + if m = due ∧ task ∈ s.tick now then 1 else 0 := by
    intro task htask m
    rw [hl', List.count_append, count_tick hnodup htask, hnow]
  -- At the deadline nothing was started yet; at every other minute nothing is due that was not.
  have hdeadline : ∀ task, ¬ s.Due l task due ∧ (s.Due l' task due ↔ task ∈ s.tick now) := by
    intro task
    unfold minuteOf at hbefore
    constructor
    · rintro ⟨-, first', -, clock', hmem, -, hdue⟩
      rw [hclock] at hmem
      cases hmem
      omega
    · rw [mem_tick, hnow]
      exact ⟨fun hdue => hdue.1, fun hmatches => ⟨hmatches, first, hfirst, now, rfl, by omega, hstart⟩⟩
  have hother : ∀ task m, m ≠ due → (s.Due l' task m ↔ s.Due l task m) := by
    intro task m hm
    constructor
    · rintro ⟨⟨schedule, hactive, hmatches⟩, first', hmem, clock', ⟨⟩, hafter, hreached⟩
      refine ⟨⟨schedule, hactive, hmatches⟩, first', hmem, clock, hclock, hafter, ?_⟩
      by_contra hlate
      have hfalse := hnothing task schedule hactive m (by unfold minuteOf; omega) (by omega)
      rw [hmatches] at hfalse
      cases hfalse
    · rintro ⟨hmatches, first', hmem, clock', hmem', hafter, hreached⟩
      rw [hclock] at hmem'
      cases hmem'
      exact ⟨hmatches, first', hmem, now, rfl, hafter, hreached.trans hlater⟩
  refine ⟨⟨fun task htask m hdue => ?_, fun task htask m hdue => ?_, ?_⟩, ?_, ?_, ?_, ?_, ?_, ?_⟩
  · rw [hcount task htask m]
    rcases eq_or_ne m due with rfl | hm
    · rw [h.fires.never task htask _ (hdeadline task).1, if_pos ⟨rfl, (hdeadline task).2.mp hdue⟩]
    · rw [h.fires.once task htask m ((hother task m hm).mp hdue), if_neg (fun hboth => hm hboth.1)]
  · rw [hcount task htask m]
    rcases eq_or_ne m due with rfl | hm
    · rw [h.fires.never task htask _ (hdeadline task).1,
        if_neg (fun hboth => hdue ((hdeadline task).2.mpr hboth.2))]
    · rw [h.fires.never task htask m (fun hold => hdue ((hother task m hm).mpr hold)),
        if_neg (fun hboth => hm hboth.1)]
  · rw [hl', List.forall_mem_append]
    refine ⟨h.fires.tasks, fun start hmem => ?_⟩
    obtain ⟨task, htask, rfl⟩ := List.mem_map.mp hmem
    exact ⟨task, (tick_sublist now).subset htask, rfl⟩
  · intro hnone
    rw [hl', hfirst] at hnone
    cases hnone
  · intro first' hmem
    rw [hl', hfirst] at hmem
    cases hmem
    exact ⟨now, rfl, hle.trans hlater⟩
  · rintro - clock' ⟨⟩
    exact ⟨due, rfl, hnow⟩
  · intro due' hphase
    cases hphase
  · intro e hphase
    cases hphase
  · intro hphase
    cases hphase

end OnTime

/-- The loop goes on, and has the next fire of every active task whose schedule has one. -/
def KeepsRunning (s : BackgroundTaskScheduler) (now : ℕ) : Prop :=
  (∀ e, plan (s.upcoming now) ≠ .dead e) ∧ ∀ task schedule, (task, schedule) ∈ s.active →
    ∀ m < maxMinute, schedule.FirstMatch (minuteOf now + 1) m →
      ∃ fires, s.upcoming now = .ok fires ∧ (m, task) ∈ fires

/-- **The loop has every next fire and goes on** exactly if every active task's schedule has a
matching minute left. -/
theorem keeps_running_iff (s : BackgroundTaskScheduler) (now : ℕ) :
    s.KeepsRunning now ↔ ∀ task schedule, (task, schedule) ∈ s.active →
      ∃ m, minuteOf now < m ∧ m < maxMinute ∧ schedule.matches m = true := by
  have hexhausted : (∀ task schedule, (task, schedule) ∈ s.active →
      ∃ m, minuteOf now < m ∧ m < maxMinute ∧ schedule.matches m = true) ↔ ¬ s.Exhausted now := by
    unfold Exhausted
    push Not
    simp
  rw [hexhausted, ← exists_plan_eq_dead_iff, not_exists]
  refine and_iff_left_of_imp fun halive task schedule hactive m hm hfirst => ?_
  have hnot : ¬ s.Exhausted now := by
    intro hexhausted
    obtain ⟨e, he⟩ := exists_plan_eq_dead_iff.mpr hexhausted
    exact halive e he
  obtain ⟨fires, hfires⟩ := upcoming_isOk_iff.mpr hnot
  obtain ⟨fire, hmem, hfire⟩ := (nextFires_spec hfires).1 _ hactive
  obtain ⟨hnext, rfl⟩ := nextFireOf_eq_ok_iff.mp hfire
  rw [CronSchedule.nextFire_eq_ok_iff.mpr ⟨hfirst, hm⟩] at hnext
  cases hnext
  exact ⟨fires, hfires, hmem⟩

theorem parseSchedules_wellFormed {schedules : List (String × CronSchedule)}
    (h : parseSchedules tasks = .ok schedules) : ∀ entry ∈ schedules, entry.2.WellFormed := by
  induction tasks generalizing schedules with
  | nil =>
      cases h
      exact List.forall_mem_nil _
  | cons task tasks ih =>
      unfold parseSchedules at h
      split at h
      case h_3 =>
        split at h
        · cases h
        · next hparse =>
            cases hrest : parseSchedules tasks with
            | error e =>
                rw [hrest] at h
                cases h
            | ok rest =>
                rw [hrest] at h
                cases h
                exact List.forall_mem_cons.mpr ⟨parseCron_wellFormed hparse, ih hrest⟩
      all_goals exact ih h

/-- Until nine years before the end of the calendar a task is exhausted exactly if its schedule
restricts the day of the month alone, to days that none of its months has. -/
theorem exhausted_iff_impossible (hs : init tasks = .ok s) {now : ℕ}
    (hnow : minuteOf now / 1440 + 3294 < 3652059) :
    s.Exhausted now ↔ ∃ task schedule, (task, schedule) ∈ s.active ∧ schedule.Impossible := by
  refine exists_congr fun task => exists_congr fun schedule => and_congr_right fun hactive => ?_
  have hwell : schedule.WellFormed := by
    obtain ⟨-, -, hlookup⟩ := mem_active.mp hactive
    obtain ⟨before, after, hschedules, -⟩ := List.lookup_eq_some_iff.mp hlookup
    exact parseSchedules_wellFormed (init_spec hs).2.2 (task.name, schedule) (by simp [hschedules])
  rw [← not_iff_not, ← hwell.nextFire_isOk_iff hnow, CronSchedule.nextFire_isOk_iff]
  push Not
  simp

/-- A task for the thirtieth of February ends the loop at once, and with it the task that is due
every minute. -/
theorem keeps_running_lost : ∃ s task schedule,
    init [{ name := "never", schedule := some "0 0 30 2 *" },
      { name := "tick", schedule := some "* * * * *" }] = .ok s ∧
    (task, schedule) ∈ s.active ∧ schedule.matches 1064079361 = true ∧
    (∃ e, plan (s.upcoming 63844761600000000) = .dead e) ∧
    ¬ s.KeepsRunning 63844761600000000 := by
  have hactive : (init [{ name := "never", schedule := some "0 0 30 2 *" },
      { name := "tick", schedule := some "* * * * *" }]).toOption.map (fun s => s.active.map
        fun entry => (decide entry.2.Impossible, entry.2.matches 1064079361))
      = some [(true, false), (false, true)] := by decide +kernel
  cases hinit : init [{ name := "never", schedule := some "0 0 30 2 *" },
      { name := "tick", schedule := some "* * * * *" }] with
  | error e =>
      rw [hinit] at hactive
      cases hactive
  | ok s =>
      rw [hinit] at hactive
      obtain ⟨never, rest, hcons, hnever, htick⟩ := List.map_eq_cons_iff.mp (Option.some.inj hactive)
      obtain ⟨tick, rest, rfl, htick, -⟩ := List.map_eq_cons_iff.mp htick
      have himpossible : never.2.Impossible := of_decide_eq_true (Prod.mk.inj hnever).1
      have hdead : ∃ e, plan (s.upcoming 63844761600000000) = .dead e :=
        exists_plan_eq_dead_iff.mpr ⟨never.1, never.2, by simp [hcons],
          fun m _ _ => himpossible.matches_eq_false m⟩
      obtain ⟨e, he⟩ := hdead
      exact ⟨s, tick.1, tick.2, rfl, by simp [hcons], (Prod.mk.inj htick).2, ⟨e, he⟩,
        fun hkeeps => hkeeps.1 e he⟩

end BackgroundTaskScheduler

end Resourcey
