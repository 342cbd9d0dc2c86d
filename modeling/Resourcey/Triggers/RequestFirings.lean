import Resourcey.Http.BatchRoutes

/-!
# When the triggers of a request fire

A `TriggeredService` fires the triggers of its resource as soon as a write has returned. What the
write did is committed later, when the service that opened the session exits: after a batch has
applied all its runs, and after the results have been projected. A callback that is awaited runs
when it is fired, and one in the background at some moment from then on, unless it is cancelled. So
a request fires for committed writes alone, whatever the moments are, exactly if no write on a
resource with triggers completes in it (`firesLasting_iff`).

The storage is that of `Sql.Session`, over the tables of several engines. The commit of a session
may raise, and it leaves the tables of other engines to their own sessions.
-/

namespace Resourcey

/-! ## Writes -/

/-- A write through a service. -/
inductive ServiceWrite (φ π : Type) where
  | one (env : φ) (edit : Edit π)
  | applyEdits (edits : List (φ × Edit π))

/-- The edits that a trigger is told of. -/
def ServiceWrite.edits {φ π : Type} : ServiceWrite φ π → List (Edit π)
  | .one _ edit => [edit]
  | .applyEdits edits => edits.map Prod.snd

/-- A write as the session of its service sees it, with the results that a trigger is told of. -/
def SqlResource.writeIn {ρ π φ : Type} (r : SqlResource ρ π φ) (w : WriteActions ρ π φ)
    (rows : List ρ) : ServiceWrite φ π → Except ResourceyError (List (Option ρ)) × List ρ
  | .one env (.create item) =>
    match w.create env rows item with
    | .error e => (.error e, rows)
    | .ok (row, rows) => (.ok [some row], rows)
  | .one env (.update item condition) =>
    match w.update env rows item condition with
    | .error e => (.error e, rows)
    | .ok (result, rows) => (.ok [result], rows)
  | .one _ (.delete id condition) =>
    match w.delete rows id condition with
    | .error e => (.error e, rows)
    | .ok (_, rows) => (.ok [none], rows)
  | .applyEdits edits => r.applyEditsIn w rows edits

/-- What a request does through one service: a singular write, or a run of a batch. -/
inductive RequestRun (ι φ ω : Type) where
  | one (item : BatchItem ι φ ω)
  | edits (resource : ι) (run : List (BatchItem ι φ ω))

/-- The resource of a run. -/
def RequestRun.resource {ι φ ω : Type} : RequestRun ι φ ω → ι
  | .one item => item.resource
  | .edits resource _ => resource

/-- A request that writes. -/
inductive WriteRequest (ι φ ω : Type) where
  | write (item : BatchItem ι φ ω)
  | batchEdit (items : List (BatchItem ι φ ω))

/-- The runs of a request. -/
def WriteRequest.runs {ι φ ω : Type} [DecidableEq ι] : WriteRequest ι φ ω → List (RequestRun ι φ ω)
  | .write item => [.one item]
  | .batchEdit items => (batchRuns items).map fun (name, run) => .edits name run

/-! ## Requests -/

/-- The write routes of resources with triggers, whose tables are those of some engines. The
callbacks of a resource are awaited or run in the background. -/
structure TriggeredRoutes (ι τ φ ω β θ : Type) (ρ : τ → Type) (π : ι → Type) extends
    BatchRoute ι τ φ ω β ρ π where
  engine : τ → StorageKey
  engine_eq : ∀ i, sqlStorageKey (target i).maker = engine (table i)
  triggers : ι → List θ
  background : ι → Bool

/-- A service that ends the session it owns and whose commit may raise, with an exception under way
or without. -/
def EnteredService.tryExit {τ : Type} {ρ : τ → Type} (engine : τ → StorageKey)
    (commitRaises : ℕ → Bool) (out : Bool × Storage (Database ρ)) (v : EnteredService) :
    Bool × Storage (Database ρ) :=
  let (raised, s) := out
  if v.ownsStorage ∧ raised = false then
    if commitRaises v.service then (true, s)
    else (false, { s with
      ctx := Function.update s.ctx v.storageKey none
      committed := fun t => if engine t = v.storageKey then s.view v.session t else s.committed t
      log := s.log ++ [.committed v.service, .exited v.service] })
  else (raised, v.exit raised s)

namespace TriggeredRoutes

variable {ι τ φ ω β θ : Type} {ρ : τ → Type} {π : ι → Type}

/-- An operation that a service completed, with its edits and results and the moment at which it
did. A moment is told by what was done to sessions before it. -/
structure Operation (b : TriggeredRoutes ι τ φ ω β θ ρ π) where
  resource : ι
  service : EnteredService
  edits : List (Edit (π resource))
  results : List (Option (ρ (b.table resource)))
  moment : List SessionEvent

/-- The call of a trigger's `callback`, with an operation and at a moment. -/
structure Callback (b : TriggeredRoutes ι τ φ ω β θ ρ π) where
  operation : b.Operation
  trigger : θ
  moment : List SessionEvent

/-- The services on the stack of a request, its storage, and the operations that were completed. -/
structure State (b : TriggeredRoutes ι τ φ ω β θ ρ π) where
  stack : List EnteredService := []
  storage : Storage (Database ρ)
  completed : List b.Operation := []

/-- The outcome of a request: the results of its writes or the exception, whether an exception was
under way at its end, and what it left behind. -/
structure Outcome (b : TriggeredRoutes ι τ φ ω β θ ρ π) where
  result : Except ResourceyError (List (BatchResult ι β))
  raised : Bool
  state : b.State

variable [DecidableEq τ] (b : TriggeredRoutes ι τ φ ω β θ ρ π)

/-- The write that a run is made. -/
def toWrite : (r : RequestRun ι φ ω) → Except ResourceyError (ServiceWrite φ (π r.resource))
  | .one item => return .one item.env (← (b.target item.resource).editNode item.edit)
  | .edits name run => do
    let edits ← run.mapM fun item => return (item.env, ← (b.target name).editNode item.edit)
    return .applyEdits edits

/-- A run on the rows of its table: the items of the response, the operation that was completed, and
the rows after it. -/
def runWrite (r : RequestRun ι φ ω) (rows : List (ρ (b.table r.resource))) :
    Except ResourceyError (List (BatchResult ι β)) ×
      Option (List (Edit (π r.resource)) × List (Option (ρ (b.table r.resource)))) ×
        List (ρ (b.table r.resource)) :=
  let t := b.target r.resource
  match b.toWrite r with
  | .error e => (.error e, none, rows)
  | .ok write =>
    match t.resource.writeIn t.writes rows write with
    | (.error e, rows) => (.error e, none, rows)
    | (.ok results, rows) =>
      ((write.edits.zip results).mapM fun p => t.resultBody r.resource p.1 p.2,
        some (write.edits, results), rows)

/-- A run of a request: its service is entered and stays on the stack, and the triggers fire when
its operation is completed. -/
def applyRun (r : RequestRun ι φ ω) (n : ℕ) (s : b.State) :
    Except ResourceyError (List (BatchResult ι β)) × b.State :=
  let (service, storage) :=
    SqlService.enter n (sqlStorageKey (b.target r.resource).maker) s.storage
  let seen := storage.view service.session
  let (bodies, operation, rows) := b.runWrite r (seen (b.table r.resource))
  (bodies,
    { stack := service :: s.stack
      storage := storage.setView service.session (Function.update seen (b.table r.resource) rows)
      completed := s.completed ++ (operation.map fun (edits, results) =>
        ⟨r.resource, service, edits, results, storage.log⟩).toList })

/-- The runs of a request, until one raises. -/
def applyRuns : List (RequestRun ι φ ω) → ℕ → b.State →
    Except ResourceyError (List (BatchResult ι β)) × b.State
  | [], _, s => (.ok [], s)
  | r :: runs, n, s =>
    match b.applyRun r n s with
    | (.error e, s) => (.error e, s)
    | (.ok bodies, s) =>
      let (rest, s) := applyRuns runs (n + 1) s
      (rest.map (bodies ++ ·), s)

/-- A request that nothing was entered for. -/
def handle [DecidableEq ι] (commitRaises : ℕ → Bool) (db : Database ρ)
    (request : WriteRequest ι φ ω) : b.Outcome :=
  let (result, s) := b.applyRuns request.runs 0 { storage := { committed := db } }
  let (raised, storage) :=
    s.stack.foldl (EnteredService.tryExit b.engine commitRaises) (raised result, s.storage)
  { result, raised, state := { s with storage } }

/-! ## Callbacks -/

/-- A firing of every trigger of a resource for every operation of it. -/
def firings (operations : List b.Operation) : List (b.Operation × θ) :=
  operations.flatMap fun o => (b.triggers o.resource).map (o, ·)

/-- The callbacks of firings, in a request that ends at a moment. -/
inductive CallsBack (final : List SessionEvent) :
    List (b.Operation × θ) → List b.Callback → Prop where
  | nil : CallsBack final [] []
  | awaited {o : b.Operation} {t : θ} {fired callbacks} : b.background o.resource = false →
      CallsBack final fired callbacks →
        CallsBack final ((o, t) :: fired) (⟨o, t, o.moment⟩ :: callbacks)
  | later {o : b.Operation} {t : θ} {moment fired callbacks} : b.background o.resource = true →
      o.moment <+: moment → moment <+: final → CallsBack final fired callbacks →
        CallsBack final ((o, t) :: fired) (⟨o, t, moment⟩ :: callbacks)
  | cancelled {o : b.Operation} {t : θ} {fired callbacks} : b.background o.resource = true →
      CallsBack final fired callbacks → CallsBack final ((o, t) :: fired) callbacks

/-- The session of an operation is committed at a moment, by the service that owns it. -/
def CommittedAt {b : TriggeredRoutes ι τ φ ω β θ ρ π} (stack : List EnteredService)
    (o : b.Operation) (moment : List SessionEvent) : Prop :=
  ∃ v ∈ stack, v.ownsStorage = true ∧ v.session = o.service.session ∧ .committed v.service ∈ moment

instance {b : TriggeredRoutes ι τ φ ω β θ ρ π} (stack : List EnteredService) (o : b.Operation)
    (moment : List SessionEvent) : Decidable (CommittedAt stack o moment) :=
  inferInstanceAs (Decidable (∃ v ∈ stack,
    v.ownsStorage = true ∧ v.session = o.service.session ∧ .committed v.service ∈ moment))

/-- The callbacks are one of each trigger for each operation that was committed, after its
commit. -/
structure FiresLasting (s : b.State) (callbacks : List b.Callback) : Prop where
  lasting : (callbacks.map fun c => (c.operation, c.trigger)).Perm
    (b.firings (s.completed.filter fun o => CommittedAt s.stack o s.storage.log))
  afterCommit : ∀ c ∈ callbacks, CommittedAt s.stack c.operation c.moment

/-- Triggers fire only for edits that last. -/
def FiresOnlyLasting [DecidableEq ι] : Prop :=
  ∀ commitRaises db request callbacks,
    let s := (b.handle commitRaises db request).state
    b.CallsBack s.storage.log (b.firings s.completed) callbacks → b.FiresLasting s callbacks

/-- Runs succeed one after the other on the tables of a database, and leave another. -/
def Applies : Database ρ → List (RequestRun ι φ ω) → Database ρ → Prop
  | db, [], db' => db = db'
  | db, r :: runs, db' => ∃ bodies operation rows,
      b.runWrite r (db (b.table r.resource)) = (.ok bodies, operation, rows) ∧
        Applies (Function.update db (b.table r.resource) rows) runs db'

/-- The write of a run completes on the tables of a database. -/
def Completes (db : Database ρ) (r : RequestRun ι φ ω) : Prop :=
  (b.runWrite r (db (b.table r.resource))).2.1.isSome = true

/-! ## What a run leaves -/

/-- The sessions of a storage, and what is committed where there is none, show a database. -/
structure Shows (db : Database ρ) (s : Storage (Database ρ)) : Prop where
  table : ∀ t, db t = match s.ctx (b.engine t) with
    | some session => s.view session t
    | none => s.committed t
  opened : ∀ key session, s.ctx key = some session → session < s.opened

/-- One moment is after another, and no session was committed in between. -/
def NoCommitBetween (moment moment' : List SessionEvent) : Prop :=
  ∃ events, moment' = moment ++ events ∧ ∀ n, .committed n ∉ events

theorem NoCommitBetween.refl (moment : List SessionEvent) : NoCommitBetween moment moment :=
  ⟨[], (List.append_nil moment).symm, fun _ => List.not_mem_nil⟩

theorem NoCommitBetween.trans {m₁ m₂ m₃ : List SessionEvent} (h : NoCommitBetween m₁ m₂)
    (h' : NoCommitBetween m₂ m₃) : NoCommitBetween m₁ m₃ := by
  obtain ⟨events, rfl, hevents⟩ := h
  obtain ⟨events', rfl, hevents'⟩ := h'
  refine ⟨events ++ events', List.append_assoc _ _ _, fun n hn => ?_⟩
  exact (List.mem_append.mp hn).elim (hevents n) (hevents' n)

theorem NoCommitBetween.isPrefix {m m' : List SessionEvent} (h : NoCommitBetween m m') :
    m <+: m' := by
  obtain ⟨events, rfl, -⟩ := h
  exact List.prefix_append m events

variable {b} {db db' : Database ρ}

omit [DecidableEq τ] in
/-- A service that is entered sees its tables in its session. -/
theorem Shows.enter {s : Storage (Database ρ)} (h : b.Shows db s) (t : τ) (n : ℕ) :
    ∃ v s', SqlService.enter n (b.engine t) s = (v, s') ∧ b.Shows db s' ∧
      s'.ctx (b.engine t) = some v.session ∧ NoCommitBetween s.log s'.log := by
  rw [SqlService.enter]
  cases hctx : s.ctx (b.engine t) with
  | some session =>
      refine ⟨_, _, rfl, ⟨h.table, h.opened⟩, hctx, [.entered n], rfl, fun m hm => ?_⟩
      cases List.mem_singleton.mp hm
  | none =>
      refine ⟨_, _, rfl, ⟨fun t' => ?_, fun key session hkey => ?_⟩, Function.update_self _ _ _,
        [.opened n, .entered n], rfl, by simp⟩
      · rw [h.table t']
        rcases eq_or_ne (b.engine t') (b.engine t) with heq | hne
        · rw [heq, hctx]
          simp only [Function.update_self]
        · simp only [Function.update_of_ne hne]
          cases hother : s.ctx (b.engine t') with
          | none => rfl
          | some session =>
              have hlt := h.opened _ _ hother
              simp only [Function.update_of_ne hlt.ne]
      · rcases eq_or_ne key (b.engine t) with rfl | hne
        · cases (Function.update_self (b.engine t) (some s.opened) s.ctx).symm.trans hkey
          exact Nat.lt_succ_self _
        · exact Nat.lt_succ_of_lt (h.opened key session
            ((Function.update_of_ne hne _ _).symm.trans hkey))

/-- Statements in the session of a table's engine are seen in its session alone. -/
theorem Shows.setView {s : Storage (Database ρ)} (h : b.Shows db s) {t : τ} {session : ℕ}
    (hctx : s.ctx (b.engine t) = some session) (rows : List (ρ t)) :
    b.Shows (Function.update db t rows)
      (s.setView session (Function.update (s.view session) t rows)) := by
  refine ⟨fun t' => ?_, h.opened⟩
  rcases eq_or_ne t' t with rfl | hne
  · simp only [Storage.setView, hctx, Function.update_self]
  · rw [Function.update_of_ne hne, h.table t']
    simp only [Storage.setView]
    cases hother : s.ctx (b.engine t') with
    | none => rfl
    | some session' =>
        simp only
        rcases eq_or_ne session' session with rfl | hsession
        · rw [Function.update_self, Function.update_of_ne hne]
        · rw [Function.update_of_ne hsession]

/-- What a run does to the state of its request. -/
structure RunSpec (b : TriggeredRoutes ι τ φ ω β θ ρ π) (r : RequestRun ι φ ω) (db : Database ρ)
    (s s' : b.State) : Prop where
  shows : b.Shows (Function.update db (b.table r.resource)
    (b.runWrite r (db (b.table r.resource))).2.2) s'.storage
  moment : NoCommitBetween s.storage.log s'.storage.log
  completed : ∃ operations, s'.completed = s.completed ++ operations ∧
    (∀ o ∈ operations, o.resource = r.resource ∧ b.Completes db r ∧
      NoCommitBetween s.storage.log o.moment ∧ NoCommitBetween o.moment s'.storage.log) ∧
    (b.Completes db r → ∃ o ∈ operations, o.resource = r.resource)

theorem applyRun_spec {s : b.State} (h : b.Shows db s.storage) (r : RequestRun ι φ ω) (n : ℕ) :
    (b.applyRun r n s).1 = (b.runWrite r (db (b.table r.resource))).1 ∧
      RunSpec b r db s (b.applyRun r n s).2 := by
  obtain ⟨v, storage, henter, hshows, hctx, hmoment⟩ := h.enter (b.table r.resource) n
  have hrows : storage.view v.session (b.table r.resource) = db (b.table r.resource) := by
    rw [hshows.table, hctx]
  rw [applyRun, b.engine_eq, henter]
  simp only [hrows]
  refine ⟨trivial, hshows.setView hctx _, hmoment, _, rfl, ?_, ?_⟩
  · intro o ho
    obtain ⟨⟨edits, results⟩, hwrite, rfl⟩ := Option.map_eq_some_iff.mp (Option.mem_toList.mp ho)
    exact ⟨rfl, Option.isSome_iff_exists.mpr ⟨_, hwrite⟩, hmoment, .refl _⟩
  · intro hcompletes
    obtain ⟨⟨edits, results⟩, hwrite⟩ := Option.isSome_iff_exists.mp hcompletes
    exact ⟨_, Option.mem_toList.mpr (Option.map_eq_some_iff.mpr ⟨_, hwrite, rfl⟩), rfl⟩

/-- A write of one of some runs completes, after those before it were applied. -/
def CompletesIn (b : TriggeredRoutes ι τ φ ω β θ ρ π) (db : Database ρ)
    (runs : List (RequestRun ι φ ω)) (i : ι) : Prop :=
  ∃ before r after mid, runs = before ++ r :: after ∧ r.resource = i ∧ b.Applies db before mid ∧
    b.Completes mid r

/-- What some runs do to the state of their request. -/
structure RunsSpec (b : TriggeredRoutes ι τ φ ω β θ ρ π) (runs : List (RequestRun ι φ ω))
    (db : Database ρ) (s s' : b.State) : Prop where
  moment : NoCommitBetween s.storage.log s'.storage.log
  completed : ∃ operations, s'.completed = s.completed ++ operations ∧
    (∀ o ∈ operations, CompletesIn b db runs o.resource ∧
      NoCommitBetween s.storage.log o.moment ∧ NoCommitBetween o.moment s'.storage.log) ∧
    (∀ i, CompletesIn b db runs i → ∃ o ∈ operations, o.resource = i)

theorem completesIn_cons_iff {r : RequestRun ι φ ω} {runs : List (RequestRun ι φ ω)} {i : ι} :
    CompletesIn b db (r :: runs) i ↔ (r.resource = i ∧ b.Completes db r) ∨
      ∃ bodies operation rows,
        b.runWrite r (db (b.table r.resource)) = (.ok bodies, operation, rows) ∧
          CompletesIn b (Function.update db (b.table r.resource) rows) runs i := by
  constructor
  · rintro ⟨_ | ⟨first, before⟩, r', after, mid, hruns, hi, happlies, hcompletes⟩
    · cases hruns
      cases happlies
      exact .inl ⟨hi, hcompletes⟩
    · cases hruns
      obtain ⟨bodies, operation, rows, hrun, happlies⟩ := happlies
      exact .inr ⟨bodies, operation, rows, hrun, before, r', after, mid, rfl, hi, happlies,
        hcompletes⟩
  · rintro (⟨hi, hcompletes⟩ | ⟨bodies, operation, rows, hrun, before, r', after, mid, rfl, hi,
      happlies, hcompletes⟩)
    · exact ⟨[], r, runs, db, rfl, hi, rfl, hcompletes⟩
    · exact ⟨r :: before, r', after, mid, rfl, hi, ⟨bodies, operation, rows, hrun, happlies⟩,
        hcompletes⟩

/-- The operations that some runs complete are those that would complete one after the other, and
none is committed before the request ends. -/
theorem applyRuns_spec {runs : List (RequestRun ι φ ω)} {s : b.State} (h : b.Shows db s.storage)
    (n : ℕ) : RunsSpec b runs db s (b.applyRuns runs n s).2 := by
  induction runs generalizing db s n with
  | nil =>
      refine ⟨.refl _, [], (List.append_nil _).symm, by simp, fun i hi => ?_⟩
      obtain ⟨before, r, after, mid, hruns, -⟩ := hi
      cases before <;> cases hruns
  | cons r runs ih =>
      obtain ⟨hbodies, hshows, hmoment, operations, hcompleted, hmem, hexists⟩ :=
        applyRun_spec h r n
      rw [applyRuns]
      cases hrun : b.applyRun r n s with
      | mk bodies s₁ =>
          rw [hrun] at hbodies hshows hmoment hcompleted hmem
          cases bodies with
          | error e =>
              refine ⟨hmoment, operations, hcompleted, fun o ho => ?_, fun i hi => ?_⟩
              · obtain ⟨hresource, hcompletes, hbetween⟩ := hmem o ho
                exact ⟨completesIn_cons_iff.mpr (.inl ⟨hresource.symm, hcompletes⟩), hbetween⟩
              · rcases completesIn_cons_iff.mp hi with ⟨rfl, hcompletes⟩ | ⟨_, _, _, hok, -⟩
                · exact hexists hcompletes
                · rw [hok] at hbodies
                  cases hbodies
          | ok bodies =>
              obtain ⟨hmoment', operations', hcompleted', hmem', hexists'⟩ := ih hshows (n + 1)
              cases hwrite : b.runWrite r (db (b.table r.resource)) with
              | mk first rest =>
                  obtain ⟨operation, rows⟩ := rest
                  rw [hwrite] at hbodies hmem' hexists'
                  cases hbodies
                  refine ⟨hmoment.trans hmoment', operations ++ operations', ?_, fun o ho => ?_,
                    fun i hi => ?_⟩
                  · rw [← List.append_assoc, ← hcompleted]
                    exact hcompleted'
                  · rcases List.mem_append.mp ho with hfirst | hrest
                    · obtain ⟨hresource, hcompletes, hbefore, hafter⟩ := hmem o hfirst
                      exact ⟨completesIn_cons_iff.mpr (.inl ⟨hresource.symm, hcompletes⟩), hbefore,
                        hafter.trans hmoment'⟩
                    · obtain ⟨hcompletes, hbefore, hafter⟩ := hmem' o hrest
                      exact ⟨completesIn_cons_iff.mpr (.inr ⟨_, _, _, hwrite, hcompletes⟩),
                        hmoment.trans hbefore, hafter⟩
                  · rcases completesIn_cons_iff.mp hi with ⟨rfl, hcompletes⟩ | ⟨_, _, _, hok, hrest⟩
                    · obtain ⟨o, ho, hresource⟩ := hexists hcompletes
                      exact ⟨o, List.mem_append_left _ ho, hresource⟩
                    · cases hwrite.symm.trans hok
                      obtain ⟨o, ho, hresource⟩ := hexists' i hrest
                      exact ⟨o, List.mem_append_right _ ho, hresource⟩

/-! ## When only lasting edits fire -/

omit [DecidableEq τ] in
/-- What was done to sessions before a service exits was done to them after it. -/
theorem tryExit_log (engine : τ → StorageKey) (commitRaises : ℕ → Bool)
    (out : Bool × Storage (Database ρ)) (v : EnteredService) :
    out.2.log <+: (v.tryExit engine commitRaises out).2.log := by
  obtain ⟨raised, s⟩ := out
  unfold EnteredService.tryExit EnteredService.exit
  simp only
  split
  · split
    · exact List.prefix_rfl
    · exact List.prefix_append _ _
  · split
    · split
      · exact List.prefix_append _ _
      · exact List.prefix_append _ _
    · exact List.prefix_append _ _

omit [DecidableEq τ] in
theorem foldl_tryExit_log (engine : τ → StorageKey) (commitRaises : ℕ → Bool)
    (stack : List EnteredService) (out : Bool × Storage (Database ρ)) :
    out.2.log <+: (stack.foldl (EnteredService.tryExit engine commitRaises) out).2.log := by
  induction stack generalizing out with
  | nil => exact List.prefix_rfl
  | cons v stack ih => exact (tryExit_log engine commitRaises out v).trans (ih _)

/-- What a request leaves, but for its storage, is what its runs leave. -/
theorem handle_spec [DecidableEq ι] (b : TriggeredRoutes ι τ φ ω β θ ρ π)
    (commitRaises : ℕ → Bool) (db : Database ρ) (request : WriteRequest ι φ ω) :
    let s := (b.handle commitRaises db request).state
    (∀ o ∈ s.completed, CompletesIn b db request.runs o.resource ∧
      (∀ n, .committed n ∉ o.moment) ∧ o.moment <+: s.storage.log) ∧
    (∀ i, CompletesIn b db request.runs i → ∃ o ∈ s.completed, o.resource = i) := by
  have hshows : b.Shows db { committed := db } := ⟨fun _ => rfl, nofun⟩
  have hruns : RunsSpec b request.runs db { storage := { committed := db } } _ :=
    applyRuns_spec hshows 0
  obtain ⟨-, operations, hcompleted, hmem, hexists⟩ := hruns
  have hcompleted : (b.handle commitRaises db request).state.completed = operations := hcompleted
  refine ⟨fun o ho => ?_, fun i hi => ?_⟩
  · obtain ⟨hcompletes, ⟨events, hevents, hcommitted⟩, hafter⟩ := hmem o (hcompleted ▸ ho)
    refine ⟨hcompletes, fun n hn => hcommitted n ?_, hafter.isPrefix.trans ?_⟩
    · rw [hevents] at hn
      exact hn
    · exact foldl_tryExit_log b.engine commitRaises _ (_, _)
  · obtain ⟨o, ho, hresource⟩ := hexists i hi
    exact ⟨o, hcompleted ▸ ho, hresource⟩

omit [DecidableEq τ] in
/-- All callbacks may run as soon as they are fired. -/
theorem callsBack_eager {final : List SessionEvent} {fired : List (b.Operation × θ)}
    (h : ∀ f ∈ fired, f.1.moment <+: final) :
    b.CallsBack final fired (fired.map fun f => ⟨f.1, f.2, f.1.moment⟩) := by
  induction fired with
  | nil => exact .nil
  | cons f fired ih =>
      obtain ⟨hf, hfired⟩ := List.forall_mem_cons.mp h
      cases hback : b.background f.1.resource with
      | false => exact .awaited hback (ih hfired)
      | true => exact .later hback List.prefix_rfl hf (ih hfired)

/-- **The triggers of a request fire for edits that last, whenever their callbacks run, exactly if
none of its writes on a resource with triggers completes**: a write completes before it can be
committed, and its triggers fire when it completes. -/
theorem firesLasting_iff [DecidableEq ι] (b : TriggeredRoutes ι τ φ ω β θ ρ π)
    (commitRaises : ℕ → Bool) (db : Database ρ) (request : WriteRequest ι φ ω) :
    let s := (b.handle commitRaises db request).state
    (∀ callbacks, b.CallsBack s.storage.log (b.firings s.completed) callbacks →
      b.FiresLasting s callbacks) ↔
    ∀ before r after db', request.runs = before ++ r :: after → b.Applies db before db' →
      b.triggers r.resource ≠ [] → ¬ b.Completes db' r := by
  intro s
  obtain ⟨hmem, hexists⟩ := handle_spec b commitRaises db request
  constructor
  · intro hlasting before r after db' hruns happlies htriggers hcompletes
    obtain ⟨o, ho, hresource⟩ :=
      hexists r.resource ⟨before, r, after, db', hruns, rfl, happlies, hcompletes⟩
    obtain ⟨t, ht⟩ := List.exists_mem_of_ne_nil _ htriggers
    have hfired : (o, t) ∈ b.firings s.completed :=
      List.mem_flatMap.mpr ⟨o, ho, List.mem_map_of_mem (hresource.symm ▸ ht)⟩
    -- the callback runs as soon as it is fired, and then nothing is committed yet
    have hprefix : ∀ f ∈ b.firings s.completed, f.1.moment <+: s.storage.log := by
      intro f hf
      obtain ⟨o', ho', hf⟩ := List.mem_flatMap.mp hf
      obtain ⟨t', -, rfl⟩ := List.mem_map.mp hf
      exact (hmem o' ho').2.2
    obtain ⟨v, -, -, -, hcommitted⟩ := (hlasting _ (callsBack_eager hprefix)).afterCommit _
      (List.mem_map_of_mem hfired)
    exact (hmem o ho).2.1 _ hcommitted
  · intro hnone callbacks hcallbacks
    have hquiet : ∀ o ∈ s.completed, b.triggers o.resource = [] := by
      intro o ho
      obtain ⟨before, r, after, mid, hruns, hresource, happlies, hcompletes⟩ := (hmem o ho).1
      rw [← hresource]
      by_contra htriggers
      exact hnone before r after mid hruns happlies htriggers hcompletes
    have hsilent (operations : List b.Operation) (h : operations ⊆ s.completed) :
        b.firings operations = [] := by
      refine List.flatMap_eq_nil_iff.mpr fun o ho => ?_
      rw [hquiet o (h ho), List.map_nil]
    rw [hsilent s.completed (List.Subset.refl _)] at hcallbacks
    cases hcallbacks
    refine ⟨?_, nofun⟩
    rw [hsilent _ fun _ ho => List.mem_of_mem_filter ho]
    exact .nil

/-! ## The runs of a batch -/

variable (b) in
/-- A run of a batch does to its table what it does in the batch of resources without triggers. -/
theorem applyRun_eq_runWrite (name : ι) (run : List (BatchItem ι φ ω)) (db : Database ρ) :
    b.toBatchRoute.applyRun name run db =
      ((b.runWrite (.edits name run) (db (b.table name))).1,
        Function.update db (b.table name) (b.runWrite (.edits name run) (db (b.table name))).2.2) := by
  have hself : Function.update db (b.table name) (db (b.table name)) = db :=
    Function.update_eq_self _ _
  unfold BatchRoute.applyRun runWrite toWrite
  simp only [RequestRun.resource, bind, Except.bind, pure, Except.pure]
  generalize List.mapM (m := Except ResourceyError) _ run = nodes
  cases nodes with
  | error e => exact congrArg (Prod.mk _) hself.symm
  | ok edits =>
      simp only [SqlResource.writeIn]
      rcases (b.target name).resource.applyEditsIn (b.target name).writes (db (b.table name)) edits
        with ⟨_ | results, rows⟩
      · rfl
      · simp only [ServiceWrite.edits, List.zip_map_left, List.mapM_map]
        rfl

/-- The runs of a batch succeed one after the other exactly if its edits do. -/
theorem applies_batch_iff {runs : List (ι × List (BatchItem ι φ ω))}
    (hruns : ∀ p ∈ runs, ∀ item ∈ p.2, item.resource = p.1) :
    b.Applies db (runs.map fun p => .edits p.1 p.2) db' ↔
      ∃ bodies, b.applyItems db (runs.flatMap Prod.snd) = .ok (bodies, db') := by
  induction runs generalizing db with
  | nil =>
      constructor
      · rintro rfl
        exact ⟨[], rfl⟩
      · rintro ⟨bodies, hitems⟩
        cases hitems
        rfl
  | cons p runs ih =>
      obtain ⟨hrun, hruns⟩ := List.forall_mem_cons.mp hruns
      simp only [List.flatMap_cons, BatchRoute.applyItems_append_iff]
      constructor
      · rintro ⟨bodies, operation, rows, hwrite, happlies⟩
        obtain ⟨rest, hrest⟩ := (ih hruns).mp happlies
        have hwrite : b.runWrite (.edits p.1 p.2) (db (b.table p.1)) =
          (.ok bodies, operation, rows) := hwrite
        refine ⟨bodies ++ rest, bodies, _, rest, (BatchRoute.applyRun_ok_iff hrun).mp ?_, hrest, rfl⟩
        rw [applyRun_eq_runWrite, hwrite]
        rfl
      · rintro ⟨_, bodies, mid, rest, hhead, hrest, -⟩
        have happly := (BatchRoute.applyRun_ok_iff hrun).mpr hhead
        rw [applyRun_eq_runWrite] at happly
        obtain ⟨hbodies, rfl⟩ := Prod.mk.inj happly
        exact ⟨bodies, _, _, Prod.ext hbodies rfl, (ih hruns).mpr ⟨rest, hrest⟩⟩

section Demo

/-- The tables of numbers, one of which has a trigger that is awaited. -/
def numbersRoutes [TextRules] :
    TriggeredRoutes Bool Bool Unit (ℤ × ℤ) ℤ Unit (fun _ => ℤ × ℤ) (fun _ => ℤ × ℤ) where
  toBatchRoute := BatchRoute.numbersBatch
  engine _ := ⟨"sql", [.object 3]⟩
  engine_eq _ := rfl
  triggers i := if i then [()] else []
  background _ := false

/-- The trigger fires for a value that is created in a batch whose second result cannot be shown. -/
theorem not_firesOnlyLasting_numbers :
    letI := TextRules.ascii
    ¬ numbersRoutes.FiresOnlyLasting := by
  let _ := TextRules.ascii
  intro hlasting
  have h := (hlasting (fun _ => false) (fun _ => [])
    (.batchEdit [⟨true, (), .create (1, 5)⟩, ⟨true, (), .update (1, -7) none⟩]) [_]
      (.awaited rfl .nil)).lasting
  exact absurd h.length_eq (by decide)

end Demo

end TriggeredRoutes

end Resourcey
