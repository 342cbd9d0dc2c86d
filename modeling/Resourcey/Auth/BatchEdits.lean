import Resourcey.Auth.ServiceWrapper
import Resourcey.Sql.Session

/-!
# A batch under policies

`AuthorizedService.apply_edits` drops the edits that its policies refuse before it hands a batch on,
folds the policies' filters into the others, and puts the results back in their places. What comes
of that is what the singular calls of the wrapper do, one after the other, a refusal, a miss and an
edit without an identifier being skipped (`oneByOne_permitted`). The inner service is any whose own
batches apply their edits in order (`AppliesInOrder`), as those of the SQL backend do
(`SqlResource.appliesInOrder`), and those of the wrapper again (`AppliesInOrder.service`).
-/

namespace Resourcey

variable {σ α κ π φ : Type}

/-! ## One edit after the other -/

/-- The identifier of the row that an edit is for. A creation is for none yet. -/
def Edit.target (payloadId : π → Value) : Edit π → Option Value
  | .create _ => none
  | .update item _ => some (payloadId item)
  | .delete id _ => some id

/-- The edit is for a row and has no identifier. -/
def Edit.Unnamed (payloadId : π → Value) (edit : Edit π) : Prop :=
  edit.target payloadId = some .none

instance (payloadId : π → Value) (edit : Edit π) : Decidable (edit.Unnamed payloadId) :=
  inferInstanceAs (Decidable (_ = _))

/-- The singular call for an edit, and what it puts in the results: a deletion, nothing. -/
def Service.singular (T : Service σ α κ π φ) (env : φ) :
    Edit π → σ → Except ServiceFailure (Option α) × σ
  | .create item, s =>
    let (created, s) := T.call (.create env item) s
    (created.map some, s)
  | .update item condition, s => T.call (.update env item condition) s
  | .delete id condition, s =>
    let (deleted, s) := T.call (.delete id condition) s
    (deleted.map fun _ => none, s)

/-- A `ForbiddenError` or a `NotFoundError`. -/
def ServiceFailure.isRefusal : ServiceFailure → Bool
  | .raised (.forbidden _ _) | .raised (.notFound _) => true
  | _ => false

/-- A call that is refused is skipped. -/
def skipRefusal : Except ServiceFailure (Option α) → Except ServiceFailure (Option α)
  | .error e => if e.isRefusal then .ok none else .error e
  | .ok result => .ok result

/-- What becomes of an edit by its singular call: an edit without an identifier, and a call that is
refused, are skipped. -/
def Service.edited (T : Service σ α κ π φ) (payloadId : π → Value) (env : φ) (edit : Edit π) (s : σ) :
    Except ServiceFailure (Option α) × σ :=
  if edit.Unnamed payloadId then (.ok none, s)
  else
    let (result, s) := T.singular env edit s
    (skipRefusal result, s)

/-- The singular calls for the edits, one after the other, up to one that raises. -/
def Service.oneByOne (T : Service σ α κ π φ) (payloadId : π → Value) :
    List (φ × Edit π) → σ → Except ServiceFailure (List (Option α)) × σ
  | [], s => (.ok [], s)
  | (env, edit) :: edits, s =>
    match T.edited payloadId env edit s with
    | (.error e, s) => (.error e, s)
    | (.ok result, s) =>
      let (results, s) := oneByOne T payloadId edits s
      (results.map (result :: ·), s)

/-- Batches of edits that are for identified rows are applied in order. -/
def AppliesInOrder (payloadId : π → Value) (T : Service σ α κ π φ) : Prop :=
  ∀ edits : List (φ × Edit π), (∀ e ∈ edits, ¬ e.2.Unnamed payloadId) → ∀ s,
    T.call (.applyEdits edits) s = T.oneByOne payloadId edits s

section OneByOne

variable {T : Service σ α κ π φ} {payloadId : π → Value} {env : φ} {edit : Edit π}
  {edits : List (φ × Edit π)} {s s' : σ}

theorem edited_of_named (h : ¬ edit.Unnamed payloadId) : T.edited payloadId env edit s =
    (skipRefusal (T.singular env edit s).1, (T.singular env edit s).2) := if_neg h

theorem oneByOne_of_ok {result : Option α} (h : T.edited payloadId env edit s = (.ok result, s')) :
    T.oneByOne payloadId ((env, edit) :: edits) s =
      ((T.oneByOne payloadId edits s').1.map (result :: ·), (T.oneByOne payloadId edits s').2) := by
  simp only [Service.oneByOne, h]

theorem oneByOne_of_error {e : ServiceFailure}
    (h : T.edited payloadId env edit s = (.error e, s')) :
    T.oneByOne payloadId ((env, edit) :: edits) s = (.error e, s') := by
  simp only [Service.oneByOne, h]

/-- The results are aligned with the edits. -/
theorem length_oneByOne {results : List (Option α)}
    (h : T.oneByOne payloadId edits s = (.ok results, s')) : results.length = edits.length := by
  induction edits generalizing s results with
  | nil =>
      cases h
      rfl
  | cons e edits ih =>
      obtain ⟨env, edit⟩ := e
      rcases hedit : T.edited payloadId env edit s with ⟨_ | result, s₁⟩
      · rw [oneByOne_of_error hedit] at h
        cases h
      · rw [oneByOne_of_ok hedit] at h
        rcases hrest : T.oneByOne payloadId edits s₁ with ⟨_ | rest, s₂⟩
        · rw [hrest] at h
          cases h
        · rw [hrest] at h
          cases h
          exact congrArg (· + 1) (ih hrest)

end OneByOne

/-! ## The wrapper -/

section Wrapper

variable [TextRules] {a : Authorization α π} {inner : Service σ α κ π φ} {env : φ} {edit : Edit π}
  {s : σ}

/-- An edit that is not passed on is skipped: it has no identifier, or it is a creation that the
policies refuse. -/
theorem edited_of_not_permitted (h : a.permitted env edit = none) :
    (a.service inner).edited a.payloadId env edit s = (.ok none, s) := by
  cases edit with
  | create item =>
      have hdenied : (a.permission (.standard .create)).isNoMatch = true := by
        by_contra hadmits
        simp [Authorization.permitted, hadmits] at h
      have hnamed : ¬ (Edit.create item).Unnamed a.payloadId := nofun
      rw [edited_of_named hnamed]
      simp only [Service.singular, Authorization.service, if_pos hdenied]
      rfl
  | update item condition =>
      have hid : a.payloadId item = .none := by
        by_contra hid
        simp [Authorization.permitted, hid] at h
      exact if_pos (congrArg some hid)
  | delete id condition =>
      have hid : id = .none := by
        by_contra hid
        simp [Authorization.permitted, hid] at h
      exact if_pos (congrArg some hid)

/-- An edit that is passed on does what the inner service does of what is passed on for it. -/
theorem edited_of_permitted (inner : Service σ α κ π φ) (s : σ) {passed : φ × Edit π}
    (h : a.permitted env edit = some passed) :
    ¬ passed.2.Unnamed a.payloadId ∧ (a.service inner).edited a.payloadId env edit s =
      inner.edited a.payloadId passed.1 passed.2 s := by
  cases edit with
  | create item =>
      have hadmits : ¬ (a.permission (.standard .create)).isNoMatch = true := by
        intro hdenied
        simp [Authorization.permitted, hdenied] at h
      simp only [Authorization.permitted, if_neg hadmits, Option.some.injEq] at h
      subst h
      have hnamed : ¬ (Edit.create item).Unnamed a.payloadId := nofun
      refine ⟨hnamed, ?_⟩
      rw [edited_of_named hnamed, edited_of_named hnamed]
      simp only [Service.singular, Authorization.service, if_neg hadmits]
  | update item condition =>
      have hid : a.payloadId item ≠ .none := by
        intro hid
        simp [Authorization.permitted, hid] at h
      simp only [Authorization.permitted, if_neg hid, Option.some.injEq] at h
      subst h
      have hnamed {c : Option SearchFilter} : ¬ (Edit.update item c).Unnamed a.payloadId :=
        fun h => hid (Option.some.inj h)
      refine ⟨hnamed, ?_⟩
      rw [edited_of_named hnamed, edited_of_named hnamed, Service.singular,
        Authorization.service_update, Service.singular]
      rcases inner.call (.update env item
        (some (combine (a.permission (.standard .update)) condition))) s with ⟨_ | _ | r, s'⟩
      · rfl
      · rfl
      · rfl
  | delete id condition =>
      have hid : id ≠ .none := by
        intro hid
        simp [Authorization.permitted, hid] at h
      simp only [Authorization.permitted, if_neg hid, Option.some.injEq] at h
      subst h
      have hnamed {c : Option SearchFilter} :
          ¬ (Edit.delete (π := π) id c).Unnamed a.payloadId :=
        fun h => hid (Option.some.inj h)
      refine ⟨hnamed, ?_⟩
      rw [edited_of_named hnamed, edited_of_named hnamed, Service.singular,
        Authorization.service_delete, Service.singular]
      rcases inner.call (.delete id
        (some (combine (a.permission (.standard .delete)) condition))) s with ⟨_ | _ | _, s'⟩
      · rfl
      · rfl
      · rfl

/-- **The edits that are passed on, one by one, with the results put in their places, are the
singular calls of the wrapper.** By induction on the batch. -/
theorem oneByOne_permitted (a : Authorization α π) (inner : Service σ α κ π φ)
    (edits : List (φ × Edit π)) (s : σ) :
    let passed := edits.map fun e => a.permitted e.1 e.2
    ((inner.oneByOne a.payloadId (passed.filterMap id) s).1.map
        (spread (passed.map Option.isSome)),
      (inner.oneByOne a.payloadId (passed.filterMap id) s).2) =
      (a.service inner).oneByOne a.payloadId edits s := by
  induction edits generalizing s with
  | nil => rfl
  | cons e edits ih =>
      obtain ⟨env, edit⟩ := e
      intro passed
      simp only [passed, List.map_cons]
      cases hpassed : a.permitted env edit with
      | none =>
          rw [oneByOne_of_ok (edited_of_not_permitted hpassed), ← ih s]
          simp only [List.filterMap_cons_none, id_eq, Option.isSome_none]
          cases (inner.oneByOne a.payloadId _ s).1 with
          | error e => rfl
          | ok results => rfl
      | some passed =>
          obtain ⟨envPassed, editPassed⟩ := passed
          have hedited := (edited_of_permitted inner s hpassed).2
          rw [List.filterMap_cons_some (f := id) (b := (envPassed, editPassed)) rfl]
          rcases hinner : inner.edited a.payloadId envPassed editPassed s with ⟨_ | result, s'⟩
          · rw [oneByOne_of_error hinner, oneByOne_of_error (hedited.trans hinner)]
            rfl
          · rw [oneByOne_of_ok hinner, oneByOne_of_ok (hedited.trans hinner), ← ih s']
            cases (inner.oneByOne a.payloadId _ s').1 with
            | error e => rfl
            | ok results => rfl

/-- A batch of the wrapper over a service that applies its batches in order. -/
theorem applyEdits_eq_oneByOne (h : AppliesInOrder a.payloadId inner) (edits : List (φ × Edit π))
    (s : σ) : (a.service inner).call (.applyEdits edits) s =
      (a.service inner).oneByOne a.payloadId edits s := by
  have hnamed : ∀ e ∈ (edits.map fun e => a.permitted e.1 e.2).filterMap id,
      ¬ e.2.Unnamed a.payloadId := by
    intro e he
    simp only [List.filterMap_map, List.mem_filterMap, Function.comp_apply, id_eq] at he
    obtain ⟨e', -, he'⟩ := he
    exact (edited_of_permitted inner s he').1
  have hbatch := oneByOne_permitted a inner edits s
  show a.applyEdits inner edits s = _
  rw [Authorization.applyEdits]
  split
  · rename_i hempty
    have hmissed : ∀ e ∈ edits, (a.permitted e.1 e.2).isSome = false := by
      intro e he
      have hnone := List.filterMap_eq_nil_iff.mp hempty _ (List.mem_map_of_mem he)
      exact Option.isSome_eq_false_iff.mpr (Option.isNone_iff_eq_none.mpr hnone)
    have hspread := spread_nil (α := α) hmissed
    rw [← hbatch, hempty, List.map_map]
    exact Prod.ext (congrArg Except.ok hspread.symm) rfl
  · rw [h _ hnamed]
    exact hbatch

/-- The wrapper applies its batches in order, so it may be wrapped again. -/
theorem AppliesInOrder.service (h : AppliesInOrder a.payloadId inner) :
    AppliesInOrder a.payloadId (a.service inner) :=
  fun edits _ s => applyEdits_eq_oneByOne h edits s

/-- **A batch under policies is the sequence of its singular calls.** It leaves the store that they
leave and raises what they raise, and there is a result for every edit: the singular call's for a
creation or an update that is applied, and none for a deletion, a miss and a refusal. -/
theorem applyEdits_is_singular_calls (h : AppliesInOrder a.payloadId inner)
    (edits : List (φ × Edit π)) (s : σ) :
    (a.service inner).call (.applyEdits edits) s =
        (a.service inner).oneByOne a.payloadId edits s ∧
      ∀ results s', (a.service inner).call (.applyEdits edits) s = (.ok results, s') →
        List.length results = edits.length := by
  refine ⟨applyEdits_eq_oneByOne h edits s, fun results s' hok => ?_⟩
  rw [applyEdits_eq_oneByOne h edits s] at hok
  exact length_oneByOne hok

end Wrapper

/-! ## The SQL backend -/

namespace SqlResource

variable [TextRules] {ρ : Type} {r : SqlResource ρ π φ} {codec : CursorCodec κ}

/-- A condition is applied, or it is not supported. -/
theorem applyCondition_error {condition : Option SearchFilter} {e : ResourceyError}
    (h : r.applyCondition condition = .error e) : ∃ message, e = .unsupportedFilter message := by
  rcases r.applyCondition_cases condition with ⟨-, conditions, hc⟩ | ⟨-, message, hc⟩
  · rw [hc] at h
    cases h
  · rw [hc] at h
    cases h
    exact ⟨message, rfl⟩

/-- An action of the backend on an identified row raises no refusal: a row that was written is read
back. -/
theorem not_isRefusal_of_update (hwrite : ∀ item row, r.idOf (r.write item row) = r.idOf row)
    {env : φ} {rows : List ρ} {item : π} {condition : Option SearchFilter} {e : ResourceyError}
    (h : r.update env rows item condition = .error e) :
    (ServiceFailure.raised e).isRefusal = false := by
  by_cases hid : r.payloadId item = .none
  · rw [update, if_pos hid] at h
    cases h
    rfl
  · cases hc : r.applyCondition condition with
    | ok conditions =>
        have hupdate : ∃ result rows', r.update env rows item condition = .ok (result, rows') :=
          exists_update hid hc hwrite
        obtain ⟨result, rows', hok⟩ := hupdate
        rw [hok] at h
        cases h
    | error e' =>
        obtain ⟨message, rfl⟩ := applyCondition_error hc
        rw [update, if_neg hid, hc] at h
        cases h
        rfl

theorem not_isRefusal_of_delete {rows : List ρ} {id : Value} {condition : Option SearchFilter}
    {e : ResourceyError} (h : r.delete rows id condition = .error e) :
    (ServiceFailure.raised e).isRefusal = false := by
  rcases bind_eq_error.mp h with hc | ⟨conditions, -, h⟩
  · obtain ⟨message, rfl⟩ := applyCondition_error hc
    rfl
  · cases h

omit [TextRules] in
theorem not_isRefusal_of_create {env : φ} {rows : List ρ} {item : π} {e : ResourceyError}
    (h : r.create env rows item = .error e) : (ServiceFailure.raised e).isRefusal = false := by
  rw [create] at h
  split at h
  · cases h
    rfl
  · split at h
    · cases h
      rfl
    · cases h

/-- What the backend does of one edit of a batch is what comes of its singular call. -/
theorem edited_eq (codec : CursorCodec κ)
    (hall : ∀ action, action = .create ∨ action = .update ∨ action = .delete →
      action ∈ r.supported)
    (hwrite : ∀ item row, r.idOf (r.write item row) = r.idOf row) (env : φ) {edit : Edit π}
    (hnamed : ¬ edit.Unnamed r.payloadId) (rows : List ρ) :
    (r.service codec).edited r.payloadId env edit rows =
      match r.applyEdit r.writeActions env rows edit with
      | .error e => (.error (.raised e), rows)
      | .ok (result, rows') => (.ok result, rows') := by
  rw [edited_of_named hnamed]
  cases edit with
  | create item =>
      have hsup : ¬ Action.create ∉ r.supported := fun h => h (hall _ (.inl rfl))
      simp only [applyEdit, if_neg hsup, writeActions, Service.singular, SqlResource.service]
      cases hcall : r.create env rows item with
      | error e => simp [skipRefusal, Except.map, not_isRefusal_of_create hcall, bind, Except.bind]
      | ok out => rfl
  | update item condition =>
      have hsup : ¬ Action.update ∉ r.supported := fun h => h (hall _ (.inr (.inl rfl)))
      simp only [applyEdit, if_neg hsup, writeActions, Service.singular, SqlResource.service]
      cases hcall : r.update env rows item condition with
      | error e => simp [skipRefusal, not_isRefusal_of_update hwrite hcall]
      | ok out => rfl
  | delete id condition =>
      have hsup : ¬ Action.delete ∉ r.supported := fun h => h (hall _ (.inr (.inr rfl)))
      simp only [applyEdit, if_neg hsup, writeActions, Service.singular, SqlResource.service]
      cases hcall : r.delete rows id condition with
      | error e => simp [skipRefusal, Except.map, not_isRefusal_of_delete hcall, bind, Except.bind]
      | ok out => rfl

/-- **The SQL backend applies its batches in order**, if its resource supports all three kinds of
edit and a write keeps the identifier. -/
theorem appliesInOrder (hall : ∀ action, action = .create ∨ action = .update ∨ action = .delete →
      action ∈ r.supported)
    (hwrite : ∀ item row, r.idOf (r.write item row) = r.idOf row) :
    AppliesInOrder r.payloadId (r.service codec) := by
  intro edits hnamed rows
  show ((r.applyEditsIn r.writeActions rows edits).1.mapError ServiceFailure.raised,
    (r.applyEditsIn r.writeActions rows edits).2) = _
  induction edits generalizing rows with
  | nil => rfl
  | cons e edits ih =>
      obtain ⟨env, edit⟩ := e
      obtain ⟨hedit, hedits⟩ := List.forall_mem_cons.mp hnamed
      have hedited := edited_eq codec hall hwrite env hedit rows
      cases hstep : r.applyEdit r.writeActions env rows edit with
      | error e =>
          rw [hstep] at hedited
          rw [oneByOne_of_error hedited]
          simp only [applyEditsIn, hstep]
          rfl
      | ok out =>
          obtain ⟨result, rows'⟩ := out
          rw [hstep] at hedited
          rw [oneByOne_of_ok hedited, ← ih hedits rows']
          simp only [applyEditsIn, hstep]
          cases (r.applyEditsIn r.writeActions rows' edits).1 with
          | error e => rfl
          | ok results => rfl

end SqlResource

/-- A principal that may write the first row and create none: of five edits one is applied. -/
theorem applyEdits_is_singular_calls_acl :
    let r : SqlResource (ℤ × ℤ) (ℤ × ℤ) Unit :=
      { name := "numbers", columnForAttr := some, queryable := fun _ => true
        sortable := fun _ => true, idColumn := "id", supported := [.create, .update, .delete]
        row := fun row name => .scalar (.int (if name = "id" then row.1 else row.2))
        payloadId := fun p => .scalar (.int p.1), withDefaults := fun _ _ p => p
        hasData := fun _ => true, write := fun p row => (row.1, p.2), insert := fun _ p => .ok p }
    let a : Authorization (ℤ × ℤ) (ℤ × ℤ) :=
      { policies := [.acl [.scalar (.int 1)] "id" .denyAll], userId := none
        resourceName := "Number", toDto := r.toDto, payloadId := r.payloadId }
    let edits : List (Unit × Edit (ℤ × ℤ)) := [((), .create (3, 0)), ((), .update (1, 9) none),
      ((), .update (2, 9) none), ((), .delete .none none), ((), .delete (.scalar (.int 2)) none)]
    letI := TextRules.ascii
    (a.service (r.service .plain)).call (.applyEdits edits) [(1, 5), (2, 6)] =
        (a.service (r.service .plain)).oneByOne a.payloadId edits [(1, 5), (2, 6)] ∧
      ∀ results s', (a.service (r.service .plain)).call (.applyEdits edits) [(1, 5), (2, 6)] =
        (.ok results, s') → List.length results = edits.length := by
  intro r a edits
  let _ := TextRules.ascii
  have hall : ∀ action, action = .create ∨ action = .update ∨ action = .delete →
      action ∈ r.supported := by
    rintro action (rfl | rfl | rfl) <;> simp [r]
  have hinner : AppliesInOrder a.payloadId (r.service .plain) :=
    SqlResource.appliesInOrder hall fun _ _ => rfl
  exact applyEdits_is_singular_calls hinner edits [(1, 5), (2, 6)]

end Resourcey
