import Resourcey.Jobs.Runner
import Resourcey.Logic.Trace

/-!
# Terminal jobs do not move

`Keeps j` says of a table that it has unique identifiers and holds exactly the row `j` under that
identifier. Every write of the service but the deletion of `j` keeps it while `j` is terminal
(`EditEffect.keeps`, `update_keeps`), so every step does (`step_keeps`), and `terminal_sticky` is
the induction over runs.
-/

namespace Resourcey

open JobRunner

/-- The table has unique identifiers, and `j` is one of its rows. -/
def HoldsRow (j : Job) (rows : List Job) : Prop :=
  (rows.map Job.id).Nodup ∧ j ∈ rows

/-- The edit is the deletion of a job. -/
def Edit.Deletes (id : ℕ) : Edit JobPayload → Prop
  | .delete v _ => v = Job.uuidValue (some id)
  | _ => False

/-- The action deletes a job, alone or in a batch. -/
def JobsAction.Deletes (id : ℕ) (a : JobsAction) : Prop := ∃ e ∈ a.edits, e.2.Deletes id

instance (id : ℕ) : (e : Edit JobPayload) → Decidable (e.Deletes id)
  | .create _ => .isFalse not_false
  | .update _ _ => .isFalse not_false
  | .delete v _ => inferInstanceAs (Decidable (v = _))

instance (id : ℕ) (a : JobsAction) : Decidable (a.Deletes id) :=
  inferInstanceAs (Decidable (∃ e ∈ a.edits, e.2.Deletes id))

section Terminal

variable {κ : Type} [TextRules] {codec : CursorCodec κ} {config : ℕ → JobsConfig}
  {s t : JobsState κ} {as : List JobsAction} {j : Job} {rows rows' : List Job}

/-- No update changes a terminal row. -/
theorem HoldsRow.update (h : HoldsRow j rows) (hj : j.status.isTerminal = true) {env : JobsEnv}
    {p : JobPayload} {condition : Option SearchFilter} {result : Option Job}
    (hu : JobsService.update env rows p condition = .ok (result, rows')) : HoldsRow j rows' := by
  refine ⟨JobsService.update_ids hu ▸ h.1, ?_⟩
  obtain ⟨gate, hgate, -, rfl⟩ := JobsService.update_ok hu
  refine List.mem_map.mpr ⟨j, h.2, if_neg fun hg => ?_⟩
  exact absurd hj (Bool.eq_false_iff.mp ((hgate j).mp hg).not_terminal)

/-- No edit but its deletion changes a terminal row. -/
theorem HoldsRow.edit (h : HoldsRow j rows) (hj : j.status.isTerminal = true)
    {principal : Option ℕ} {env : JobsEnv} {e : Edit JobPayload} (hdel : ¬ e.Deletes j.id)
    (he : JobsService.EditEffect principal env rows e rows') : HoldsRow j rows' := by
  refine ⟨he.keyed h.1, ?_⟩
  cases he with
  | create _ _ => exact List.mem_append_left _ h.2
  | update hu => exact (h.update hj hu).2
  | delete gate hgate =>
      refine List.mem_filter.mpr ⟨h.2, ?_⟩
      rw [Bool.not_eq_true']
      exact Bool.eq_false_iff.mpr fun hg => hdel (hgate j hg)

/-- No step but its deletion changes a terminal row. -/
theorem HoldsRow.step (h : HoldsRow j s.rows) (hj : j.status.isTerminal = true) {a : JobsAction}
    (hdel : ¬ a.Deletes j.id) (ha : jobsStep codec config s a = some t) : HoldsRow j t.rows := by
  cases step_effect ha with
  | quiet => exact h
  | start => exact h
  | write _ hu => exact h.update hj hu
  | lost => exact h
  | claim _ hu => exact h.update hj hu
  | client hedits =>
      refine SqlResource.applyEdits_invariant (HoldsRow j) (fun hmem hrows he => ?_) hedits h
      exact hrows.edit hj (fun hd => hdel ⟨_, hmem, hd⟩) (JobsService.applyEdit_effect he)
  | refused => exact h

/-- **A terminal job stays as it is.** From a state of unique identifiers, along every run of
runners and clients in which nothing deletes it, a terminal job remains the one row under its
identifier, every column of it as it was, and every update of it answers with no row. -/
theorem terminal_sticky (hids : (s.rows.map Job.id).Nodup) (hj : j ∈ s.rows)
    (hterm : j.status.isTerminal = true)
    (hrun : Trace.Run (jobsStep codec config) (fun _ a => ¬ a.Deletes j.id) s as t) :
    (∀ j', j' ∈ t.rows ∧ j'.id = j.id ↔ j' = j) ∧
      ∀ env p condition result rows', p.id = some j.id →
        JobsService.update env t.rows p condition = .ok (result, rows') →
          result = none ∧ rows' = t.rows := by
  have hkeep : HoldsRow j t.rows :=
    hrun.invariant (fun s => HoldsRow j s.rows) (fun h hdel ha => h.step hterm hdel ha) ⟨hids, hj⟩
  have honly : ∀ j', j' ∈ t.rows ∧ j'.id = j.id ↔ j' = j := by
    intro j'
    constructor
    · rintro ⟨hj', hid⟩
      exact List.inj_on_of_nodup_map hkeep.1 hj' hkeep.2 hid
    · rintro rfl
      exact ⟨hkeep.2, rfl⟩
  refine ⟨honly, fun env p condition result rows' hid hu => ?_⟩
  obtain ⟨gate, hgate, hsome, -⟩ := JobsService.update_ok hu
  cases result with
  | none => exact ⟨rfl, JobsService.update_none hu⟩
  | some r =>
      obtain ⟨j', hj', hg⟩ := hsome.mp rfl
      have hw := (hgate j').mp hg
      have hid' : j'.id = j.id := Option.some.inj (hw.1.symm.trans hid)
      obtain rfl := (honly j').mp ⟨hj', hid'⟩
      exact absurd hterm (Bool.eq_false_iff.mp hw.not_terminal)

omit [TextRules] in
/-- A completed job, which a client then tries to put back and a runner sweeps past. -/
theorem terminal_sticky_completed :
    letI := TextRules.ascii
    let j : Job := { Job.queued 1 2 with status := .completed }
    ∃ t, Trace.exec (jobsStep .plain fun _ => ⟨2, 3600, true⟩) (fun _ a => ¬ a.Deletes 1)
        { rows := [j] } (.client none [(⟨0, 0⟩, .update { id := some 1, status := some .pending }
          (some (.not (statusFilter .pending))))] :: .enter 7 :: sweepActions 7 0 4) = some t ∧
      ∀ j', j' ∈ t.rows ∧ j'.id = 1 ↔ j' = j := by
  let _ := TextRules.ascii
  intro j
  have hrun : (Trace.exec (jobsStep .plain fun _ => ⟨2, 3600, true⟩) (fun _ a => ¬ a.Deletes 1)
      { rows := [j] } (.client none [(⟨0, 0⟩, .update { id := some 1, status := some .pending }
        (some (.not (statusFilter .pending))))] :: .enter 7 :: sweepActions 7 0 4)).isSome
      = true := by decide
  obtain ⟨t, ht⟩ := Option.isSome_iff_exists.mp hrun
  have hrun := Trace.Run.of_exec ht
  have hsticky := terminal_sticky (s := { rows := [j] }) (List.nodup_singleton _)
    (List.mem_singleton_self j) rfl hrun
  exact ⟨t, ht, hsticky.1⟩

end Terminal

end Resourcey
