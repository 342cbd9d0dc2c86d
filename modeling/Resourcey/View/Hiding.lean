import Resourcey.View.ResourceView

/-!
# What a view hides

`redact` is a row without the values of the fields that are in no response shape of a view. The
routes of the view answer a request on a table as they do on the redacted one, and leave tables that
are equal once redacted (`handle_redact`): the surface of the view has no name of a hidden field, and
neither the order, the cursor nor the projections look at one. A condition of `/batch-edit` does not
go through that surface. The inner resource converts it with its own queryable fields, so a condition
on a hidden field tells its value; `handleAll_eq_of_redact_eq` is about the runs without one.
-/

namespace Resourcey

open SearchFilter

/-! ## Filters that avoid some names -/

mutual

/-- The filter names none of the attributes, and an application's own node looks at none. -/
def SearchFilter.Avoids (hidden : String → Prop) : SearchFilter → Prop
  | .attr name f => ¬ hidden name ∧ f.Avoids hidden
  | .not f | .object _ f => f.Avoids hidden
  | .and fs | .or fs => SearchFilter.AvoidsAll hidden fs
  | .custom _ test => ∀ x y : String → Value, (∀ name, ¬ hidden name → x name = y name) →
    test (.object x) = test (.object y)
  | _ => True

/-- Each filter of a list does. -/
def SearchFilter.AvoidsAll (hidden : String → Prop) : List SearchFilter → Prop
  | [] => True
  | f :: fs => f.Avoids hidden ∧ SearchFilter.AvoidsAll hidden fs

end

section
variable {hidden : String → Prop}

theorem SearchFilter.avoidsAll_iff {fs : List SearchFilter} :
    SearchFilter.AvoidsAll hidden fs ↔ ∀ f ∈ fs, f.Avoids hidden := by
  induction fs with
  | nil => exact ⟨fun _ => nofun, fun _ => trivial⟩
  | cons f fs ih => rw [SearchFilter.AvoidsAll, ih, List.forall_mem_cons]

/-- A leaf names no attribute. -/
theorem avoids_of_leafFor {op : String} {v : Value} {leaf : SearchFilter}
    (h : leafFor op v = some leaf) : leaf.Avoids hidden := by
  unfold leafFor at h
  split at h <;> cases h <;> trivial

/-- A filter of clauses names the attributes of the clauses. -/
theorem avoids_buildFilter {clauses : List Clause} {f : SearchFilter}
    (h : ∀ c ∈ clauses, ¬ hidden c.1) (hf : buildFilter clauses = some f) : f.Avoids hidden := by
  have hchildren : ∀ children, (clauses.mapM fun c => (leafFor c.2.1 c.2.2).map (attr_ c.1)) =
      some children → ∀ g ∈ children, g.Avoids hidden := by
    clear hf
    induction clauses with
    | nil =>
        rintro _ ⟨⟩
        nofun
    | cons c clauses ih =>
        intro children hmap
        obtain ⟨hc, hclauses⟩ := List.forall_mem_cons.mp h
        rw [List.mapM_cons] at hmap
        obtain ⟨g, hg, hmap⟩ := Option.bind_eq_some_iff.mp hmap
        obtain ⟨rest, hrest, hmap⟩ := Option.bind_eq_some_iff.mp hmap
        cases hmap
        obtain ⟨leaf, hleaf, rfl⟩ := Option.map_eq_some_iff.mp hg
        have hleaf : leaf.Avoids hidden := avoids_of_leafFor hleaf
        refine List.forall_mem_cons.mpr ⟨?_, ih hclauses rest hrest⟩
        cases leaf with
        | all | noMatch => trivial
        | _ => exact ⟨hc, hleaf⟩
  obtain ⟨children, hmap, hf⟩ := Option.bind_eq_some_iff.mp hf
  cases hf
  exact and_induction trivial trivial (fun fs => avoidsAll_iff) (hchildren children hmap)

variable [TextRules]

/-- In memory a filter does not see what it avoids. -/
theorem SearchFilter.Avoids.matches_eq {f : SearchFilter} (hf : f.Avoids hidden)
    {x y : String → Value} (hxy : ∀ name, ¬ hidden name → x name = y name) :
    f.matches (.object x) = f.matches (.object y) := by
  induction f using SearchFilter.induction with
  | all | noMatch | eq | order | contains | isIn => rfl
  | and fs ih =>
      rw [«matches», «matches»]
      induction fs with
      | nil => rfl
      | cons f fs ihs =>
          rw [matchesAll, matchesAll, ih f (.head _) hf.1, ihs (fun g hg => ih g (.tail _ hg)) hf.2]
  | or fs ih =>
      rw [«matches», «matches»]
      induction fs with
      | nil => rfl
      | cons f fs ihs =>
          rw [matchesAny, matchesAny, ih f (.head _) hf.1, ihs (fun g hg => ih g (.tail _ hg)) hf.2]
  | not f ih => rw [«matches», «matches», ih hf]
  | attr name f _ => rw [«matches», «matches», Subject.get, Subject.get, hxy name hf.1]
  | object fields f ih => exact ih hf
  | custom kind test => rw [«matches», «matches», hf x y hxy]

/-- Conditions that do not tell two rows apart. -/
theorem evalList_eq_of_conditions {ctx : SqlFilterContext} {row row' : SqlRow}
    {fs : List SearchFilter} {column : Option String} {negated : Bool} {es : List SqlExpr}
    (h : ∀ f ∈ fs, ∀ e, condition ctx f column negated = .ok e → e.eval row = e.eval row')
    (hes : conditions ctx fs column negated = .ok es) :
    SqlExpr.evalList es row = SqlExpr.evalList es row' := by
  induction fs generalizing es with
  | nil =>
      cases hes
      rfl
  | cons f fs ih =>
      obtain ⟨e, he, hes⟩ := bind_eq_ok.mp hes
      obtain ⟨es', hes', hes⟩ := bind_eq_ok.mp hes
      cases hes
      rw [SqlExpr.evalList, SqlExpr.evalList, h f (.head _) e he,
        ih (fun g hg => h g (.tail _ hg)) hes']

/-- The condition of a leaf is read off the bound column. -/
theorem eval_eq_of_valueRule {kind : String} {operator : ValueOperator} {column : Option String}
    {negated : Bool} {e : SqlExpr} {row row' : SqlRow}
    (hcolumn : ∀ c ∈ column, row c = row' c)
    (hpos : ∀ c, row c = row' c → (operator.positive c).eval row = (operator.positive c).eval row')
    (hneg : ∀ c, row c = row' c → (operator.negated c).eval row = (operator.negated c).eval row')
    (he : valueRule kind operator column negated = .ok e) : e.eval row = e.eval row' := by
  cases column with
  | none => cases he
  | some c =>
      cases he
      have hc := hcolumn c rfl
      cases negated with
      | true => exact hneg c hc
      | false => exact hpos c hc

/-- In SQL a filter does not see what it avoids. -/
theorem SearchFilter.Avoids.eval_eq {ctx : SqlFilterContext} {row row' : SqlRow}
    (hctx : ∀ name c, ¬ hidden name → ctx.columns name = some c → row c = row' c)
    {f : SearchFilter} (hf : f.Avoids hidden) {column : Option String} {negated : Bool}
    {e : SqlExpr} (hcolumn : ∀ c ∈ column, row c = row' c)
    (he : condition ctx f column negated = .ok e) : e.eval row = e.eval row' := by
  induction f using SearchFilter.induction generalizing column negated e with
  | all | noMatch =>
      cases he
      rfl
  | and fs ih =>
      obtain ⟨es, hes, he⟩ := bind_eq_ok.mp he
      cases he
      have heval := evalList_eq_of_conditions
        (fun f hmem e => ih f hmem (avoidsAll_iff.mp hf f hmem) hcolumn) hes
      split <;> split <;> simp only [SqlExpr.eval, heval]
  | or fs ih =>
      obtain ⟨es, hes, he⟩ := bind_eq_ok.mp he
      cases he
      have heval := evalList_eq_of_conditions
        (fun f hmem e => ih f hmem (avoidsAll_iff.mp hf f hmem) hcolumn) hes
      split <;> split <;> simp only [SqlExpr.eval, heval]
  | not f ih => exact ih hf hcolumn he
  | attr name f ih =>
      obtain ⟨c, hc, he⟩ := bind_eq_ok.mp he
      refine ih hf.2 (fun c' hc' => ?_) he
      cases hc'
      rw [SqlFilterContext.columnFor] at hc
      split at hc
      · next hname =>
          cases hc
          exact hctx name _ hf.1 hname
      · cases hc
  | object fields f ih => exact ih hf hcolumn he
  | eq v =>
      refine eval_eq_of_valueRule hcolumn (fun c hc => ?_) (fun c hc => ?_) he
      · by_cases hv : v = .none <;> simp [eqOperator, hv, SqlExpr.eval, hc]
      · by_cases hv : v = .none <;> simp [eqOperator, hv, SqlExpr.eval, hc]
  | order op v =>
      refine eval_eq_of_valueRule hcolumn (fun c hc => ?_) (fun c hc => ?_) he
      · simp [orderOperator, SqlExpr.eval, hc]
      · simp [orderOperator, SqlExpr.eval, SqlExpr.evalList, hc]
  | contains v =>
      refine eval_eq_of_valueRule hcolumn (fun c hc => ?_) (fun c hc => ?_) he
      · simp [containsOperator, SqlExpr.eval, hc]
      · simp [containsOperator, SqlExpr.eval, SqlExpr.evalList, hc]
  | isIn vs =>
      refine eval_eq_of_valueRule hcolumn (fun c hc => ?_) (fun c hc => ?_) he
      · by_cases hvs : vs = [] <;> simp [inOperator, hvs, SqlExpr.eval, hc]
      · by_cases hvs : vs = [] <;> simp [inOperator, hvs, SqlExpr.eval, SqlExpr.evalList, hc]
  | custom kind test => cases he

end

/-- The condition of an edit. -/
def Edit.condition {π : Type} : Edit π → Option SearchFilter
  | .create _ => none
  | .update _ condition | .delete _ condition => condition

/-! ## Redaction -/

namespace ResourceView

variable {φ κ : Type} (v : ResourceView φ)

/-- A field that is in no response shape. -/
def Hidden (name : String) : Prop :=
  (∃ f ∈ v.inner.fields, f.attr = name) ∧ ∀ s, v.shape s name = false

/-- Whether a column is that of a hidden field. -/
def hidesColumn (c : String) : Bool :=
  v.inner.fields.any fun f => f.column = c &&
    [.create, .read, .update, .search].all fun s => !v.shape s f.attr

/-- A row without the values of the hidden fields. -/
def redact (row : SqlRow) : SqlRow := fun c => if v.hidesColumn c then .none else row c

/-- A condition that does not see the values of hidden fields. -/
def Blind [TextRules] (es : List SqlExpr) : Prop :=
  ∀ e ∈ es, ∀ row, e.eval (v.redact row) = e.eval row

variable {v}

theorem hidesColumn_iff {c : String} :
    v.hidesColumn c = true ↔ ∃ f ∈ v.inner.fields, f.column = c ∧ v.Hidden f.attr := by
  simp only [hidesColumn, List.any_eq_true, Bool.and_eq_true, decide_eq_true_eq]
  refine exists_congr fun f => and_congr_right fun hf => and_congr_right fun _ => ?_
  simp only [List.all_cons, List.all_nil, Bool.and_true, Bool.and_eq_true, Bool.not_eq_true']
  constructor
  · rintro ⟨hcreate, hread, hupdate, hsearch⟩
    refine ⟨⟨f, hf, rfl⟩, fun s => ?_⟩
    cases s <;> assumption
  · rintro ⟨-, h⟩
    exact ⟨h _, h _, h _, h _⟩

theorem redact_redact (row : SqlRow) : v.redact (v.redact row) = v.redact row := by
  funext c
  unfold redact
  split <;> rfl

/-- The value of a field that is not hidden stays. -/
theorem redact_column {f : MappedField φ} (hf : f ∈ v.inner.fields) (h : ¬ v.Hidden f.attr)
    (row : SqlRow) : v.redact row f.column = row f.column := by
  refine if_neg fun hhides => ?_
  obtain ⟨g, hg, hcolumn, hhidden⟩ := hidesColumn_iff.mp hhides
  rw [v.inner.column_inj g hg f hf hcolumn] at hhidden
  exact h hhidden

/-- What is written is not hidden from what was there. -/
theorem redact_setColumns (columns : List (String × Value)) (row : SqlRow) :
    v.redact (MappedModel.setColumns columns (v.redact row)) =
      v.redact (MappedModel.setColumns columns row) := by
  funext c
  cases hc : v.hidesColumn c with
  | true => simp [redact, hc]
  | false => simp [redact, MappedModel.setColumns, hc]

theorem exists_columnForAttr {m : MappedModel φ} {name c : String}
    (h : m.columnForAttr name = some c) : ∃ f ∈ m.fields, f.attr = name ∧ f.column = c := by
  obtain ⟨f, hf, rfl⟩ := Option.map_eq_some_iff.mp h
  have hname := List.find?_some hf
  exact ⟨f, List.mem_of_find?_eq_some hf, of_decide_eq_true hname, rfl⟩

/-- The identifier is in the read model. -/
theorem not_hidden_id : ¬ v.Hidden v.inner.idField.attr := by
  intro h
  have hnone : v.fieldOverrides.lookup v.inner.idField.attr = none := by
    refine List.lookup_eq_none_iff.mpr fun o ho => ?_
    exact bne_iff_ne.mpr (v.id_not_overridden o ho).symm
  have hread := h.2 .read
  rw [shape, hnone] at hread
  exact absurd (v.id_readable.symm.trans hread) Bool.noConfusion

theorem redact_id (row : SqlRow) :
    v.redact row v.inner.resource.idColumn = row v.inner.resource.idColumn :=
  redact_column v.inner.idField_mem not_hidden_id row

theorem not_hidden_of_readField {name : String} (h : v.readField name = true) :
    ¬ v.Hidden name := by
  intro hhidden
  have hread := (Bool.and_eq_true_iff.mp h).2
  rw [hhidden.2 .read] at hread
  cases hread

/-- A field of the read model has a column, whose value stays. -/
theorem redact_readField {name : String} (h : v.readField name = true) (row : SqlRow) :
    v.redact row (v.inner.resource.getColumnName name) =
      row (v.inner.resource.getColumnName name) := by
  obtain ⟨f, hf, hname⟩ := List.any_eq_true.mp (Bool.and_eq_true_iff.mp h).1
  obtain rfl := of_decide_eq_true hname
  have hcolumn : v.inner.resource.getColumnName f.attr = f.column := by
    show (v.inner.columnForAttr f.attr).getD f.attr = f.column
    rw [MappedModel.columnForAttr, MappedModel.find_key v.inner.attr_inj hf]
    rfl
  rw [hcolumn]
  exact redact_column hf (not_hidden_of_readField h) row

theorem redact_columnForAttr {name c : String} (h : v.inner.columnForAttr name = some c)
    (hname : ¬ v.Hidden name) (row : SqlRow) : v.redact row c = row c := by
  obtain ⟨f, hf, rfl, rfl⟩ := exists_columnForAttr h
  exact redact_column hf hname row

/-- A projection shows no hidden field. -/
theorem project_redact (s : ResponseShape) (row : SqlRow) :
    v.project s (v.redact row) = v.project s row := by
  refine List.map_congr_left fun f hf => ?_
  obtain ⟨hf, hshape⟩ := List.mem_filter.mp hf
  have hhidden : ¬ v.Hidden f.attr := fun h => by simp [h.2 s] at hshape
  rw [redact_column hf hhidden]

theorem project_comp_redact (s : ResponseShape) : v.project s ∘ v.redact = v.project s :=
  funext (project_redact s)

/-! ## Reads -/

variable [TextRules] {rows : List SqlRow}

theorem Blind.selects {es : List SqlExpr} (h : v.Blind es) (row : SqlRow) :
    v.inner.resource.selects es (v.redact row) = v.inner.resource.selects es row := by
  rw [Bool.eq_iff_iff, SqlTable.selects, SqlTable.selects, List.all_eq_true, List.all_eq_true]
  refine forall₂_congr fun e he => ?_
  show e.keeps (v.redact row) = true ↔ e.keeps row = true
  rw [SqlExpr.keeps, SqlExpr.keeps, h e he row]

/-- The conditions of a filter that avoids the hidden fields. -/
theorem blind_whereClause {hidden : String → Prop} {f : SearchFilter} {es : List SqlExpr}
    (hhidden : ∀ name, ¬ hidden name → ¬ v.Hidden name)
    (h : whereClause v.inner.resource.filterContext f = .ok es)
    (hf : (∃ e, condition v.inner.resource.filterContext f none false = .ok e) →
      f.Avoids hidden) : v.Blind es := by
  obtain ⟨e, he, hes⟩ := bind_eq_ok.mp h
  have heval (row : SqlRow) : e.eval (v.redact row) = e.eval row := by
    refine (hf ⟨e, he⟩).eval_eq (fun name c hname hc => ?_) (by simp) he
    exact redact_columnForAttr (Option.ite_none_right_eq_some.mp hc).2 (hhidden name hname) row
  intro e' he' row
  split at hes
  · cases hes
    cases he'
  · cases hes
    rw [List.mem_singleton.mp he']
    exact heval row

/-- A filter over the read model. -/
def OverReadModel (v : ResourceView φ) (f : SearchFilter) : Prop :=
  f.Avoids fun name => v.readField name = false

/-- A scan finds the same rows. -/
theorem survivingRows_redact {f : SearchFilter} (hf : v.OverReadModel f) :
    v.inner.resource.survivingRows f (rows.map v.redact) =
      (v.inner.resource.survivingRows f rows).map (List.map v.redact) := by
  have hmatch (row : SqlRow) : v.inner.resource.matchesRow f (v.redact row) =
      v.inner.resource.matchesRow f row := by
    refine congrArg (Except.mapError ResourceyError.typeError) (hf.matches_eq fun name hname => ?_)
    exact redact_readField (Bool.eq_true_of_not_eq_false hname) row
  induction rows with
  | nil => rfl
  | cons row rows ih =>
      rw [List.map_cons, SqlTable.survivingRows, SqlTable.survivingRows, hmatch, ih]
      cases v.inner.resource.matchesRow f row with
      | error e => rfl
      | ok b =>
          cases v.inner.resource.survivingRows f rows with
          | error e => rfl
          | ok surviving => cases b <;> rfl

/-- **A filter over the read model** adds the same conditions to a read of the redacted table, and
they do not see the values of hidden fields. -/
theorem applyFilters_redact (rows : List SqlRow) {f : Option SearchFilter}
    (hf : ∀ g ∈ f, v.OverReadModel g) :
    v.inner.resource.applyFilters (rows.map v.redact) f = v.inner.resource.applyFilters rows f ∧
      ∀ es, v.inner.resource.applyFilters rows f = .ok es → v.Blind es := by
  cases f with
  | none => exact ⟨rfl, by rintro _ ⟨⟩; nofun⟩
  | some f =>
      have hf : v.OverReadModel f := hf f rfl
      have hids : v.inner.resource.filtersByIteration (rows.map v.redact) f =
          v.inner.resource.filtersByIteration rows f := by
        rw [SqlTable.filtersByIteration, SqlTable.filtersByIteration, survivingRows_redact hf]
        cases v.inner.resource.survivingRows f rows with
        | error e => rfl
        | ok surviving =>
            have hmap : (surviving.map v.redact).map v.inner.resource.idOf =
                surviving.map v.inner.resource.idOf := by
              rw [List.map_map]
              exact List.map_congr_left fun row _ => redact_id row
            show Except.ok [SqlExpr.isIn _ ((surviving.map v.redact).map _)] = _
            rw [hmap]
            rfl
      have hscan : ∀ es, v.inner.resource.filtersByIteration rows f = .ok es → v.Blind es := by
        intro es hes
        obtain ⟨surviving, -, hes⟩ := bind_eq_ok.mp hes
        cases hes
        refine List.forall_mem_singleton.mpr fun row => ?_
        simp only [SqlExpr.eval]
        rw [redact_id]
      have hread (name : String) (hname : ¬ v.readField name = false) : ¬ v.Hidden name :=
        not_hidden_of_readField (Bool.eq_true_of_not_eq_false hname)
      rw [SqlTable.applyFilters, SqlTable.applyFilters, hids]
      refine ⟨rfl, fun es hes => ?_⟩
      split at hes
      · split at hes
        · exact hscan es hes
        · cases hes
      · exact blind_whereClause hread hes fun _ => hf

omit [TextRules] in
/-- The filters of a request are over the read model. -/
theorem overReadModel_of_resolveFilters {filters : List (String × Value)}
    {f : Option SearchFilter} (h : v.resolveFilters filters = .ok f) :
    ∀ g ∈ f, v.OverReadModel g := by
  rw [resolveFilters] at h
  split at h
  · cases h
    nofun
  · split at h
    · cases h
    · simp only at h
      split at h
      · cases h
      · next hknown =>
          cases h
          intro g hg
          refine avoids_buildFilter (fun c hc => ?_) hg
          obtain ⟨p, hp, hname⟩ := List.mem_filterMap.mp hc
          have hp : v.knownFilter p.1 = true := by
            simpa using List.filter_eq_nil_iff.mp (not_ne_iff.mp hknown) p hp
          obtain ⟨⟨name, op⟩, hclause, rfl⟩ := Option.map_eq_some_iff.mp hname
          rw [knownFilter, hclause] at hp
          intro hread
          simp [filterOperators, hread] at hp

omit [TextRules] in
/-- The column of a sort over the read model. -/
theorem redact_sortColumn {o : SortOrder} (ho : v.readField o.attrName = true) {c : String}
    (h : v.inner.resource.sortColumnFor o.attrName = .ok c) (row : SqlRow) :
    v.redact row c = row c := by
  unfold SqlTable.sortColumnFor at h
  split at h
  · next hname =>
      cases h
      exact redact_columnForAttr (Option.ite_none_right_eq_some.mp hname).2
        (not_hidden_of_readField ho) row
  · cases h

omit [TextRules] in
/-- The order of a sort over the read model does not look at hidden fields. -/
theorem applySort_redact {sort : Option SortOrder}
    (hsort : ∀ o ∈ sort, v.readField o.attrName = true) {order : List OrderTerm}
    (h : v.inner.resource.applySort sort = .ok order) (a b : SqlRow) :
    orderCompare order (v.redact a) (v.redact b) = orderCompare order a b := by
  have hterms : ∀ t ∈ order, ∀ row, v.redact row t.column = row t.column := by
    cases sort with
    | none =>
        cases h
        exact List.forall_mem_singleton.mpr redact_id
    | some o =>
        obtain ⟨c, hc, h⟩ := bind_eq_ok.mp h
        cases h
        have hattr : (attrOrder c o.descending).column = c := by
          unfold attrOrder
          split <;> rfl
        intro t ht row
        rcases List.mem_cons.mp ht with rfl | ht
        · rw [hattr]
          exact redact_sortColumn (hsort o rfl) hc row
        · rw [List.mem_singleton.mp ht]
          exact redact_id row
  clear h
  induction order with
  | nil => rfl
  | cons t order ih =>
      obtain ⟨ht, horder⟩ := List.forall_mem_cons.mp hterms
      rw [orderCompare, orderCompare, ih horder, OrderTerm.compareRows, OrderTerm.compareRows,
        ht a, ht b]

/-- A selection of the redacted table is that of the table, redacted. -/
theorem select_redact {es : List SqlExpr} {order : List OrderTerm} (hes : v.Blind es)
    (horder : ∀ a b, orderCompare order (v.redact a) (v.redact b) = orderCompare order a b)
    (limit : ℕ) : v.inner.resource.select (rows.map v.redact) es order limit =
      (v.inner.resource.select rows es order limit).map v.redact := by
  have hselects : v.inner.resource.selects es ∘ v.redact = v.inner.resource.selects es :=
    funext hes.selects
  rw [SqlTable.select, SqlTable.select, List.filter_map, hselects, List.map_take]
  congr 1
  refine (List.map_insertionSort _ _ _ _ fun a _ b _ => ?_).symm
  show _ ≠ Ordering.gt ↔ orderCompare order (v.redact a) (v.redact b) ≠ Ordering.gt
  rw [horder a b]
  rfl

/-- The seek clause of a sort over the read model does not see hidden fields. -/
theorem blind_seek {codec : CursorCodec κ} {cursor : Option κ} {sort : Option SortOrder}
    (hsort : ∀ o ∈ sort, v.readField o.attrName = true) {es : List SqlExpr}
    (h : v.inner.resource.seek codec cursor sort = .ok es) : v.Blind es := by
  have hkeyset (c : String) (hc : ∀ row, v.redact row c = row c) (key id : Value)
      (ascending : Bool) (row : SqlRow) :
      (keysetPredicate c v.inner.resource.idColumn key id ascending).eval (v.redact row) =
        (keysetPredicate c v.inner.resource.idColumn key id ascending).eval row := by
    unfold keysetPredicate
    split_ifs <;> simp only [SqlExpr.eval, SqlExpr.evalList, hc row, redact_id row]
  cases cursor with
  | none =>
      cases h
      exact fun _ he => absurd he List.not_mem_nil
  | some cursor =>
      obtain ⟨e, he, h⟩ := bind_eq_ok.mp h
      cases h
      refine List.forall_mem_singleton.mpr fun row => ?_
      unfold SqlTable.cursorPredicate at he
      split at he
      · cases he
      · split at he
        · cases he
        · cases sort with
          | none =>
              cases he
              exact hkeyset _ redact_id _ _ _ row
          | some o =>
              obtain ⟨c, hc, he⟩ := bind_eq_ok.mp he
              cases he
              exact hkeyset c (redact_sortColumn (hsort o rfl) hc) _ _ _ row

omit [TextRules] in
/-- The cursor of a sort over the read model does not tell a hidden value. -/
theorem nextCursor_redact {codec : CursorCodec κ} {sort : Option SortOrder}
    (hsort : ∀ o ∈ sort, v.readField o.attrName = true) (row : SqlRow) :
    v.inner.resource.nextCursor codec sort (v.redact row) =
      v.inner.resource.nextCursor codec sort row := by
  have hid : v.inner.resource.idOf (v.redact row) = v.inner.resource.idOf row := redact_id row
  refine congrArg codec.encode ?_
  cases sort with
  | none => simp only [SqlTable.cursorState, hid]
  | some o =>
      have hkey := redact_readField (hsort o rfl) row
      simp only [SqlTable.cursorState, hid]
      exact congrArg (CursorState.mk _ _ · _) hkey

/-- **A search of the redacted table** answers with the page of the table, redacted. -/
theorem search_redact {codec : CursorCodec κ} {f : Option SearchFilter} {sort : Option SortOrder}
    (hf : ∀ g ∈ f, v.OverReadModel g) (hsort : ∀ o ∈ sort, v.readField o.attrName = true)
    (cursor : Option κ) (limit : ℕ) :
    v.inner.resource.search codec (rows.map v.redact) f sort cursor limit =
      (v.inner.resource.search codec rows f sort cursor limit).map fun page =>
        { page with items := page.items.map v.redact } := by
  obtain ⟨hconditions, hblind⟩ := applyFilters_redact rows hf
  rw [SqlTable.search, SqlTable.search, hconditions]
  cases horder : v.inner.resource.applySort sort with
  | error e => rfl
  | ok order =>
      cases hes : v.inner.resource.applyFilters rows f with
      | error e => rfl
      | ok es =>
          cases hseek : v.inner.resource.seek codec cursor sort with
          | error e => rfl
          | ok seek =>
              have hall : v.Blind (es ++ seek) :=
                List.forall_mem_append.mpr ⟨hblind es hes, blind_seek hsort hseek⟩
              have hcursor : v.inner.resource.nextCursor codec sort ∘ v.redact =
                  v.inner.resource.nextCursor codec sort := funext (nextCursor_redact hsort)
              simp only [bind, Except.bind, pure, Except.pure, Except.map,
                select_redact hall (applySort_redact hsort horder), Page.ofFound, ← List.map_take,
                List.length_map, List.getLast?_map, Option.map_map, hcursor]

theorem count_redact {f : Option SearchFilter} (hf : ∀ g ∈ f, v.OverReadModel g) :
    v.inner.resource.count (rows.map v.redact) f = v.inner.resource.count rows f := by
  obtain ⟨hconditions, hblind⟩ := applyFilters_redact rows hf
  rw [SqlTable.count, SqlTable.count, hconditions]
  cases hes : v.inner.resource.applyFilters rows f with
  | error e => rfl
  | ok es =>
      have hselects : v.inner.resource.selects es ∘ v.redact = v.inner.resource.selects es :=
        funext (hblind es hes).selects
      show Except.ok _ = Except.ok _
      rw [List.countP_map, hselects]

theorem read_redact (id : Value) : v.inner.resource.read (rows.map v.redact) id =
    (v.inner.resource.read rows id).map v.redact := by
  have hkeeps : (fun r => (SqlExpr.eq v.inner.resource.idColumn id).keeps (v.inner.resource.row r)) ∘
      v.redact = fun r => (SqlExpr.eq v.inner.resource.idColumn id).keeps (v.inner.resource.row r) := by
    funext r
    show SqlExpr.keeps _ (v.redact r) = SqlExpr.keeps _ r
    rw [SqlExpr.keeps, SqlExpr.keeps, SqlExpr.eval, SqlExpr.eval, redact_id]
  rw [SqlTable.read, SqlTable.read, List.find?_map, hkeeps]
  cases rows.find? fun r => (SqlExpr.eq v.inner.resource.idColumn id).keeps
    (v.inner.resource.row r) <;> rfl

theorem batchRead_redact (ids : List Value) : v.inner.resource.batchRead (rows.map v.redact) ids =
    (v.inner.resource.batchRead rows ids).map (Option.map v.redact) := by
  have hids : v.Blind [.isIn v.inner.resource.idColumn ids] := by
    refine List.forall_mem_singleton.mpr fun row => ?_
    rw [SqlExpr.eval, SqlExpr.eval, redact_id]
  have hselects : v.inner.resource.selects [.isIn v.inner.resource.idColumn ids] ∘ v.redact =
      v.inner.resource.selects [.isIn v.inner.resource.idColumn ids] := funext hids.selects
  have hidOf (r : SqlRow) : v.inner.resource.idOf (v.redact r) = v.inner.resource.idOf r :=
    redact_id r
  simp only [SqlTable.batchRead, List.filter_map, hselects, List.map_map, ← List.map_reverse,
    List.find?_map, Function.comp_def, hidOf]

/-! ## Writes -/

/-- A condition that the inner resource converts names no hidden field. -/
def ConditionAvoids (v : ResourceView φ) (condition : Option SearchFilter) : Prop :=
  ∀ f ∈ condition, (∃ e, Resourcey.condition v.inner.resource.filterContext f none false = .ok e) →
    f.Avoids v.Hidden

/-- What a write shows: its result and the table, both without the values of hidden fields. -/
def shown {α : Type} (v : ResourceView φ) (redact : α → α)
    (outcome : Except ResourceyError (α × List SqlRow)) : Except ResourceyError (α × List SqlRow) :=
  outcome.map (Prod.map redact (List.map v.redact))

section
variable {env : φ} {data : List (String × Value)} {condition : Option SearchFilter}

omit [TextRules] in
theorem map_redact_map (rows : List SqlRow) :
    (rows.map v.redact).map v.redact = rows.map v.redact := by
  rw [List.map_map]
  exact List.map_congr_left fun r _ => redact_redact r

theorem blind_applyCondition (h : v.ConditionAvoids condition) {es : List SqlExpr}
    (hes : v.inner.resource.applyCondition condition = .ok es) : v.Blind es := by
  cases condition with
  | none =>
      cases hes
      nofun
  | some f =>
      rw [SqlTable.applyCondition] at hes
      split at hes
      · cases hes
      · exact blind_whereClause (fun _ hname => hname) hes (h f rfl)

theorem matched_redact {es : List SqlExpr} (hes : v.Blind es) (id : Value) :
    v.inner.resource.matched id es ∘ v.redact = v.inner.resource.matched id es := by
  have hall : v.Blind (.eq v.inner.resource.idColumn id :: es) := by
    refine List.forall_mem_cons.mpr ⟨fun row => ?_, hes⟩
    rw [SqlExpr.eval, SqlExpr.eval, redact_id]
  exact funext hall.selects

omit [TextRules] in
theorem create_redact :
    v.shown v.redact (v.inner.resource.create env (rows.map v.redact) data) =
      v.shown v.redact (v.inner.resource.create env rows data) := by
  have hidOf (r : SqlRow) : v.inner.resource.idOf (v.redact r) = v.inner.resource.idOf r :=
    redact_id r
  unfold SqlResource.create
  split
  · rfl
  · simp only [List.any_map, Function.comp_def, hidOf]
    split
    · rfl
    · show Except.ok (_, _) = Except.ok (_, _)
      rw [List.map_append, List.map_append, map_redact_map]

/-- Two tables that are equal once redacted have the same row under an identifier. -/
theorem read_eq_of_redact_eq {rows rows' : List SqlRow}
    (h : rows.map v.redact = rows'.map v.redact) (id : Value) :
    (v.inner.resource.read rows id).map v.redact = (v.inner.resource.read rows' id).map v.redact := by
  rw [← read_redact, ← read_redact, h]

theorem delete_redact (h : v.ConditionAvoids condition) (id : Value) :
    v.shown (fun deleted => deleted)
        (v.inner.resource.delete (rows.map v.redact) id condition) =
      v.shown (fun deleted => deleted) (v.inner.resource.delete rows id condition) := by
  rw [SqlResource.delete, SqlResource.delete]
  cases hes : v.inner.resource.applyCondition condition with
  | error e => rfl
  | ok es =>
      have hmatched := matched_redact (blind_applyCondition h hes) id
      have hfilter : (fun r => !v.inner.resource.matched id es r) ∘ v.redact =
          fun r => !v.inner.resource.matched id es r :=
        funext fun r => congrArg (!·) (congrFun hmatched r)
      simp only [shown, bind, Except.bind, pure, Except.pure, Except.map, Prod.map,
        SqlResource.deleteRows, List.countP_map, hmatched, List.filter_map, hfilter, map_redact_map]
      rfl

/-- What an update writes on the redacted table. -/
theorem updateRows_redact {es : List SqlExpr} (hes : v.Blind es) (rows : List SqlRow) (id : Value)
    (data : List (String × Value)) :
    (v.inner.resource.updateRows (rows.map v.redact) id es data).1.map v.redact =
        (v.inner.resource.updateRows rows id es data).1.map v.redact ∧
      (v.inner.resource.updateRows (rows.map v.redact) id es data).2 =
        (v.inner.resource.updateRows rows id es data).2 := by
  have hmatched := matched_redact hes id
  rw [SqlResource.updateRows, SqlResource.updateRows, List.countP_map, hmatched]
  refine ⟨?_, rfl⟩
  rw [List.map_map, List.map_map, List.map_map]
  refine List.map_congr_left fun r _ => ?_
  have hr : v.inner.resource.matched id es (v.redact r) = v.inner.resource.matched id es r :=
    congrFun hmatched r
  simp only [Function.comp, hr]
  split
  · exact redact_setColumns _ r
  · exact redact_redact r

omit [TextRules] in
/-- What is made of results that are equal once redacted is shown alike. -/
theorem shown_of_map_eq {α β : Type} {g : α → α} {q : β → β} {k : α → β}
    (hk : ∀ a, q (k (g a)) = q (k a)) {x y : Except ResourceyError α} (hxy : x.map g = y.map g)
    {rows rows' : List SqlRow} (hrows : rows.map v.redact = rows'.map v.redact) :
    v.shown q (x.bind fun a => .ok (k a, rows)) = v.shown q (y.bind fun a => .ok (k a, rows')) := by
  cases x with
  | error e =>
      cases y with
      | error e' =>
          cases hxy
          rfl
      | ok a => cases hxy
  | ok a =>
      cases y with
      | error e => cases hxy
      | ok a' =>
          have ha : g a = g a' := Except.ok.inj hxy
          show Except.ok (q (k a), rows.map v.redact) = Except.ok (q (k a'), rows'.map v.redact)
          rw [← hk a, ha, hk a', hrows]

theorem update_redact (h : v.ConditionAvoids condition) :
    v.shown (Option.map v.redact)
        (v.inner.resource.update env (rows.map v.redact) data condition) =
      v.shown (Option.map v.redact) (v.inner.resource.update env rows data condition) := by
  rw [SqlResource.update, SqlResource.update]
  split
  · rfl
  · cases hes : v.inner.resource.applyCondition condition with
    | error e => rfl
    | ok es =>
        have hblind := blind_applyCondition h hes
        simp only [bind, Except.bind, pure, Except.pure]
        generalize v.inner.resource.payloadId data = id
        generalize v.inner.resource.withDefaults env .update data = values
        split
        · obtain ⟨hrows, hcount⟩ := updateRows_redact hblind rows id values
          rw [hcount]
          split
          · show Except.ok (_, _) = Except.ok (_, _)
            rw [map_redact_map]
          · refine shown_of_map_eq (fun r => ?_) (read_eq_of_redact_eq hrows id) hrows
            exact congrArg some (redact_redact r)
        · show Except.ok (_, _) = Except.ok (_, _)
          rw [List.find?_map, matched_redact hblind, map_redact_map, Option.map_map]
          congr 2
          exact congrArg (Option.map · _) (funext redact_redact)

end

/-! ## Batches -/

omit [TextRules] in
/-- Writes that are shown alike go on to writes that are, if these do not look at what is hidden. -/
theorem shown_bind_eq {α β : Type} {g : α → α} {q : β → β}
    {x y : Except ResourceyError (α × List SqlRow)} (hxy : v.shown g x = v.shown g y)
    {k k' : α × List SqlRow → Except ResourceyError (β × List SqlRow)}
    (hk : ∀ o o', g o.1 = g o'.1 → o.2.map v.redact = o'.2.map v.redact →
      v.shown q (k o) = v.shown q (k' o')) :
    v.shown q (x.bind k) = v.shown q (y.bind k') := by
  cases x with
  | error e =>
      cases y with
      | error e' =>
          cases hxy
          rfl
      | ok o => cases hxy
  | ok o =>
      cases y with
      | error e => cases hxy
      | ok o' =>
          obtain ⟨hresult, hrows⟩ := Prod.mk.inj (Except.ok.inj hxy)
          exact hk o o' hresult hrows

omit [TextRules] in
/-- What is made of the results of writes that are shown alike is shown alike. -/
theorem shown_of_shown_eq {α β : Type} {g : α → α} {q : β → β} {k : α → β}
    (hk : ∀ a, q (k (g a)) = q (k a)) {x y : Except ResourceyError (α × List SqlRow)}
    (hxy : v.shown g x = v.shown g y) :
    v.shown q (x.bind fun o => .ok (k o.1, o.2)) =
      v.shown q (y.bind fun o => .ok (k o.1, o.2)) := by
  refine shown_bind_eq hxy fun o o' hresult hrows => ?_
  show Except.ok (q (k o.1), o.2.map v.redact) = Except.ok (q (k o'.1), o'.2.map v.redact)
  rw [← hk o.1, hresult, hk o'.1, hrows]

/-- An edit of the redacted table. -/
theorem applyEdit_redact {env : φ} {e : Edit (List (String × Value))}
    (h : v.ConditionAvoids e.condition) :
    v.shown (Option.map v.redact) (v.inner.resource.applyEdit v.inner.resource.writeActions env
        (rows.map v.redact) e) =
      v.shown (Option.map v.redact)
        (v.inner.resource.applyEdit v.inner.resource.writeActions env rows e) := by
  cases e with
  | create item =>
      rw [SqlResource.applyEdit, SqlResource.applyEdit]
      split
      · rfl
      · refine shown_of_shown_eq (fun r => ?_) create_redact
        exact congrArg some (redact_redact r)
  | update item condition =>
      rw [SqlResource.applyEdit, SqlResource.applyEdit]
      split
      · rfl
      · exact update_redact h
  | delete id condition =>
      rw [SqlResource.applyEdit, SqlResource.applyEdit]
      split
      · rfl
      · exact shown_of_shown_eq (k := fun _ => none) (fun _ => rfl) (delete_redact h id)

/-- **A batch** on two tables that are equal once redacted. -/
theorem applyEdits_eq {edits : List (φ × Edit (List (String × Value)))}
    (h : ∀ e ∈ edits, v.ConditionAvoids e.2.condition) {rows rows' : List SqlRow}
    (hrows : rows.map v.redact = rows'.map v.redact) :
    v.shown (List.map (Option.map v.redact))
        (v.inner.resource.applyEdits v.inner.resource.writeActions rows edits) =
      v.shown (List.map (Option.map v.redact))
        (v.inner.resource.applyEdits v.inner.resource.writeActions rows' edits) := by
  induction edits generalizing rows rows' with
  | nil => exact congrArg (fun rows => Except.ok ([], rows)) hrows
  | cons e edits ih =>
      obtain ⟨he, hedits⟩ := List.forall_mem_cons.mp h
      have hedit : v.shown (Option.map v.redact)
          (v.inner.resource.applyEdit v.inner.resource.writeActions e.1 rows e.2) =
            v.shown (Option.map v.redact)
              (v.inner.resource.applyEdit v.inner.resource.writeActions e.1 rows' e.2) := by
        rw [← applyEdit_redact he, hrows, applyEdit_redact he]
      refine shown_bind_eq hedit fun o o' hresult hmid => ?_
      refine shown_bind_eq (ih hedits hmid) fun p p' hresults hrows => ?_
      show Except.ok (_ :: _, _) = Except.ok (_ :: _, _)
      rw [hresult, hresults, hrows]

/-! ## The routes -/

/-- The request has no condition that the inner resource converts and that names a hidden field. -/
def RequestAvoids (v : ResourceView φ) : ViewRequest κ φ → Prop
  | .batchEdit edits => ∀ e ∈ edits, v.ConditionAvoids e.2.condition
  | _ => True

section
variable (codec : CursorCodec κ) (limits : ViewLimits) {rows rows' : List SqlRow}

omit [TextRules] in
/-- The condition of a request is passed on as it is. -/
theorem condition_editNode (e : Edit (String → Option Value)) :
    (v.editNode e).condition = e.condition := by
  cases e <;> rfl

omit [TextRules] in
theorem projectEditResult_redact (kind : EditKind) (r : Option SqlRow) :
    v.projectEditResult kind (r.map v.redact) = v.projectEditResult kind r := by
  cases kind with
  | create | update => rw [projectEditResult, projectEditResult, Option.map_map, project_comp_redact]
  | delete => rfl

omit [TextRules] in
/-- A sort of a request is over the read model. -/
theorem readField_of_resolveSortOrder {sort : Option String} {desc : Bool}
    {o : Option SortOrder} (h : v.resolveSortOrder sort desc = .ok o) :
    ∀ s ∈ o, v.readField s.attrName = true := by
  unfold resolveSortOrder at h
  split at h
  · cases h
    nofun
  · cases h
    nofun
  · split at h
    · cases h
      rintro s ⟨⟩
      assumption
    · cases h

/-- A handler's answer on two tables that are equal once redacted. -/
theorem answer_eq {request : ViewRequest κ φ} (hrequest : v.RequestAvoids request)
    (hrows : rows.map v.redact = rows'.map v.redact) :
    v.shown (fun body => body) (v.answer codec limits rows request) =
      v.shown (fun body => body) (v.answer codec limits rows' request) := by
  cases request with
  | create env payload =>
      have hwrite : v.shown v.redact
          (v.inner.resource.create env rows (v.inner.payloadValues payload)) =
            v.shown v.redact
              (v.inner.resource.create env rows' (v.inner.payloadValues payload)) := by
        rw [← create_redact, hrows, create_redact]
      refine shown_of_shown_eq (q := fun body => body) (k := fun r =>
        ViewBody.item (some (v.project .create r))) (fun r => ?_) hwrite
      show ViewBody.item (some _) = .item (some _)
      rw [project_redact]
  | read id =>
      refine shown_of_map_eq (q := fun body => body) (k := fun r =>
        ViewBody.item (some (v.project .read r))) (fun r => ?_) (read_eq_of_redact_eq hrows id) hrows
      show ViewBody.item (some _) = .item (some _)
      rw [project_redact]
  | update env id payload =>
      have hwrite (data : List (String × Value)) : v.shown (Option.map v.redact)
          (v.inner.resource.update env rows data none) =
            v.shown (Option.map v.redact) (v.inner.resource.update env rows' data none) := by
        rw [← update_redact (by nofun), hrows, update_redact (by nofun)]
      refine shown_of_shown_eq (q := fun body => body) (k := fun r =>
        ViewBody.item (r.map (v.project .update))) (fun r => ?_) (hwrite _)
      show ViewBody.item _ = .item _
      rw [Option.map_map, project_comp_redact]
  | delete id =>
      have hwrite : v.shown (fun deleted => deleted) (v.inner.resource.delete rows id none) =
          v.shown (fun deleted => deleted) (v.inner.resource.delete rows' id none) := by
        rw [← delete_redact (by nofun), hrows, delete_redact (by nofun)]
      exact shown_of_shown_eq (q := fun body => body) (k := fun _ => ViewBody.deleted)
        (fun _ => rfl) hwrite
  | search filters sort desc cursor limit =>
      rw [answer, answer]
      cases checkSearchLimit limit limits.maxSearchLimit with
      | error e => rfl
      | ok _ =>
          cases hf : v.resolveFilters filters with
          | error e => rfl
          | ok f =>
              cases hsort : v.resolveSortOrder sort desc with
              | error e => rfl
              | ok o =>
                  have hf := overReadModel_of_resolveFilters hf
                  have hsort := readField_of_resolveSortOrder hsort
                  have hpage : (v.inner.resource.search codec rows f o cursor limit).map
                      (fun page => { page with items := page.items.map v.redact }) =
                        (v.inner.resource.search codec rows' f o cursor limit).map
                          fun page => { page with items := page.items.map v.redact } := by
                    rw [← search_redact hf hsort, hrows, search_redact hf hsort]
                  refine shown_of_map_eq (q := fun body => body) (k := fun page => ViewBody.page
                    (page.items.map (v.project .search)) page.limit page.nextCursor)
                    (fun page => ?_) hpage hrows
                  show ViewBody.page _ _ _ = .page _ _ _
                  rw [List.map_map, project_comp_redact]
  | count filters =>
      rw [answer, answer]
      cases hf : v.resolveFilters filters with
      | error e => rfl
      | ok f =>
          have hf := overReadModel_of_resolveFilters hf
          have hcount : v.inner.resource.count rows f = v.inner.resource.count rows' f := by
            rw [← count_redact hf, hrows, count_redact hf]
          exact shown_of_map_eq (g := fun n => n) (q := fun body => body) (k := ViewBody.count)
            (fun _ => rfl) (congrArg (Except.map fun n => n) hcount) hrows
  | batchRead ids =>
      rw [answer, answer]
      cases checkBatchReadIds ids.length limits.maxBatchReadIds with
      | error e => rfl
      | ok _ =>
          have hitems (rows : List SqlRow) :
              (v.inner.resource.batchRead rows ids).map (Option.map (v.project .search)) =
                (v.inner.resource.batchRead (rows.map v.redact) ids).map
                  (Option.map (v.project .search)) := by
            rw [batchRead_redact, List.map_map, Option.map_comp_map, project_comp_redact]
          show Except.ok (ViewBody.items _, _) = Except.ok (ViewBody.items _, _)
          rw [hitems rows, hitems rows', hrows]
  | batchEdit edits =>
      rw [answer, answer]
      split
      · rfl
      · have hnodes : ∀ n ∈ edits.map fun e => (e.1, v.editNode e.2),
            v.ConditionAvoids n.2.condition := by
          refine List.forall_mem_map.mpr fun e he => ?_
          rw [condition_editNode]
          exact hrequest e he
        have hedits : v.shown (List.map (Option.map v.redact))
            (v.applyEdits rows (edits.map fun e => (e.1, v.editNode e.2))) =
              v.shown (List.map (Option.map v.redact))
                (v.applyEdits rows' (edits.map fun e => (e.1, v.editNode e.2))) := by
          rw [applyEdits, applyEdits]
          cases v.checkEdits ((edits.map fun e => (e.1, v.editNode e.2)).map (·.2)) with
          | error e => rfl
          | ok _ => exact applyEdits_eq hnodes hrows
        refine shown_of_shown_eq (q := fun body => body) (k := fun results => ViewBody.edits
          (((edits.map fun e => (e.1, v.editNode e.2)).zip results).map fun p =>
            (p.1.2.kind, v.projectEditResult p.1.2.kind p.2))) (fun results => ?_) hedits
        show ViewBody.edits _ = .edits _
        rw [List.zip_map_right, List.map_map]
        refine congrArg ViewBody.edits (List.map_congr_left fun p _ => ?_)
        exact congrArg (Prod.mk _) (projectEditResult_redact _ p.2)

/-- **A response** of the view, on two tables that are equal once redacted. -/
theorem handle_eq {request : ViewRequest κ φ} (hrequest : v.RequestAvoids request)
    (hrows : rows.map v.redact = rows'.map v.redact) :
    (v.handle codec limits rows request).1 = (v.handle codec limits rows' request).1 ∧
      (v.handle codec limits rows request).2.map v.redact =
        (v.handle codec limits rows' request).2.map v.redact := by
  have hanswer := answer_eq codec limits hrequest hrows
  rw [handle, handle]
  split
  · cases hx : v.answer codec limits rows request with
    | error e =>
        cases hy : v.answer codec limits rows' request with
        | error e' =>
            rw [hx, hy] at hanswer
            cases hanswer
            exact ⟨rfl, hrows⟩
        | ok o =>
            rw [hx, hy] at hanswer
            cases hanswer
    | ok o =>
        cases hy : v.answer codec limits rows' request with
        | error e =>
            rw [hx, hy] at hanswer
            cases hanswer
        | ok o' =>
            rw [hx, hy] at hanswer
            obtain ⟨hbody, hrows⟩ := Prod.mk.inj (Except.ok.inj hanswer)
            exact ⟨congrArg ViewResponse.ok hbody, hrows⟩
  · exact ⟨rfl, hrows⟩

end

/-- **A view hides what it hides**, but for the conditions of `/batch-edit`. From two tables that are
equal but for the values of hidden fields, every sequence of requests has the same responses, and
leaves tables that are, as long as no condition that the inner resource converts names a hidden
field. -/
theorem handleAll_eq_of_redact_eq (codec : CursorCodec κ) (limits : ViewLimits)
    {requests : List (ViewRequest κ φ)} (hrequests : ∀ r ∈ requests, v.RequestAvoids r)
    {rows rows' : List SqlRow} (hrows : rows.map v.redact = rows'.map v.redact) :
    (v.handleAll codec limits rows requests).1 = (v.handleAll codec limits rows' requests).1 ∧
      (v.handleAll codec limits rows requests).2.map v.redact =
        (v.handleAll codec limits rows' requests).2.map v.redact := by
  induction requests generalizing rows rows' with
  | nil => exact ⟨rfl, hrows⟩
  | cons request requests ih =>
      obtain ⟨hrequest, hrequests⟩ := List.forall_mem_cons.mp hrequests
      obtain ⟨hresponse, hmid⟩ := handle_eq codec limits hrequest hrows
      obtain ⟨hresponses, hfinal⟩ := ih hrequests hmid
      exact ⟨congrArg₂ List.cons hresponse hresponses, hfinal⟩

omit [TextRules]

/-! ## A vault -/

def vaultId : MappedField Unit := { attr := "id", column := "id" }

def vaultSecret : MappedField Unit := { attr := "secret", column := "secret" }

/-- Secrets by identifier. -/
def vault : MappedModel Unit where
  name := "VaultResource"
  fields := [vaultId, vaultSecret]
  idField := vaultId
  queryable _ := true
  sortable _ := true
  insertRow _ data := .ok fun c => (data.lookup c).getD .none
  supported := [.create, .read, .update, .delete, .search, .count, .batchRead]
  idField_mem := .head _
  attr_inj f hf g hg h := by
    simp only [List.mem_cons, List.not_mem_nil, or_false] at hf hg
    rcases hf with rfl | rfl <;> rcases hg with rfl | rfl
    all_goals first | rfl | simp [vaultId, vaultSecret] at h
  column_inj f hf g hg h := by
    simp only [List.mem_cons, List.not_mem_nil, or_false] at hf hg
    rcases hf with rfl | rfl <;> rcases hg with rfl | rfl
    all_goals first | rfl | simp [vaultId, vaultSecret] at h

/-- The view of a vault that shows no secret. -/
def publicVault : ResourceView Unit where
  inner := vault
  annotation name := if name = "id" then some .int else some .str
  innerShape _ _ := true
  fieldOverrides := [("secret", fun _ => some false)]
  actions := vault.supported
  id_readable := rfl
  known := List.forall_mem_singleton.mpr ⟨vaultSecret, .tail _ (.head _), rfl⟩
  id_not_overridden := List.forall_mem_singleton.mpr (by decide)
  no_rewidening _ _ _ _ := rfl
  actions_subset := List.Subset.refl _

/-- The row of the identifier 1. -/
def vaultRow (secret : String) : SqlRow := fun c =>
  if c = "id" then .scalar (.int 1) else if c = "secret" then .scalar (.str secret) else .none

/-- An update of the row that changes nothing, if the condition holds. -/
def touch (condition : SearchFilter) : ViewRequest CursorState Unit :=
  .batchEdit [((), .update (fun name => if name = "id" then some (.scalar (.int 1)) else none)
    (some condition))]

theorem vaultRow_redact (secret secret' : String) :
    [vaultRow secret].map publicVault.redact = [vaultRow secret'].map publicVault.redact := by
  refine congrArg (fun row => [row]) (funext fun c => ?_)
  by_cases hc : c = "secret"
  · subst hc
    rfl
  · simp [redact, vaultRow, hc]

/-- A search by the identifier and a write under a condition on it. -/
theorem handleAll_vault :
    letI := TextRules.ascii
    let requests := [.search [("id__eq", .scalar (.int 1))] (some "id") false none 10,
      touch (.attr "id" (.eq (.scalar (.int 1))))]
    (publicVault.handleAll CursorCodec.plain {} [vaultRow "a"] requests).1 =
        (publicVault.handleAll CursorCodec.plain {} [vaultRow "b"] requests).1 ∧
      (publicVault.handleAll CursorCodec.plain {} [vaultRow "a"] requests).2.map publicVault.redact =
        (publicVault.handleAll CursorCodec.plain {} [vaultRow "b"] requests).2.map
          publicVault.redact := by
  let _ := TextRules.ascii
  refine handleAll_eq_of_redact_eq CursorCodec.plain {} ?_ (vaultRow_redact "a" "b")
  refine List.forall_mem_cons.mpr ⟨trivial, List.forall_mem_singleton.mpr ?_⟩
  refine List.forall_mem_singleton.mpr ?_
  rintro f ⟨⟩ -
  exact ⟨not_hidden_id (v := publicVault), trivial⟩

/-- **A guess of the secret.** The two tables differ in a hidden field only, and the response to an
update under a condition on it tells them apart. -/
theorem handle_guess :
    letI := TextRules.ascii
    let guess := touch (.attr "secret" (.eq (.scalar (.str "a"))))
    publicVault.Hidden "secret" ∧
      [vaultRow "a"].map publicVault.redact = [vaultRow "b"].map publicVault.redact ∧
      (publicVault.handle CursorCodec.plain {} [vaultRow "a"] guess).1 =
        .ok (.edits [(.update, some [("id", .scalar (.int 1))])]) ∧
      (publicVault.handle CursorCodec.plain {} [vaultRow "b"] guess).1 =
        .ok (.edits [(.update, none)]) := by
  let _ := TextRules.ascii
  refine ⟨⟨⟨vaultSecret, .tail _ (.head _), rfl⟩, fun s => ?_⟩, vaultRow_redact "a" "b", rfl, rfl⟩
  cases s <;> rfl

end ResourceView

end Resourcey
