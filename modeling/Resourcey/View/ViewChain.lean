import Resourcey.Core.Declaration
import Resourcey.View.ResourceView

/-!
# Views of views

`ResourceView` checks its overrides against the declaration of the resource that it wraps, derives its
own, and exposes some of the actions. What it makes narrower stays so through any number of views:
the shapes, the actions, and everything that is not overridden (`views_keeps`). But its queries are
those of its read model, whatever those of the resource are: they are narrower exactly if the
innermost resource has all queries of the fields that are read at the end (`narrows_iff`).
-/

namespace Resourcey.ViewChain

open Declaration SearchFilter

/-! ## Operators -/

/-- What `_base_annotation` finds of a flat annotation: the one type beside `None`. -/
def baseClass {τ : Type} [DecidableEq τ] [PyTypes τ] (types : UnionType τ) : TypeClass :=
  match types.toList with
  | [t] => PyTypes.classify t
  | members =>
    match members.filter fun t => t ≠ PyTypes.none with
    | [t] => PyTypes.classify t
    | _ => .form

/-- `operators_for_annotation`, of a flat annotation. -/
def operatorsForTypes {τ : Type} [DecidableEq τ] [PyTypes τ] (types : UnionType τ) : List String :=
  match baseClass types with
  | .bool | .other => eqOnly
  | .orderable => eqOnly ++ orderedOps
  | .string => eqOnly ++ orderedOps ++ ["contains"]
  | .container | .model | .form => []

/-! ## Resources -/

/-- What a resource with a declaration exposes. The filter type, if one is declared, is the names of
its fields. -/
structure Exposure (τ κ δ : Type) where
  dto : Declaration.Dto τ κ δ
  supportedActions : List Action
  customActions : List String
  queryableFields : List String
  sortableFields : List String
  filterOperators : List (String × List String)
  searchFilterType : Option (List String)

/-- `normalize_actions`. -/
def normalizeActions (actions : List Action) : List Action :=
  if Action.batchRead ∈ actions ∧ Action.read ∉ actions then
    actions.filter fun action => action ≠ .batchRead
  else actions

/-- The name of a shape's flag. -/
def flagName : RestShape → String
  | .createRequest => "in_create_request"
  | .createResponse => "in_create_response"
  | .updateRequest => "in_update_request"
  | .updateResponse => "in_update_response"
  | .readResponse => "in_read_response"
  | .searchResponse => "in_search_response"

/-- What the constructor of a view is given, beside the resource. Each field is overridden once, and
each of its flags. -/
structure ViewOptions where
  fieldOverrides : List (String × List (RestShape × Bool)) := []
  exposedActions : Option (List Action) := none
  exposedCustomActions : Option (List String) := none

/-- What an override says of a flag. -/
def ViewOptions.flag (o : ViewOptions) (name : String) (shape : RestShape) : Option Bool :=
  ((o.fieldOverrides.lookup name).getD []).lookup shape

/-- What the constructor of a view raises. -/
inductive ViewError where
  | config (message : String)
  | declaration (error : DeclarationError)
  deriving DecidableEq

section
variable {τ κ δ : Type} [DecidableEq τ] [PyTypes τ]

/-- The filterable fields and operators: those of the declared filter type, or those of the read
model that have operators. -/
def Exposure.filterSurface (R : Exposure τ κ δ) : List (String × String) :=
  match R.searchFilterType with
  | some names => names.filterMap clauseName
  | none => R.filterOperators.flatMap fun (name, ops) =>
    if name ∈ R.dto.shapeFields .readResponse then ops.map fun op => (name, op) else []

/-- The resource whose queries are those of its read model. -/
def Exposure.ofReadModel (dto : Declaration.Dto τ κ δ) (supportedActions : List Action)
    (customActions : List String) (searchFilterType : Option (List String)) : Exposure τ κ δ where
  dto := dto
  supportedActions := supportedActions
  customActions := customActions
  queryableFields := dto.shapeFields .readResponse
  sortableFields := dto.shapeFields .readResponse
  filterOperators := (dto.restModel .readResponse).map fun field =>
    (field.name, operatorsForTypes field.types)
  searchFilterType := searchFilterType

/-- The repr of a sorted list of names. -/
def reprSorted (names : List String) : String := reprNames (names.insertionSort (· ≤ ·))

/-- `_validate_field_overrides`. -/
def validateFieldOverrides (dto : Declaration.Dto τ κ δ) (o : ViewOptions) : Except ViewError Unit :=
  let unknown := (o.fieldOverrides.map (·.1)).filter fun name => name ∉ dto.fields.map (·.1)
  if unknown ≠ [] then
    .error (.config ("ResourceView got overrides for unknown field(s) " ++ reprSorted unknown ++
      "; the inner DTO declares " ++ reprSorted (dto.fields.map (·.1))))
  else if dto.idFieldName ∈ o.fieldOverrides.map (·.1) then
    .error (.config ("ResourceView cannot override the identifier field " ++
      reprName dto.idFieldName ++ ": the transport needs a readable identifier."))
  else .ok ()

/-- `_validate_no_rewidening`. -/
def validateNoRewidening (dto : Declaration.Dto τ κ δ) (o : ViewOptions) : Except ViewError Unit :=
  o.fieldOverrides.forM fun (name, flags) =>
    match dto.fields.lookup name with
    | none => .ok ()
    | some (_, config) => flags.forM fun (shape, value) =>
      if value = true ∧ config.included shape = false then
        .error (.config ("ResourceView cannot re-widen " ++ reprName name ++ "." ++
          flagName shape ++
          ": the inner field turned it off and a view narrows, never widens."))
      else .ok ()

/-- The declaration of a view. -/
def viewDto (dto : Declaration.Dto τ κ δ) (o : ViewOptions) :
    Except ViewError (Declaration.Dto τ κ δ) :=
  if o.fieldOverrides = [] then .ok dto
  else
    (deriveDto dto (o.fieldOverrides.map fun (name, flags) =>
      (name, fun config => config.withFlags fun shape => flags.lookup shape))).mapError .declaration

/-- `_validate_declared_filter`. -/
def validateDeclaredFilter (R : Exposure τ κ δ) (dto : Declaration.Dto τ κ δ) :
    Except ViewError Unit :=
  let hidden := (R.dto.shapeFields .readResponse).filter fun name =>
    name ∉ dto.shapeFields .readResponse
  if hidden ≠ [] ∧ R.searchFilterType ≠ none then
    .error (.config ("ResourceView hides fields from the read model, but the inner resource " ++
      "declares a get_search_filter_type(); a declared object filter still names every " ++
      "inner field, so a hidden field would remain filterable. Drop the declared " ++
      "filter (use the derived surface) or do not hide fields."))
  else .ok ()

/-- The actions of a view. -/
def viewActions (supported : List Action) : Option (List Action) → Except ViewError (List Action)
  | none => .ok (normalizeActions supported)
  | some exposed =>
    let actions := normalizeActions exposed
    let widened := actions.filter fun action => action ∉ normalizeActions supported
    if widened ≠ [] then
      .error (.config ("ResourceView cannot expose actions the inner resource does not support: " ++
        reprSorted (widened.map Action.value)))
    else .ok actions

/-- The custom actions of a view. -/
def viewCustomActions (custom : List String) : Option (List String) → Except ViewError (List String)
  | none => .ok custom
  | some exposed =>
    let widened := exposed.filter fun action => action ∉ custom
    if widened ≠ [] then
      .error (.config ("ResourceView cannot expose custom actions the inner resource does not " ++
        "declare: " ++ reprSorted widened))
    else .ok exposed

/-- `ResourceView.__init__`, and what the view exposes. -/
def resourceView (R : Exposure τ κ δ) (o : ViewOptions) : Except ViewError (Exposure τ κ δ) := do
  validateFieldOverrides R.dto o
  validateNoRewidening R.dto o
  let dto ← viewDto R.dto o
  validateDeclaredFilter R dto
  let actions ← viewActions R.supportedActions o.exposedActions
  let customActions ← viewCustomActions R.customActions o.exposedCustomActions
  return .ofReadModel dto actions customActions R.searchFilterType

/-- A view of a view of a resource, as many as there are options, the innermost first. -/
def views (R : Exposure τ κ δ) : List ViewOptions → Except ViewError (Exposure τ κ δ)
  | [] => .ok R
  | o :: os => do
    let view ← resourceView R o
    views view os

end

/-! ## What a view keeps -/

section
variable {τ κ δ : Type} [DecidableEq τ] [PyTypes τ] {R R' : Exposure τ κ δ} {o : ViewOptions}
  {os : List ViewOptions}

omit [DecidableEq τ] [PyTypes τ] in
/-- The `DtoField` of a field in a view of each of the options. -/
def configAfter (os : List ViewOptions) (name : String) (config : Declaration.DtoField τ κ δ) :
    Declaration.DtoField τ κ δ :=
  os.foldl (fun config o => config.withFlags (o.flag name)) config

/-- An entry of a dictionary is found under its key. -/
theorem lookup_of_mem {α β : Type} [BEq α] [LawfulBEq α] {d : List (α × β)}
    (hnodup : (d.map (·.1)).Nodup) {key : α} {value : β} (h : (key, value) ∈ d) :
    d.lookup key = some value := by
  obtain ⟨before, after, rfl⟩ := List.mem_iff_append.mp h
  refine List.lookup_eq_some_iff.mpr ⟨before, after, rfl, fun entry hentry => ?_⟩
  rw [List.map_append, List.map_cons] at hnodup
  rw [bne_iff_ne]
  rintro rfl
  exact (List.nodup_append.mp hnodup).2.2 _ (List.mem_map_of_mem hentry) _ List.mem_cons_self rfl

omit [DecidableEq τ] [PyTypes τ] in
/-- An override that is accepted turns no flag back on. -/
theorem included_of_validateNoRewidening {D : Declaration.Dto τ κ δ}
    (h : validateNoRewidening D o = .ok ())
    {name : String} {hint : FieldHint τ κ δ} {config : Declaration.DtoField τ κ δ}
    (hfield : (name, hint, config) ∈ D.fields) {shape : RestShape}
    (hflag : o.flag name shape = some true) : config.included shape = true := by
  obtain ⟨flags, hflags, hvalue⟩ : ∃ flags, o.fieldOverrides.lookup name = some flags ∧
      flags.lookup shape = some true := by
    rw [ViewOptions.flag] at hflag
    rcases hlookup : o.fieldOverrides.lookup name with _ | flags
    · rw [hlookup] at hflag
      cases hflag
    · rw [hlookup] at hflag
      exact ⟨flags, rfl, hflag⟩
  obtain ⟨before, after, hsplit, -⟩ := List.lookup_eq_some_iff.mp hflags
  have hname := forM_ok_iff.mp h (name, flags) (by simp [hsplit])
  simp only [lookup_of_mem D.nodup hfield] at hname
  obtain ⟨before, after, rfl, -⟩ := List.lookup_eq_some_iff.mp hvalue
  have hshape := forM_ok_iff.mp hname (shape, true) (by simp)
  dsimp only at hshape
  split at hshape
  · cases hshape
  · next hnot => exact Bool.eq_true_of_not_eq_false fun hfalse => hnot ⟨rfl, hfalse⟩

omit [DecidableEq τ] [PyTypes τ] in
/-- The identifier is not overridden. -/
theorem flag_idFieldName {D : Declaration.Dto τ κ δ} (h : validateFieldOverrides D o = .ok ())
    (shape : RestShape) : o.flag D.idFieldName shape = none := by
  simp only [validateFieldOverrides] at h
  split at h
  · cases h
  · split at h
    · cases h
    · next hid =>
        have hnone : o.fieldOverrides.lookup D.idFieldName = none := by
          rw [List.lookup_eq_none_iff]
          intro override hoverride
          rw [bne_iff_ne]
          rintro heq
          exact hid (heq ▸ List.mem_map_of_mem hoverride)
        rw [ViewOptions.flag, hnone]
        rfl

omit [DecidableEq τ] [PyTypes τ] in
theorem merged_overrides (o : ViewOptions) (name : String) (config : Declaration.DtoField τ κ δ) :
    merged (o.fieldOverrides.map fun (name, flags) =>
        (name, fun config : Declaration.DtoField τ κ δ =>
            config.withFlags fun shape => flags.lookup shape))
      name config = config.withFlags (o.flag name) := by
  rw [merged]
  unfold ViewOptions.flag
  induction o.fieldOverrides with
  | nil => rfl
  | cons override overrides ih =>
      rw [List.map_cons, List.lookup_cons, List.lookup_cons]
      rcases eq_or_ne name override.1 with rfl | hne
      · rw [beq_self_eq_true]
        rfl
      · rw [beq_false_of_ne hne]
        exact ih

/-- **The fields of a view** are those of the resource, each with its overrides. -/
theorem viewDto_redeclares {D D' : Declaration.Dto τ κ δ} (h : viewDto D o = .ok D') :
    Redeclares (fun name config => config.withFlags (o.flag name)) D D' := by
  rw [viewDto] at h
  split at h
  · next hnone =>
      cases h
      have hflag (name : String) : o.flag name = fun _ => none := by
        unfold ViewOptions.flag
        rw [hnone]
        rfl
      simp only [hflag]
      exact .refl _
  · rcases hderive : deriveDto D (o.fieldOverrides.map fun (name, flags) =>
      (name, fun config => config.withFlags fun shape => flags.lookup shape)) with error | D₁
    · rw [hderive] at h
      cases h
    · rw [hderive] at h
      cases h
      have hmerged := deriveDto_redeclares hderive
      have hfun : merged (o.fieldOverrides.map fun (name, flags) =>
          (name, fun config : Declaration.DtoField τ κ δ =>
            config.withFlags fun shape => flags.lookup shape)) =
            fun name config => config.withFlags (o.flag name) :=
        funext fun name => funext fun config => merged_overrides o name config
      exact hfun ▸ hmerged

/-- What a chain of views keeps of a resource. -/
structure Keeps (R : Exposure τ κ δ) (os : List ViewOptions) (R' : Exposure τ κ δ) : Prop where
  dto : Redeclares (configAfter os) R.dto R'.dto
  identifier : ∀ o ∈ os, ∀ shape, o.flag R.dto.idFieldName shape = none
  included : ∀ name hint config, (name, hint, config) ∈ R.dto.fields → ∀ shape,
    (configAfter os name config).included shape = true →
      config.included shape = true ∧ ∀ o ∈ os, o.flag name shape ≠ some false
  actions : R'.supportedActions ⊆ R.supportedActions
  customActions : R'.customActions ⊆ R.customActions
  searchFilterType : R'.searchFilterType = R.searchFilterType
  readModel : os ≠ [] →
    R' = .ofReadModel R'.dto R'.supportedActions R'.customActions R'.searchFilterType

theorem normalizeActions_subset (actions : List Action) : normalizeActions actions ⊆ actions := by
  rw [normalizeActions]
  split
  · exact List.filter_sublist.subset
  · exact List.Subset.refl _

theorem viewActions_subset {supported actions : List Action} {exposed : Option (List Action)}
    (h : viewActions supported exposed = .ok actions) : actions ⊆ supported := by
  cases exposed with
  | none =>
      cases h
      exact normalizeActions_subset _
  | some exposed =>
      simp only [viewActions] at h
      split at h
      · cases h
      · next hwidened =>
          cases h
          intro action haction
          refine normalizeActions_subset _ (not_not.mp fun hnot => hwidened ?_)
          exact List.ne_nil_of_mem (List.mem_filter.mpr ⟨haction, decide_eq_true hnot⟩)

theorem viewCustomActions_subset {custom actions : List String} {exposed : Option (List String)}
    (h : viewCustomActions custom exposed = .ok actions) : actions ⊆ custom := by
  cases exposed with
  | none =>
      cases h
      exact List.Subset.refl _
  | some exposed =>
      simp only [viewCustomActions] at h
      split at h
      · cases h
      · next hwidened =>
          cases h
          intro action haction
          refine not_not.mp fun hnot => hwidened ?_
          exact List.ne_nil_of_mem (List.mem_filter.mpr ⟨haction, decide_eq_true hnot⟩)

/-- **One view keeps it.** -/
theorem resourceView_keeps (h : resourceView R o = .ok R') : Keeps R [o] R' := by
  obtain ⟨u, hoverrides, h⟩ := bind_eq_ok.mp h
  obtain ⟨u, hrewidening, h⟩ := bind_eq_ok.mp h
  obtain ⟨dto, hdto, h⟩ := bind_eq_ok.mp h
  obtain ⟨u, -, h⟩ := bind_eq_ok.mp h
  obtain ⟨actions, hactions, h⟩ := bind_eq_ok.mp h
  obtain ⟨customActions, hcustom, h⟩ := bind_eq_ok.mp h
  cases h
  refine ⟨viewDto_redeclares hdto, ?_, ?_, viewActions_subset hactions,
    viewCustomActions_subset hcustom, rfl, fun _ => rfl⟩
  · intro other hother shape
    obtain rfl := List.mem_singleton.mp hother
    exact flag_idFieldName hoverrides shape
  · intro name hint config hfield shape hincluded
    have hvalue : (o.flag name shape).getD (config.included shape) = true := hincluded
    rcases hflag : o.flag name shape with _ | _ | _
    · rw [hflag] at hvalue
      exact ⟨hvalue, fun other hother => by simp [List.mem_singleton.mp hother, hflag]⟩
    · rw [hflag] at hvalue
      cases hvalue
    · exact ⟨included_of_validateNoRewidening hrewidening hfield hflag,
        fun other hother => by simp [List.mem_singleton.mp hother, hflag]⟩

/-- **And so does a chain of any depth.** -/
theorem views_keeps (h : views R os = .ok R') : Keeps R os R' := by
  induction os generalizing R with
  | nil =>
      cases h
      exact ⟨.refl _, fun _ hnone => absurd hnone List.not_mem_nil,
        fun _ _ _ _ _ hincluded => ⟨hincluded, fun _ hnone => absurd hnone List.not_mem_nil⟩,
        List.Subset.refl _, List.Subset.refl _, rfl, fun hne => absurd rfl hne⟩
  | cons o os ih =>
      obtain ⟨R₁, hview, h⟩ := bind_eq_ok.mp h
      have hstep := resourceView_keeps hview
      have hrest := ih h
      refine ⟨hstep.dto.trans hrest.dto, ?_, ?_, List.Subset.trans hrest.actions hstep.actions,
        List.Subset.trans hrest.customActions hstep.customActions,
        hrest.searchFilterType.trans hstep.searchFilterType, fun _ => ?_⟩
      · intro other hother shape
        rcases List.mem_cons.mp hother with rfl | hother
        · exact hstep.identifier _ List.mem_cons_self shape
        · rw [← hstep.dto.idFieldName]
          exact hrest.identifier other hother shape
      · intro name hint config hfield shape hincluded
        obtain ⟨hint₁, hfield₁, -⟩ := hstep.dto.exists_mem hfield
        obtain ⟨hincluded₁, hflags⟩ := hrest.included name hint₁ _ hfield₁ shape hincluded
        obtain ⟨hincluded₀, hflag⟩ := hstep.included name hint config hfield shape hincluded₁
        refine ⟨hincluded₀, fun other hother => ?_⟩
        rcases List.mem_cons.mp hother with rfl | hother
        · exact hflag _ List.mem_cons_self
        · exact hflags other hother
      · cases os with
        | nil =>
            cases h
            exact hstep.readModel (List.cons_ne_nil _ _)
        | cons other os => exact hrest.readModel (List.cons_ne_nil _ _)

/-! ## What a chain narrows -/

/-- **The outermost view narrows the innermost resource**: the shapes, the actions and the queries are
among its own, what is not overridden is unchanged, and the identifier is what it was. -/
structure Narrows (R : Exposure τ κ δ) (os : List ViewOptions) (R' : Exposure τ κ δ) : Prop where
  shapes : ∀ shape, R'.dto.shapeFields shape ⊆ R.dto.shapeFields shape
  actions : R'.supportedActions ⊆ R.supportedActions
  customActions : R'.customActions ⊆ R.customActions
  queryable : R'.queryableFields ⊆ R.queryableFields
  sortable : R'.sortableFields ⊆ R.sortableFields
  filterable : R'.filterSurface ⊆ R.filterSurface
  names : R'.dto.fields.map (·.1) = R.dto.fields.map (·.1)
  unchanged : ∀ name hint config, (name, hint, config) ∈ R.dto.fields →
    ∃ hint' config', (name, hint', config') ∈ R'.dto.fields ∧
      stripAnnotated hint' = stripAnnotated hint ∧
      (config'.defaultForCreate = config.defaultForCreate ∧
        config'.defaultForUpdate = config.defaultForUpdate ∧
        config'.requestType = config.requestType ∧ config'.references = config.references) ∧
      ∀ shape, (∀ o ∈ os, o.flag name shape = none) →
        config'.included shape = config.included shape
  identifier : R'.dto.idFieldName = R.dto.idFieldName ∧ ∀ hint config,
    (R.dto.idFieldName, hint, config) ∈ R.dto.fields →
      ∃ hint', (R.dto.idFieldName, hint', config) ∈ R'.dto.fields

/-- **The innermost resource can be queried by what is read at the end**: it has no view, or its
queryable and sortable fields are all that it reads and that no view hides, and its filters, unless
they are declared, all operators of their types. -/
def QueriesReadModel (R : Exposure τ κ δ) (os : List ViewOptions) : Prop :=
  os = [] ∨ ∀ name hint config, (name, hint, config) ∈ R.dto.fields →
    config.included .readResponse = true → (∀ o ∈ os, o.flag name .readResponse ≠ some false) →
      name ∈ R.queryableFields ∧ name ∈ R.sortableFields ∧
        (R.searchFilterType = none → ∀ op ∈ operatorsForTypes (stripAnnotated hint),
          (name, op) ∈ R.filterSurface)

omit [DecidableEq τ] [PyTypes τ] in
/-- Nothing but flags is overridden. -/
theorem configAfter_eq (os : List ViewOptions) (name : String) (config : Declaration.DtoField τ κ δ) :
    configAfter os name config =
      { config with included := (configAfter os name config).included } := by
  induction os generalizing config with
  | nil => rfl
  | cons o os ih => exact ih (config.withFlags (o.flag name))

omit [DecidableEq τ] [PyTypes τ] in
/-- A flag that no view overrides. -/
theorem included_configAfter {os : List ViewOptions} {name : String} {shape : RestShape}
    (h : ∀ o ∈ os, o.flag name shape = none) (config : Declaration.DtoField τ κ δ) :
    (configAfter os name config).included shape = config.included shape := by
  induction os generalizing config with
  | nil => rfl
  | cons o os ih =>
      have hrest := ih (fun other hother => h other (List.mem_cons_of_mem _ hother))
        (config.withFlags (o.flag name))
      refine hrest.trans ?_
      show (o.flag name shape).getD (config.included shape) = _
      rw [h o List.mem_cons_self]
      rfl

omit [DecidableEq τ] [PyTypes τ] in
/-- A flag that is on and that no view turns off. -/
theorem included_configAfter_of_ne {os : List ViewOptions} {name : String} {shape : RestShape}
    (h : ∀ o ∈ os, o.flag name shape ≠ some false) {config : Declaration.DtoField τ κ δ}
    (hincluded : config.included shape = true) :
    (configAfter os name config).included shape = true := by
  induction os generalizing config with
  | nil => exact hincluded
  | cons o os ih =>
      refine ih (fun other hother => h other (List.mem_cons_of_mem _ hother)) ?_
      show (o.flag name shape).getD (config.included shape) = true
      rcases hflag : o.flag name shape with _ | _ | _
      · exact hincluded
      · exact absurd hflag (h o List.mem_cons_self)
      · rfl

/-- A field that is read at the end is one that was read and that no view hides. -/
theorem Keeps.mem_read_iff (h : Keeps R os R') {name : String} :
    name ∈ R'.dto.shapeFields .readResponse ↔ ∃ hint config, (name, hint, config) ∈ R.dto.fields ∧
      config.included .readResponse = true ∧ ∀ o ∈ os, o.flag name .readResponse ≠ some false := by
  rw [Declaration.Dto.mem_shapeFields]
  constructor
  · rintro ⟨hint', config', hmem, hincluded⟩
    obtain ⟨hint, config, hfield, -, rfl⟩ := h.dto.exists_of_mem hmem
    exact ⟨hint, config, hfield, h.included name hint config hfield _ hincluded⟩
  · rintro ⟨hint, config, hfield, hincluded, hflags⟩
    obtain ⟨hint', hmem, -⟩ := h.dto.exists_mem hfield
    exact ⟨hint', _, hmem, included_configAfter_of_ne hflags hincluded⟩

theorem mem_filterSurface_iff (h : R.searchFilterType = none) {name op : String} :
    (name, op) ∈ R.filterSurface ↔ ∃ ops, (name, ops) ∈ R.filterOperators ∧
      name ∈ R.dto.shapeFields .readResponse ∧ op ∈ ops := by
  rw [Exposure.filterSurface, h]
  simp only [List.mem_flatMap]
  constructor
  · rintro ⟨⟨name', ops⟩, hentry, hmem⟩
    by_cases hread : name' ∈ R.dto.shapeFields .readResponse
    · rw [if_pos hread] at hmem
      obtain ⟨op', hop, heq⟩ := List.mem_map.mp hmem
      cases heq
      exact ⟨ops, hentry, hread, hop⟩
    · rw [if_neg hread] at hmem
      exact absurd hmem List.not_mem_nil
  · rintro ⟨ops, hentry, hread, hop⟩
    refine ⟨(name, ops), hentry, ?_⟩
    rw [if_pos hread]
    exact List.mem_map.mpr ⟨op, hop, rfl⟩

/-- The filters of a resource whose queries are those of its read model, if none are declared. -/
theorem mem_filterSurface_ofReadModel {D : Declaration.Dto τ κ δ} {actions : List Action}
    {customActions : List String} {name op : String} :
    (name, op) ∈ (Exposure.ofReadModel D actions customActions none).filterSurface ↔
      ∃ hint config, (name, hint, config) ∈ D.fields ∧ config.included .readResponse = true ∧
        op ∈ operatorsForTypes (stripAnnotated hint) := by
  rw [mem_filterSurface_iff rfl]
  constructor
  · rintro ⟨ops, hentry, -, hop⟩
    obtain ⟨field, hfield, heq⟩ := List.mem_map.mp hentry
    obtain ⟨⟨name', hint, config⟩, hdeclared, rfl⟩ := List.mem_map.mp hfield
    obtain ⟨hdeclared, hincluded⟩ := List.mem_filter.mp hdeclared
    cases heq
    exact ⟨hint, config, hdeclared, hincluded, hop⟩
  · rintro ⟨hint, config, hdeclared, hincluded, hop⟩
    have hfiltered : (name, hint, config) ∈
        D.fields.filter fun field => field.2.2.included .readResponse :=
      List.mem_filter.mpr ⟨hdeclared, hincluded⟩
    exact ⟨operatorsForTypes (stripAnnotated hint), List.mem_map.mpr
      ⟨_, List.mem_map.mpr ⟨_, hfiltered, rfl⟩, rfl⟩,
      Declaration.Dto.mem_shapeFields.mpr ⟨hint, config, hdeclared, hincluded⟩, hop⟩

/-- Everything but the queries is narrower. -/
theorem Keeps.narrows (h : Keeps R os R') (hqueryable : R'.queryableFields ⊆ R.queryableFields)
    (hsortable : R'.sortableFields ⊆ R.sortableFields)
    (hfilterable : R'.filterSurface ⊆ R.filterSurface) : Narrows R os R' where
  shapes shape name hname := by
    obtain ⟨hint', config', hmem, hincluded⟩ := Declaration.Dto.mem_shapeFields.mp hname
    obtain ⟨hint, config, hfield, -, rfl⟩ := h.dto.exists_of_mem hmem
    exact Declaration.Dto.mem_shapeFields.mpr
      ⟨hint, config, hfield, (h.included name hint config hfield shape hincluded).1⟩
  actions := h.actions
  customActions := h.customActions
  queryable := hqueryable
  sortable := hsortable
  filterable := hfilterable
  names := h.dto.names
  unchanged name hint config hfield := by
    obtain ⟨hint', hmem, hstrip⟩ := h.dto.exists_mem hfield
    refine ⟨hint', _, hmem, hstrip, ?_, fun shape hflags => included_configAfter hflags config⟩
    rw [configAfter_eq]
    exact ⟨rfl, rfl, rfl, rfl⟩
  identifier := by
    refine ⟨h.dto.idFieldName, fun hint config hfield => ?_⟩
    obtain ⟨hint', hmem, -⟩ := h.dto.exists_mem hfield
    have hsame : configAfter os R.dto.idFieldName config = config := by
      have hincluded : (configAfter os R.dto.idFieldName config).included = config.included :=
        funext fun shape => included_configAfter (fun o ho => h.identifier o ho shape) config
      rw [configAfter_eq, hincluded]
    exact ⟨hint', hsame ▸ hmem⟩

/-- **When views narrow.** The outermost of a chain of views narrows the innermost resource if and
only if that one can be queried by what is read at the end. -/
theorem narrows_iff (h : views R os = .ok R') : Narrows R os R' ↔ QueriesReadModel R os := by
  have hkeeps := views_keeps h
  rcases eq_or_ne os [] with rfl | hne
  · cases h
    refine iff_of_true (hkeeps.narrows ?_ ?_ ?_) (.inl rfl)
    all_goals exact List.Subset.refl _
  have hmodel := hkeeps.readModel hne
  have hfilters : R.searchFilterType = none → ∀ name op, (name, op) ∈ R'.filterSurface ↔
      ∃ hint config, (name, hint, config) ∈ R'.dto.fields ∧
        config.included .readResponse = true ∧ op ∈ operatorsForTypes (stripAnnotated hint) := by
    intro hnone name op
    rw [hmodel, hkeeps.searchFilterType, hnone]
    exact mem_filterSurface_ofReadModel
  constructor
  · intro hnarrows
    refine .inr fun name hint config hfield hincluded hflags => ?_
    have hread := hkeeps.mem_read_iff.mpr ⟨hint, config, hfield, hincluded, hflags⟩
    refine ⟨hnarrows.queryable ?_, hnarrows.sortable ?_, fun hnone op hop => ?_⟩
    · rw [hmodel]
      exact hread
    · rw [hmodel]
      exact hread
    · obtain ⟨hint', hmem, hstrip⟩ := hkeeps.dto.exists_mem hfield
      refine hnarrows.filterable ((hfilters hnone name op).mpr ⟨hint', _, hmem, ?_, hstrip ▸ hop⟩)
      exact included_configAfter_of_ne hflags hincluded
  · rintro (hnil | hqueries)
    · exact absurd hnil hne
    have hread : ∀ name ∈ R'.dto.shapeFields .readResponse,
        name ∈ R.queryableFields ∧ name ∈ R.sortableFields := by
      intro name hname
      obtain ⟨hint, config, hfield, hincluded, hflags⟩ := hkeeps.mem_read_iff.mp hname
      have hboth := hqueries name hint config hfield hincluded hflags
      exact ⟨hboth.1, hboth.2.1⟩
    refine hkeeps.narrows ?_ ?_ ?_
    · rw [hmodel]
      exact fun name hname => (hread name hname).1
    · rw [hmodel]
      exact fun name hname => (hread name hname).2
    · rintro ⟨name, op⟩ hpair
      rcases hdeclared : R.searchFilterType with _ | names
      · obtain ⟨hint', config', hmem, hincluded', hop⟩ := (hfilters hdeclared name op).mp hpair
        obtain ⟨hint, config, hfield, hstrip, rfl⟩ := hkeeps.dto.exists_of_mem hmem
        obtain ⟨hincluded, hflags⟩ := hkeeps.included name hint config hfield _ hincluded'
        exact (hqueries name hint config hfield hincluded hflags).2.2 hdeclared op (hstrip ▸ hop)
      · rw [Exposure.filterSurface, hkeeps.searchFilterType, hdeclared] at hpair
        rw [Exposure.filterSurface, hdeclared]
        exact hpair

/-- A resource whose queries are those of its read model, as those of tables, collections and lists
are, can be queried by what is read. -/
theorem queriesReadModel_ofReadModel (D : Declaration.Dto τ κ δ) (actions : List Action)
    (customActions : List String) (searchFilterType : Option (List String))
    (os : List ViewOptions) :
    QueriesReadModel (.ofReadModel D actions customActions searchFilterType) os := by
  refine .inr fun name hint config hfield hincluded _ => ?_
  have hread : name ∈ D.shapeFields .readResponse :=
    Declaration.Dto.mem_shapeFields.mpr ⟨hint, config, hfield, hincluded⟩
  refine ⟨hread, hread, ?_⟩
  rintro rfl op hop
  exact mem_filterSurface_ofReadModel.mpr ⟨hint, config, hfield, hincluded, hop⟩

end

/-! ## Files -/

/-- The body of `FileDTO`. -/
def fileBody : ClassBody BuiltinType Empty Unit :=
  let field (t : TypeHint BuiltinType (Metadata BuiltinType Empty Unit)) (shapes : List RestShape) :
      Member BuiltinType Empty Unit :=
    .hint (.annotated t [.field (({} : Declaration.DtoField BuiltinType Empty Unit).exclude shapes)])
  let serverOwned : List RestShape := [.createRequest, .updateRequest, .updateResponse]
  let optionalStr := .union (.type .str) (.type .none)
  { annotations :=
      [("id", .hint (.type .str)),
        ("name", field (.type .str) [.createRequest, .searchResponse]),
        ("content_type", field optionalStr [.createRequest, .searchResponse]),
        ("size", field (.type .int) [.createRequest]),
        ("checksum", field optionalStr [.createRequest, .searchResponse]),
        ("etag", field optionalStr serverOwned),
        ("updated_at", field (.type .datetime) serverOwned),
        ("content", field (.type .bytes) [.createRequest, .createResponse, .updateRequest,
          .updateResponse, .readResponse, .searchResponse])] }

theorem id_ne_empty : "id" ≠ "" := by
  simp

theorem id_mem_fileBody : "id" ∈ (collectDtoFields "id" [fileBody]).map (·.1) := by
  decide

/-- `FileDTO`. -/
def fileDto : Declaration.Dto BuiltinType Empty Unit where
  name := "FileDTO"
  fields := collectDtoFields "id" [fileBody]
  idFieldName := "id"
  nodup := collectDtoFields_nodup _ _
  names _ := isFieldName_of_mem_collect
  idNamed := id_ne_empty
  identified := id_mem_fileBody

/-- `FileResource`. Its files can be neither filtered nor sorted. -/
def fileResource : Exposure BuiltinType Empty Unit where
  dto := fileDto
  supportedActions := [.read, .delete, .search, .count, .batchRead]
  customActions := []
  queryableFields := []
  sortableFields := []
  filterOperators := []
  searchFilterType := none

/-- A view of a view of the rows of files. -/
theorem narrows_rows : ∃ view,
    views (.ofReadModel fileDto fileResource.supportedActions [] none)
      [{ fieldOverrides := [("checksum", [(.readResponse, false)])] },
        { exposedActions := some [.search, .batchRead] }] = .ok view ∧
      view.supportedActions = [.search] ∧
      Narrows (.ofReadModel fileDto fileResource.supportedActions [] none)
        [{ fieldOverrides := [("checksum", [(.readResponse, false)])] },
          { exposedActions := some [.search, .batchRead] }] view := by
  have hviews : ∃ view, views (.ofReadModel fileDto fileResource.supportedActions [] none)
      [{ fieldOverrides := [("checksum", [(.readResponse, false)])] },
        { exposedActions := some [.search, .batchRead] }] = .ok view ∧
      view.supportedActions = [.search] := ⟨_, rfl, rfl⟩
  obtain ⟨view, hview, hactions⟩ := hviews
  exact ⟨view, hview, hactions,
    (narrows_iff hview).mpr (queriesReadModel_ofReadModel _ _ _ _ _)⟩

/-- Files can be neither filtered nor sorted, but a view of them that overrides nothing can. -/
theorem not_narrows_files : ∃ view, views fileResource [{}] = .ok view ∧
    "size" ∈ view.sortableFields ∧ ("size", "gt") ∈ view.filterSurface ∧
    ¬ Narrows fileResource [{}] view := by
  have hviews : ∃ view, views fileResource [{}] = .ok view ∧ "size" ∈ view.sortableFields ∧
      ("size", "gt") ∈ view.filterSurface := ⟨_, rfl, by decide, by decide⟩
  obtain ⟨view, hview, hsortable, hfilterable⟩ := hviews
  refine ⟨view, hview, hsortable, hfilterable, fun h => ?_⟩
  exact absurd (h.sortable hsortable) List.not_mem_nil

end Resourcey.ViewChain
