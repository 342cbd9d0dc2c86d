import Resourcey.Http.FilterParameters

/-!
# Declared filter classes over REST

A declared class has two meanings: that of an instance, which lowers itself to a tree, and that of a
request to the routes, whose tree is built of the parameters. The clause that REST makes of one
field decides: if each field is read alike, requests mean what instances mean
(`sameMeaning_of_forms`), and with defaults other than `None` they do not (`meansTheSame_iff`).
-/

namespace Resourcey

open SearchFilter

section
variable [TextRules]

/-- Whether a filter is true of a row, `None` counting as `AllFilter`. -/
def Passes (f : Option SearchFilter) (x : Subject) : Prop := (f.getD .all).matches x = .ok true

/-- What a request gives means what an instance of the class means: the same rows, or a refusal as
invalid input of what the class refuses. -/
def SameMeaning : Except FilterError (Option SearchFilter) → Except String SearchFilter → Prop
  | .ok g, .ok f => ∀ x, Passes g x ↔ f.matches x = .ok true
  | .error (.invalidInput _), .error _ => True
  | _, _ => False

/-! ## The filter of a request -/

namespace FilterLibrary

variable {A : Type}

/-- What the filter of a request is, by the clauses of the fields. -/
inductive Resolves (py : FilterLibrary A) (fields : List (FilterField A))
    (query : List (String × String)) : Except FilterError (Option SearchFilter) → Prop
  | requestValidation {names f} : f ∈ fields →
      py.restClause fields f (textsOf query f.name) = .error (.requestValidation [f.name]) →
      Resolves py fields query (.error (.requestValidation names))
  | invalidInput {m f} : f ∈ fields →
      py.restClause fields f (textsOf query f.name) = .error (.invalidInput m) →
      Resolves py fields query (.error (.invalidInput m))
  | ok {g} : (∀ f ∈ fields, ∃ o, py.restClause fields f (textsOf query f.name) = .ok o) →
      (∀ x, Passes g x ↔
        ∀ f ∈ fields, ∀ o, py.restClause fields f (textsOf query f.name) = .ok o → Passes o x) →
      Resolves py fields query (.ok g)

variable {py : FilterLibrary A} {fields : List (FilterField A)} {query : List (String × String)}

omit [TextRules] in
/-- The name of a field has the separator. -/
theorem separator_infix_name (f : FilterField A) : separator <:+: f.name.toList := by
  rw [clauseName_eq f.named, String.toList_append, String.toList_append]
  exact ⟨f.attrName.toList, f.op.toList, rfl⟩

omit [TextRules] in
theorem mem_presentKeys {key : String} :
    key ∈ presentKeys query ↔ key ∈ query.map (·.1) ∧ separator <:+: key.toList := by
  rw [presentKeys, List.mem_dedup, List.mem_filter, decide_eq_true_iff]

omit [TextRules] in
/-- Without filter parameters no field is given. -/
theorem restClause_of_presentKeys_eq_nil (h : presentKeys query = []) {f : FilterField A}
    (hf : f ∈ fields) : py.restClause fields f (textsOf query f.name) = .ok none := by
  have htexts : textsOf query f.name = [] := by
    rw [textsOf, List.map_eq_nil_iff, List.filter_eq_nil_iff]
    intro p hp heq
    have hkey : p.1 ∈ presentKeys query := by
      refine mem_presentKeys.mpr ⟨List.mem_map_of_mem hp, ?_⟩
      rw [of_decide_eq_true heq]
      exact separator_infix_name f
    rw [h] at hkey
    cases hkey
  obtain ⟨a, hkept⟩ := exists_keptAnnotation hf
  rw [htexts]
  exact restClause_none hkept rfl

omit [TextRules] in
/-- Keys that are names of fields are accepted. -/
theorem checkKeys_eq_ok (hpresent : presentKeys query ≠ [])
    (hknown : ∀ p ∈ query, separator <:+: p.1.toList → ∃ f ∈ fields, f.name = p.1) :
    py.checkKeys (filterSurface fields) query = .ok () := by
  have hmem : ∀ key ∈ presentKeys query,
      key ∈ (filterParameters (filterSurface fields)).map (·.1) := by
    intro key hkey
    obtain ⟨hkey, hsep⟩ := mem_presentKeys.mp hkey
    obtain ⟨p, hp, rfl⟩ := List.mem_map.mp hkey
    obtain ⟨f, hf, hname⟩ := hknown p hp hsep
    obtain ⟨a, hkept⟩ := exists_keptAnnotation hf
    exact List.mem_map.mpr ⟨_, mem_filterParameters.mpr ⟨f, hf, a, hkept, rfl, rfl⟩, hname⟩
  obtain ⟨key, hkey⟩ := List.exists_mem_of_ne_nil _ hpresent
  rw [checkKeys, if_neg (List.ne_nil_of_mem (hmem key hkey)), if_pos]
  simpa [List.filter_eq_nil_iff] using hmem

omit [TextRules] in
/-- If the clauses have no tree, that of a field has no leaf, as invalid input. -/
theorem exists_of_buildWireFilter_error {values : List (String × Value)}
    (h : py.filterDependency (filterSurface fields) query = .ok values)
    {clauses : List (String × String × ClauseOperand)}
    (hclauses : py.wireClauses (filterSurface fields) values = .ok clauses) {e : FilterError}
    (he : py.buildWireFilter clauses = .error e) :
    ∃ m, e = .invalidInput m ∧
      ∃ f ∈ fields, py.restClause fields f (textsOf query f.name) = .error e := by
  rcases bind_eq_error.mp he with he | ⟨children, -, he⟩
  · obtain ⟨c, hc, hfail⟩ := exists_of_mapM_error he
    obtain ⟨f, a, v, hgives, hoperand, heq⟩ := ((mem_of_wireClauses h hclauses).2 c).mp hc
    have hleaf : py.wireLeaf f.op c.2.2 = .error e := by
      rw [heq] at hfail
      cases hleaf : py.wireLeaf f.op c.2.2 with
      | error e' =>
          simp only [hleaf] at hfail
          cases hfail
          rfl
      | ok leaf =>
          simp only [hleaf] at hfail
          cases hfail
    obtain ⟨m, rfl⟩ := invalidInput_of_wireLeaf f.standard hleaf
    refine ⟨m, rfl, f, hgives.mem, ?_⟩
    rw [restClause_eq hgives.kept hgives.read hgives.ne_none, hoperand]
    exact bind_eq_error.mpr (.inr ⟨_, rfl, bind_eq_error.mpr (.inl hleaf)⟩)
  · cases he

/-- The tree of the clauses is true where the clauses of the fields are. -/
theorem passes_buildWireFilter {values : List (String × Value)}
    (h : py.filterDependency (filterSurface fields) query = .ok values)
    {clauses : List (String × String × ClauseOperand)}
    (hclauses : py.wireClauses (filterSurface fields) values = .ok clauses) {g : SearchFilter}
    (hg : py.buildWireFilter clauses = .ok g) :
    (∀ f ∈ fields, ∃ o, py.restClause fields f (textsOf query f.name) = .ok o) ∧
      ∀ x, Passes (some g) x ↔
        ∀ f ∈ fields, ∀ o, py.restClause fields f (textsOf query f.name) = .ok o → Passes o x := by
  obtain ⟨children, hchildren, heq⟩ := bind_eq_ok.mp hg
  cases heq
  obtain ⟨hall, hmem⟩ := mem_of_mapM_ok hchildren
  obtain ⟨hcoerce, hclause⟩ := mem_of_wireClauses h hclauses
  -- The clause of a field that gives a value is a child.
  have hgiven (f : FilterField A) (a : A) (v : Value) (hgives : Gives py fields query f a v) :
      ∃ child ∈ children,
        py.restClause fields f (textsOf query f.name) = .ok (some child) := by
    obtain ⟨operand, hoperand⟩ := hcoerce f a v hgives
    have hc := (hclause (f.attrName, f.op, operand)).mpr ⟨f, a, v, hgives, hoperand, rfl⟩
    obtain ⟨child, hchild⟩ := hall _ hc
    refine ⟨child, (hmem child).mpr ⟨_, hc, hchild⟩, ?_⟩
    rw [restClause_eq hgives.kept hgives.read hgives.ne_none, hoperand]
    cases hleaf : py.wireLeaf f.op operand with
    | error e =>
        simp only [hleaf] at hchild
        cases hchild
    | ok leaf =>
        simp only [hleaf] at hchild
        cases hchild
        exact bind_eq_ok.mpr ⟨operand, rfl, bind_eq_ok.mpr ⟨leaf, hleaf, rfl⟩⟩
  refine ⟨fun f hf => ?_, fun x => ?_⟩
  · rcases restClause_cases h hf with hnone | ⟨a, v, hgives⟩
    · exact ⟨none, hnone⟩
    · obtain ⟨child, -, hchild⟩ := hgiven f a v hgives
      exact ⟨some child, hchild⟩
  · rw [Passes, Option.getD_some, matches_and_eq_true]
    constructor
    · intro hpass f hf o ho
      rcases restClause_cases h hf with hnone | ⟨a, v, hgives⟩
      · cases hnone.symm.trans ho
        rfl
      · obtain ⟨child, hchild, heq⟩ := hgiven f a v hgives
        cases heq.symm.trans ho
        exact hpass child hchild
    · intro hpass child hchild
      obtain ⟨c, hc, hleaf⟩ := (hmem child).mp hchild
      obtain ⟨f, a, v, hgives, hoperand, heq⟩ := (hclause c).mp hc
      have hrest : py.restClause fields f (textsOf query f.name) = .ok (some child) := by
        rw [restClause_eq hgives.kept hgives.read hgives.ne_none, hoperand]
        rw [heq] at hleaf
        cases hwire : py.wireLeaf f.op c.2.2 with
        | error e =>
            simp only [hwire] at hleaf
            cases hleaf
        | ok leaf =>
            simp only [hwire] at hleaf
            cases hleaf
            exact bind_eq_ok.mpr ⟨_, rfl, bind_eq_ok.mpr ⟨leaf, hwire, rfl⟩⟩
      exact hpass f hgives.mem _ hrest

omit [TextRules] in
/-- After request validation the filters are resolved with the values. -/
theorem requestFilter_eq {values : List (String × Value)}
    (h : py.filterDependency (filterSurface fields) query = .ok values) :
    py.requestFilter fields query = py.resolveFilters (filterSurface fields) query values := by
  unfold requestFilter
  simp only [h]
  rfl

omit [TextRules] in
/-- Once the keys are accepted and the clauses coerced, the tree is built unless there are none. -/
theorem resolveFilters_eq {surface : FilterSurface A} {values : List (String × Value)}
    {clauses : List (String × String × ClauseOperand)} (hpresent : presentKeys query ≠ [])
    (hcheck : py.checkKeys surface query = .ok ())
    (hclauses : py.wireClauses surface values = .ok clauses) :
    py.resolveFilters surface query values =
      if clauses = [] then .ok none else (py.buildWireFilter clauses).map some := by
  rw [resolveFilters, if_neg hpresent, hcheck, hclauses]
  cases clauses with
  | nil => rfl
  | cons c clauses =>
      rw [if_neg (List.cons_ne_nil c clauses)]
      cases hbuild : py.buildWireFilter (c :: clauses) with
      | error e =>
          rw [← hbuild]
          rfl
      | ok g =>
          rw [← hbuild]
          rfl

/-- **What a request to a declared surface gives**, if its filter parameters are those of fields. -/
theorem requestFilter_resolves
    (hknown : ∀ p ∈ query, separator <:+: p.1.toList → ∃ f ∈ fields, f.name = p.1) :
    Resolves py fields query (py.requestFilter fields query) := by
  cases hdep : py.filterDependency (filterSurface fields) query with
  | error e =>
      obtain ⟨names, rfl, -, ⟨name, annotation⟩, hp, exc, hread⟩ :=
        exists_of_filterDependency_error hdep
      obtain ⟨f, hf, a, hkept, rfl, rfl⟩ := mem_filterParameters.mp hp
      have hrequest : py.requestFilter fields query = .error (.requestValidation names) :=
        bind_eq_error.mpr (.inl hdep)
      rw [hrequest]
      exact .requestValidation hf (restClause_error hkept hread)
  | ok values =>
      rw [requestFilter_eq hdep]
      by_cases hpresent : presentKeys query = []
      · rw [resolveFilters, if_pos hpresent]
        have hnone (f : FilterField A) (hf : f ∈ fields) :
            py.restClause fields f (textsOf query f.name) = .ok none :=
          restClause_of_presentKeys_eq_nil hpresent hf
        refine .ok (fun f hf => ⟨none, hnone f hf⟩) fun x => iff_of_true rfl fun f hf o ho => ?_
        cases (hnone f hf).symm.trans ho
        rfl
      · have hcheck : py.checkKeys (filterSurface fields) query = .ok () :=
          checkKeys_eq_ok hpresent hknown
        cases hclauses : py.wireClauses (filterSurface fields) values with
        | error e =>
            obtain ⟨m, rfl, f, hf, hrest⟩ := exists_of_wireClauses_error hdep hclauses
            rw [resolveFilters, if_neg hpresent, hcheck, hclauses]
            exact .invalidInput hf hrest
        | ok clauses =>
            rw [resolveFilters_eq hpresent hcheck hclauses]
            cases hbuild : py.buildWireFilter clauses with
            | error e =>
                obtain ⟨m, rfl, f, hf, hrest⟩ :=
                  exists_of_buildWireFilter_error hdep hclauses hbuild
                have hne : clauses ≠ [] := by
                  rintro rfl
                  cases hbuild
                rw [if_neg hne]
                exact .invalidInput hf hrest
            | ok g =>
                obtain ⟨hall, hpasses⟩ := passes_buildWireFilter hdep hclauses hbuild
                split
                · next hempty =>
                    subst hempty
                    cases hbuild
                    exact .ok hall hpasses
                · exact .ok hall hpasses

end FilterLibrary

/-! ## The filter of an instance -/

/-- An instance is true of a row where the clauses of its fields are. -/
theorem objectFilter_matches {values : List (String × Value)} {x : Subject} :
    (objectFilter values).matches x = .ok true ↔
      ∀ p ∈ values, ∀ g, clauseFor p = some g → g.matches x = .ok true := by
  rw [objectFilter, «matches», buildStandardFilter, matches_and_eq_true]
  constructor
  · intro h p hp g hg
    exact h g (List.mem_filterMap.mpr ⟨p, hp, hg⟩)
  · intro h g hg
    obtain ⟨p, hp, hg⟩ := List.mem_filterMap.mp hg
    exact h p hp g hg

omit [TextRules] in
/-- An instance is refused exactly if that of one of its fields is, for a set that is too large. -/
theorem construct_eq (values : List (String × Value)) :
    (∃ m, construct values = .error m ∧ ∃ p ∈ values, ∃ m, construct [p] = .error m) ∨
      construct values = .ok (objectFilter values) ∧
        ∀ p ∈ values, construct [p] = .ok (objectFilter [p]) := by
  cases hfind : (values.filterMap setSize).find? (maxInValues < ·) with
  | some n =>
      refine .inl ⟨capMessage n, by rw [construct, hfind], ?_⟩
      obtain ⟨p, hp, hsize⟩ := List.mem_filterMap.mp (List.mem_of_find?_eq_some hfind)
      have hlarge : maxInValues < n := by simpa using List.find?_some hfind
      exact ⟨p, hp, capMessage n, by simp [construct, List.filterMap_cons_some hsize, hlarge]⟩
  | none =>
      refine .inr ⟨by rw [construct, hfind], fun p hp => ?_⟩
      rw [List.find?_eq_none] at hfind
      cases hsize : setSize p with
      | none => simp [construct, List.filterMap_cons_none hsize]
      | some n =>
          have hsmall : ¬ maxInValues < n := by
            simpa using hfind n (List.mem_filterMap.mpr ⟨p, hp, hsize⟩)
          simp [construct, List.filterMap_cons_some hsize, hsmall]

/-- An instance that is built is true of a row where those of its fields are. -/
theorem construct_matches {values : List (String × Value)} {f : SearchFilter}
    (h : construct values = .ok f) (x : Subject) : f.matches x = .ok true ↔
      ∀ p ∈ values, ∀ g, construct [p] = .ok g → g.matches x = .ok true := by
  rcases construct_eq values with ⟨m, hm, -⟩ | ⟨hok, hall⟩
  · cases h.symm.trans hm
  · cases h.symm.trans hok
    rw [objectFilter_matches]
    refine forall₂_congr fun p hp => ?_
    constructor
    · intro hclause g hg
      cases (hall p hp).symm.trans hg
      exact objectFilter_matches.mpr (List.forall_mem_singleton.mpr hclause)
    · intro hclause
      exact List.forall_mem_singleton.mp (objectFilter_matches.mp (hclause _ (hall p hp)))

/-! ## The class over REST -/

namespace FilterLibrary

variable {A : Type}

/-- Every wire form of a value of a field is read over REST as the value. -/
def ReadsAlike (py : FilterLibrary A) (fields : List (FilterField A)) : Prop :=
  ∀ f ∈ fields, ∀ texts v, py.Reads f texts v →
    SameMeaning (py.restClause fields f texts) (construct [(f.name, v)])

/-- The class means over REST what it means in code. -/
def MeansTheSame (py : FilterLibrary A) (fields : List (FilterField A)) : Prop :=
  ∀ query values, py.Forms fields query values →
    SameMeaning (py.requestFilter fields query)
      (construct (fields.map fun f => (f.name, (values f.name).getD f.default)))

variable {py : FilterLibrary A} {fields : List (FilterField A)} {query : List (String × String)}

/-- If each field means over REST what its value means, so does the request. -/
theorem sameMeaning_of_fields
    (hknown : ∀ p ∈ query, separator <:+: p.1.toList → ∃ f ∈ fields, f.name = p.1)
    {value : FilterField A → Value} (h : ∀ f ∈ fields,
      SameMeaning (py.restClause fields f (textsOf query f.name)) (construct [(f.name, value f)])) :
    SameMeaning (py.requestFilter fields query)
      (construct (fields.map fun f => (f.name, value f))) := by
  have hresolves : Resolves py fields query _ := requestFilter_resolves hknown
  generalize py.requestFilter fields query = answer at hresolves ⊢
  rcases construct_eq (fields.map fun f => (f.name, value f)) with
    ⟨m, hm, p, hp, m', hp'⟩ | ⟨hok, hall⟩
  · obtain ⟨f, hf, rfl⟩ := List.mem_map.mp hp
    have hsame := h f hf
    rw [hm]
    rw [hp'] at hsame
    cases hresolves with
    | requestValidation hg hrest =>
        have hsame' := h _ hg
        rw [hrest] at hsame'
        exact hsame'.elim
    | invalidInput => trivial
    | ok hclause =>
        obtain ⟨o, ho⟩ := hclause f hf
        rw [ho] at hsame
        exact hsame.elim
  · rw [List.forall_mem_map] at hall
    rw [hok]
    cases hresolves with
    | requestValidation hg hrest =>
        have hsame := h _ hg
        rw [hrest] at hsame
        exact hsame.elim
    | invalidInput hg hrest =>
        have hsame := h _ hg
        rw [hrest, hall _ hg] at hsame
        exact hsame.elim
    | ok hclause hpasses =>
        intro x
        rw [hpasses, construct_matches hok, List.forall_mem_map]
        refine forall₂_congr fun f hf => ?_
        obtain ⟨o, ho⟩ := hclause f hf
        have hsame := h f hf
        rw [ho, hall f hf] at hsame
        constructor
        · intro hpass g hg
          cases (hall f hf).symm.trans hg
          exact (hsame x).mp (hpass o ho)
        · intro hmatch o' ho'
          cases ho.symm.trans ho'
          exact (hsame x).mpr (hmatch _ (hall f hf))

omit [TextRules] in
/-- A field that is not given gives no clause. -/
theorem restClause_nil {f : FilterField A} (hf : f ∈ fields) :
    py.restClause fields f [] = .ok none := by
  obtain ⟨a, hkept⟩ := exists_keptAnnotation hf
  exact restClause_none hkept rfl

/-- A field without a value is true of every row. -/
theorem construct_none (name : String) :
    construct [(name, .none)] = .ok (objectFilter [(name, .none)]) ∧
      ∀ x, (objectFilter [(name, .none)]).matches x = .ok true := by
  refine ⟨?_, fun x => ?_⟩
  · rcases construct_eq [(name, .none)] with ⟨m, hm, -⟩ | ⟨hok, -⟩
    · cases hsize : setSize (name, .none) with
      | none => simp [construct, List.filterMap_cons_none hsize] at hm
      | some n =>
          have hn : n = 1 := by
            simp only [setSize] at hsize
            split at hsize
            · cases hsize
              rfl
            · cases hsize
          simp [construct, List.filterMap_cons_some hsize, hn, maxInValues] at hm
    · exact hok
  · refine objectFilter_matches.mpr fun p hp g hg => ?_
    rw [List.mem_singleton.mp hp] at hg
    cases hg

/-- **The fields without a value do not count.** -/
theorem sameMeaning_of_forms (h : py.ReadsAlike fields) {values : String → Option Value}
    (hforms : py.Forms fields query values) :
    SameMeaning (py.requestFilter fields query)
      (construct (fields.map fun f => (f.name, (values f.name).getD .none))) := by
  refine sameMeaning_of_fields hforms.known fun f hf => ?_
  cases hvalue : values f.name with
  | none =>
      rw [hforms.unset f hf hvalue, restClause_nil hf, Option.getD_none, (construct_none f.name).1]
      exact fun x => iff_of_true rfl ((construct_none f.name).2 x)
  | some v => exact h f hf _ v (hforms.reads f hf v hvalue)

/-! ### The exact condition -/

/-- No leaf of a value is true of null. -/
theorem leafFor_matches_none {op : String} {v : Value} {leaf : SearchFilter}
    (h : leafFor op v = some leaf) (hv : v ≠ .none) : leaf.matches (.value .none) ≠ .ok true := by
  unfold leafFor at h
  split at h
  all_goals cases h
  · cases v with
    | none => exact absurd rfl hv
    | scalar _ | list _ => simp [«matches», Subject.pyEq, Value.pyEq]
  · cases v <;> simp [«matches», Subject.compare, OrderOp.compare]
  · cases v <;> simp [«matches», Subject.compare, OrderOp.compare]
  · cases v <;> simp [«matches», Subject.compare, OrderOp.compare]
  · cases v <;> simp [«matches», Subject.compare, OrderOp.compare]
  · cases v <;> simp [«matches», memContains]
  · cases v with
    | none => exact absurd rfl hv
    | scalar s => cases s <;> simp [«matches», SearchFilter.setOf, Subject.pyEq, Value.pyEq]
    | list items => simp [«matches», SearchFilter.setOf, Subject.pyEq, Value.pyEq]

/-- A default other than `None` keeps an instance from a row of nulls. -/
theorem objectFilter_matches_nulls (f : FilterField A) {v : Value}
    (h : (objectFilter [(f.name, v)]).matches (.object fun _ => .none) = .ok true) : v = .none := by
  by_contra hv
  obtain ⟨leaf, hleaf⟩ := exists_leafFor f.standard v
  have hclause : clauseFor (f.name, v) = some (attr_ f.attrName leaf) := by
    cases v with
    | none => exact absurd rfl hv
    | scalar _ | list _ => simp [clauseFor, f.named, hleaf]
  have hmatch := objectFilter_matches.mp h _ (List.mem_singleton_self _) _ hclause
  have hattr : attr_ f.attrName leaf = .attr f.attrName leaf := by
    unfold leafFor at hleaf
    split at hleaf
    all_goals cases hleaf
    all_goals rfl
  rw [hattr, «matches»] at hmatch
  exact leafFor_matches_none hleaf hv hmatch

omit [TextRules] in
/-- A request that gives one field alone. -/
theorem textsOf_single (name : String) (texts : List String) (other : String) :
    textsOf (texts.map fun text => (name, text)) other = if name = other then texts else [] := by
  induction texts with
  | nil => split <;> rfl
  | cons text texts ih =>
      simp only [textsOf, List.map_cons] at ih ⊢
      by_cases hname : name = other
      · rw [List.filter_cons_of_pos (by simpa using hname), List.map_cons, ih, if_pos hname,
          if_pos hname]
      · rw [List.filter_cons_of_neg (by simpa using hname), ih, if_neg hname, if_neg hname]

/-- A class that means the same has no default: an empty request is true of every row. -/
theorem default_eq_none_of_meansTheSame (h : py.MeansTheSame fields) :
    ∀ f ∈ fields, f.default = .none := by
  intro f hf
  have hforms : py.Forms fields [] fun _ => none :=
    ⟨fun _ hp => absurd hp List.not_mem_nil, fun _ _ _ => rfl,
      fun _ _ v hv => absurd hv.symm (Option.some_ne_none v)⟩
  have hsame := h [] _ hforms
  have hresolves : Resolves py fields [] _ := requestFilter_resolves hforms.known
  generalize py.requestFilter fields [] = answer at hresolves hsame
  have hnil (g : FilterField A) (hg : g ∈ fields) :
      py.restClause fields g (textsOf [] g.name) = .ok none := restClause_nil hg
  cases hresolves with
  | requestValidation hg hrest => cases (hnil _ hg).symm.trans hrest
  | invalidInput hg hrest => cases (hnil _ hg).symm.trans hrest
  | ok hclause hpasses =>
      rcases construct_eq (fields.map fun f => (f.name, (none : Option Value).getD f.default))
        with ⟨m, hm, -⟩ | ⟨hok, hall⟩
      · rw [hm] at hsame
        exact hsame.elim
      · rw [hok] at hsame
        have hmatch := (hsame (.object fun _ => .none)).mp <| (hpasses _).mpr
          fun g hg o ho => by
            cases (hnil g hg).symm.trans ho
            rfl
        have hmem := List.mem_map_of_mem
          (f := fun f : FilterField A => (f.name, (none : Option Value).getD f.default)) hf
        exact objectFilter_matches_nulls f
          ((construct_matches hok _).mp hmatch _ hmem _ (hall _ hmem))

/-- A class that means the same reads every field alike: the field may be the only one given. -/
theorem readsAlike_of_meansTheSame (hnodup : (fields.map (·.name)).Nodup)
    (h : py.MeansTheSame fields) : py.ReadsAlike fields := by
  have hdefault := default_eq_none_of_meansTheSame h
  intro f hf texts v hreads
  let values : String → Option Value := fun name => if f.name = name then some v else none
  have htexts (g : FilterField A) : textsOf (texts.map fun text => (f.name, text)) g.name =
      if f.name = g.name then texts else [] := textsOf_single f.name texts g.name
  have hsame_field {g : FilterField A} (hg : g ∈ fields) (hname : f.name = g.name) : f = g :=
    List.inj_on_of_nodup_map hnodup hf hg hname
  have hforms : py.Forms fields (texts.map fun text => (f.name, text)) values := by
    refine ⟨fun p hp _ => ?_, fun g hg hnone => ?_, fun g hg w hw => ?_⟩
    · obtain ⟨text, -, rfl⟩ := List.mem_map.mp hp
      exact ⟨f, hf, rfl⟩
    · rw [htexts, if_neg]
      intro hname
      simp [values, hname] at hnone
    · by_cases hname : f.name = g.name
      · obtain rfl := hsame_field hg hname
        simp only [values, if_true, Option.some.injEq] at hw
        subst hw
        rwa [htexts, if_pos rfl]
      · simp [values, hname] at hw
  have hothers {g : FilterField A} (hg : g ∈ fields) (hne : f.name ≠ g.name) :
      (values g.name).getD g.default = .none := by
    simp [values, hne, hdefault g hg]
  have hself : (values f.name).getD f.default = v := by simp [values]
  have hrest_self : textsOf (texts.map fun text => (f.name, text)) f.name = texts := by
    rw [htexts, if_pos rfl]
  have hrest_others {g : FilterField A} (hg : g ∈ fields) (hne : f.name ≠ g.name) :
      py.restClause fields g (textsOf (texts.map fun text => (f.name, text)) g.name) =
        .ok none := by
    rw [htexts, if_neg hne]
    exact restClause_nil hg
  have hsame := h _ _ hforms
  have hresolves : Resolves py fields _ _ := requestFilter_resolves hforms.known
  generalize py.requestFilter fields _ = answer at hresolves hsame
  rcases construct_eq (fields.map fun f => (f.name, (values f.name).getD f.default)) with
    ⟨m, hm, p, hp, m', hp'⟩ | ⟨hok, hall⟩
  · obtain ⟨g, hg, rfl⟩ := List.mem_map.mp hp
    by_cases hname : f.name = g.name
    · obtain rfl := hsame_field hg hname
      rw [hself] at hp'
      rw [hm] at hsame
      rw [hp']
      cases hresolves with
      | requestValidation => exact hsame.elim
      | ok => exact hsame.elim
      | @invalidInput _ g' hg' hrest =>
          by_cases hname' : f.name = g'.name
          · obtain rfl := hsame_field hg' hname'
            rw [hrest_self] at hrest
            rw [hrest]
            trivial
          · cases (hrest_others hg' hname').symm.trans hrest
    · rw [hothers hg hname] at hp'
      cases (construct_none g.name).1.symm.trans hp'
  · rw [List.forall_mem_map] at hall
    have hallf := hall f hf
    rw [hself] at hallf
    rw [hok] at hsame
    rw [hallf]
    cases hresolves with
    | requestValidation => exact hsame.elim
    | invalidInput => exact hsame.elim
    | ok hclause hpasses =>
        obtain ⟨o, ho⟩ := hclause f hf
        rw [hrest_self] at ho
        rw [ho]
        intro x
        have hiff := hsame x
        rw [hpasses, construct_matches hok, List.forall_mem_map] at hiff
        constructor
        · intro hpass
          refine hiff.mp (fun g hg o' ho' => ?_) f hf _ (hself ▸ hallf)
          by_cases hname : f.name = g.name
          · obtain rfl := hsame_field hg hname
            rw [hrest_self] at ho'
            cases ho.symm.trans ho'
            exact hpass
          · cases (hrest_others hg hname).symm.trans ho'
            rfl
        · intro hmatch
          refine hiff.mpr (fun g hg instance' hinstance => ?_) f hf o (hrest_self.symm ▸ ho)
          by_cases hname : f.name = g.name
          · obtain rfl := hsame_field hg hname
            rw [hself] at hinstance
            cases hallf.symm.trans hinstance
            exact hmatch
          · rw [hothers hg hname] at hinstance
            cases (construct_none g.name).1.symm.trans hinstance
            exact (construct_none g.name).2 x

/-- **A declared class means over REST what it means in code if and only if** its fields have no
default and every wire form of a value of a field is read by the annotation that the surface keeps
as a clause of the same rows. -/
theorem meansTheSame_iff (hnodup : (fields.map (·.name)).Nodup) :
    py.MeansTheSame fields ↔ (∀ f ∈ fields, f.default = .none) ∧ py.ReadsAlike fields := by
  constructor
  · exact fun h => ⟨default_eq_none_of_meansTheSame h, readsAlike_of_meansTheSame hnodup h⟩
  · rintro ⟨hdefault, hread⟩ query values hforms
    have hvalues : (fields.map fun f => (f.name, (values f.name).getD f.default)) =
        fields.map fun f => (f.name, (values f.name).getD .none) :=
      List.map_congr_left fun f hf => by rw [hdefault f hf]
    rw [hvalues]
    exact sameMeaning_of_forms hread hforms

/-! ### Classes that are read alike -/

/-- On each attribute one annotation is kept: that of its comparisons, which is no sequence, and of
the items of its sets; containment is of text. -/
structure Uniform (py : FilterLibrary A) (fields : List (FilterField A)) : Prop where
  compared : ∀ f ∈ fields, f.op ≠ "contains" → f.op ≠ "in" →
    keptAnnotation fields f.attrName = some f.annotation ∧ py.isSequence f.annotation = false
  contained : ∀ f ∈ fields, f.op = "contains" → py.isSequence f.annotation = false ∧
    ∀ text v, py.validate f.annotation (.text text) = .ok v → v = .scalar (.str text)
  members : ∀ f ∈ fields, f.op = "in" → ∃ a, keptAnnotation fields f.attrName = some a ∧
    (∀ text v, py.validate f.annotation (.text text) ≠ .ok v) ∧
    ∀ items v, py.validate f.annotation (.texts items) = .ok v → ∃ ss : List Scalar,
      v = .list ss ∧ (items.mapM fun item => py.validate a (.text item)) = .ok (ss.map .scalar)

omit [TextRules] in
/-- The clause of an instance is the leaf of its value. -/
theorem clauseFor_eq (f : FilterField A) {v : Value} (hv : v ≠ .none) :
    clauseFor (f.name, v) = (leafFor f.op v).map (attr_ f.attrName) := by
  cases v with
  | none => exact absurd rfl hv
  | scalar _ | list _ =>
      simp only [clauseFor, f.named, Option.bind_eq_bind, Option.bind_some]
      exact Option.map_eq_bind.symm

/-- A clause of the leaf of the value means what an instance with the value means. -/
theorem sameMeaning_leaf (f : FilterField A) {v : Value} {leaf : SearchFilter} (hv : v ≠ .none)
    (hleaf : leafFor f.op v = some leaf) :
    SameMeaning (.ok (some (attr_ f.attrName leaf))) (.ok (objectFilter [(f.name, v)])) := by
  intro x
  rw [objectFilter_matches, List.forall_mem_singleton, clauseFor_eq f hv, hleaf, Option.map_some]
  exact ⟨fun h g hg => Option.some.inj hg ▸ h, fun h => h _ rfl⟩

omit [TextRules] in
/-- A field with another operator than `in` has no set that could be too large. -/
theorem construct_of_ne_in (f : FilterField A) (hop : f.op ≠ "in") (v : Value) :
    construct [(f.name, v)] = .ok (objectFilter [(f.name, v)]) := by
  have hsize : setSize (f.name, v) = none := by
    simp only [setSize, f.named]
    split
    · next heq =>
        rw [Option.some.injEq, Prod.mk.injEq] at heq
        exact absurd heq.2 hop
    · rfl
  simp [construct, List.filterMap_cons_none hsize]

omit [TextRules] in
/-- A set is refused exactly if it is too large. -/
theorem construct_in (f : FilterField A) (hop : f.op = "in") (v : Value) :
    construct [(f.name, v)] = if maxInValues < (SearchFilter.setOf v).length
      then .error (capMessage (SearchFilter.setOf v).length)
      else .ok (objectFilter [(f.name, v)]) := by
  have hsize : setSize (f.name, v) = some (SearchFilter.setOf v).length := by
    simp only [setSize, f.named, hop]
  rw [construct, List.filterMap_cons_some hsize]
  by_cases hlarge : maxInValues < (SearchFilter.setOf v).length
  · simp [hlarge]
  · simp [hlarge]

/-- A value that is read as it is gives the clause of the value. -/
theorem sameMeaning_of_read {f : FilterField A} {a : A} {texts : List String} {v : Value}
    (hop : f.op ≠ "in") (hkept : keptAnnotation fields f.attrName = some a)
    (hread : py.readParameter ( valueAnnotation f.op a) texts = .ok v) :
    SameMeaning (py.restClause fields f texts) (construct [(f.name, v)]) := by
  by_cases hv : v = .none
  · subst hv
    rw [restClause_none hkept hread, (construct_none f.name).1]
    exact fun x => iff_of_true rfl ((construct_none f.name).2 x)
  · obtain ⟨leaf, hleaf⟩ := exists_leafFor f.standard v
    have hcoerce : py.coerceFilterValue f.op v (some a) = .ok (.one v) := by
      unfold coerceFilterValue
      split
      · next heq => exact absurd heq hop
      · rfl
    have hwire : py.wireLeaf f.op (.one v) = .ok leaf := by simp only [wireLeaf, hleaf]
    rw [restClause_eq hkept hread hv, hcoerce, construct_of_ne_in f hop]
    simp only [bind, Except.bind, hwire]
    exact sameMeaning_leaf f hv hleaf

/-- **A uniform class is read alike.** -/
theorem readsAlike_of_uniform (h : py.Uniform fields) : py.ReadsAlike fields := by
  rintro f hf texts v ⟨-, text, hlast, hreads⟩
  by_cases hin : f.op = "in"
  · obtain ⟨a, hkept, hscalar, hitems⟩ := h.members f hf hin
    rcases hreads with hv | ⟨-, hv⟩ | ⟨hop, -⟩
    · exact absurd hv (hscalar text v)
    · obtain ⟨ss, rfl, hmap⟩ := hitems _ v hv
      have hread : py.readParameter ( valueAnnotation f.op a) texts =
          .ok (.scalar (.str text)) := by
        simp only [readParameter, hlast, valueAnnotation, hin, or_true, if_true]
      have hcoerce : py.coerceFilterValue f.op (.scalar (.str text)) (some a) =
          .ok (.many (ss.map .scalar)) := by
        rw [hin]
        simp only [coerceFilterValue, hmap]
      have hsize : (SearchFilter.setOf (.list ss)) = ss.map .scalar := rfl
      rw [restClause_eq hkept hread (by simp), hcoerce, construct_in f hin, hsize]
      simp only [bind, Except.bind, wireLeaf]
      by_cases hlarge : (ss.map Value.scalar).length ≤ maxInValues
      · have hleaf : leafFor f.op (.list ss) = some (.isIn (ss.map .scalar)) := by
          rw [hin]
          rfl
        rw [if_pos hlarge, if_neg (by omega)]
        exact sameMeaning_leaf f (by simp) hleaf
      · rw [if_neg hlarge, if_pos (by omega)]
        trivial
    · exact absurd hin hop
  · by_cases hcontains : f.op = "contains"
    · obtain ⟨hsequence, htext⟩ := h.contained f hf hcontains
      obtain ⟨a, hkept⟩ := exists_keptAnnotation hf
      refine sameMeaning_of_read hin hkept ?_
      rcases hreads with hv | ⟨hop, -⟩ | ⟨-, hseq, -⟩
      · rw [htext text v hv]
        simp only [readParameter, hlast, valueAnnotation, hcontains, true_or, if_true]
      · exact absurd hop hin
      · exact absurd hseq (by simp [hsequence])
    · obtain ⟨hkept, hsequence⟩ := h.compared f hf hcontains hin
      refine sameMeaning_of_read hin hkept ?_
      rcases hreads with hv | ⟨hop, -⟩ | ⟨-, hseq, -⟩
      · simpa [readParameter, hlast, valueAnnotation, hcontains, hin, hsequence] using hv
      · exact absurd hop hin
      · exact absurd hseq (by simp [hsequence])

/-! ### What is refused -/

/-- No field on the attribute of the field accepts what the query gives it. -/
def Unread (py : FilterLibrary A) (fields : List (FilterField A)) (query : List (String × String))
    (f : FilterField A) : Prop :=
  ∃ text, (textsOf query f.name).getLast? = some text ∧
    ∀ g ∈ fields, g.attrName = f.attrName → ∀ v, py.validate g.annotation (.text text) ≠ .ok v ∧
      py.validate g.annotation (.texts (textsOf query f.name)) ≠ .ok v

/-- No field on the attribute of the field accepts an item of the set that the query gives it. -/
def UnreadItem (py : FilterLibrary A) (fields : List (FilterField A))
    (query : List (String × String)) (f : FilterField A) : Prop :=
  ∃ text, (textsOf query f.name).getLast? = some text ∧ ∃ item ∈ wireItems text,
    ∀ g ∈ fields, g.attrName = f.attrName → ∀ v, py.validate g.annotation (.text item) ≠ .ok v

omit [TextRules] in
/-- Request validation names a parameter that is compared and whose text no field of its attribute
accepts. -/
theorem requestValidation_of_unread {f : FilterField A} (hf : f ∈ fields)
    (hcontains : f.op ≠ "contains") (hin : f.op ≠ "in") (hunread : Unread py fields query f) :
    ∃ names, f.name ∈ names ∧
      py.requestFilter fields query = .error (.requestValidation names) := by
  obtain ⟨text, hlast, hunread⟩ := hunread
  obtain ⟨a, hkept⟩ := exists_keptAnnotation hf
  obtain ⟨g, hg, hattr, rfl⟩ := mem_of_keptAnnotation hkept
  have hparameter := mem_filterParameters.mpr ⟨f, hf, g.annotation, hkept, rfl, rfl⟩
  obtain ⟨exc, hread⟩ : ∃ exc, py.readParameter ( valueAnnotation f.op g.annotation)
      (textsOf query f.name) = .error exc := by
    simp only [readParameter, hlast, valueAnnotation, hcontains, hin, or_self, if_false]
    cases hv : py.validate g.annotation
      (if py.isSequence g.annotation = true then .texts (textsOf query f.name) else .text text) with
    | error exc => exact ⟨exc, rfl⟩
    | ok v =>
        split at hv
        · exact absurd hv (hunread g hg hattr v).2
        · exact absurd hv (hunread g hg hattr v).1
  cases hdep : py.filterDependency (filterSurface fields) query with
  | error e =>
      obtain ⟨names, rfl, hnames, -⟩ := exists_of_filterDependency_error hdep
      exact ⟨names, hnames _ hparameter exc hread, bind_eq_error.mpr (.inl hdep)⟩
  | ok values =>
      obtain ⟨v, hv⟩ := (mem_of_filterDependency hdep).1 _ hparameter
      cases hread.symm.trans hv

omit [TextRules] in
/-- Keys that are not accepted are invalid input. -/
theorem invalidInput_of_checkKeys {surface : FilterSurface A} {e : FilterError}
    (h : py.checkKeys surface query = .error e) : ∃ m, e = .invalidInput m := by
  simp only [checkKeys] at h
  split at h
  · cases h
    exact ⟨_, rfl⟩
  · split at h
    · cases h
    · cases h
      exact ⟨_, rfl⟩

omit [TextRules] in
/-- An item of a set that no field of its attribute accepts is invalid input, unless request
validation rejects a parameter that is compared. -/
theorem invalidInput_of_unreadItem {f : FilterField A} (hf : f ∈ fields) (hin : f.op = "in")
    (hunread : UnreadItem py fields query f) :
    (∃ m, py.requestFilter fields query = .error (.invalidInput m)) ∨
      ∃ names, py.requestFilter fields query = .error (.requestValidation names) ∧
        ∃ g ∈ fields, g.op ≠ "contains" ∧ g.op ≠ "in" ∧ g.name ∈ names := by
  obtain ⟨text, hlast, item, hitem, hunread⟩ := hunread
  cases hdep : py.filterDependency (filterSurface fields) query with
  | error e =>
      obtain ⟨names, rfl, hnames, ⟨name, annotation⟩, hp, exc, hread⟩ :=
        exists_of_filterDependency_error hdep
      have hname := hnames _ hp exc hread
      obtain ⟨g, hg, a, hkept, rfl, rfl⟩ := mem_filterParameters.mp hp
      refine .inr ⟨names, bind_eq_error.mpr (.inl hdep), g, hg, ?_⟩
      by_cases hop : g.op = "contains" ∨ g.op = "in"
      · simp only [ valueAnnotation, hop, if_true, readParameter] at hread
        split at hread <;> cases hread
      · rw [not_or] at hop
        exact ⟨hop.1, hop.2, hname⟩
  | ok values =>
      refine .inl ?_
      obtain ⟨a, hkept⟩ := exists_keptAnnotation hf
      obtain ⟨g, hg, hattr, rfl⟩ := mem_of_keptAnnotation hkept
      have hgives : Gives py fields query f g.annotation (.scalar (.str text)) := by
        refine ⟨hf, hkept, ?_, by simp⟩
        simp only [readParameter, hlast, valueAnnotation, hin, or_true, if_true]
      have hpresent : presentKeys query ≠ [] := by
        intro hnil
        have hnone : py.restClause fields f (textsOf query f.name) = .ok none :=
          restClause_of_presentKeys_eq_nil hnil hf
        rw [restClause_eq hgives.kept hgives.read hgives.ne_none] at hnone
        obtain ⟨operand, -, hnone⟩ := bind_eq_ok.mp hnone
        obtain ⟨leaf, -, hnone⟩ := bind_eq_ok.mp hnone
        cases hnone
      rw [requestFilter_eq hdep, resolveFilters, if_neg hpresent]
      cases hcheck : py.checkKeys (filterSurface fields) query with
      | error e =>
          obtain ⟨m, rfl⟩ := invalidInput_of_checkKeys hcheck
          exact ⟨m, rfl⟩
      | ok u =>
          cases hclauses : py.wireClauses (filterSurface fields) values with
          | error e =>
              obtain ⟨m, rfl, -⟩ := exists_of_wireClauses_error hdep hclauses
              exact ⟨m, rfl⟩
          | ok clauses =>
              obtain ⟨operand, hoperand⟩ := (mem_of_wireClauses hdep hclauses).1 f _ _ hgives
              rw [hin] at hoperand
              simp only [coerceFilterValue] at hoperand
              split at hoperand
              · next vs hvs =>
                  obtain ⟨v, hv⟩ := (mem_of_mapM_ok hvs).1 item hitem
                  exact absurd hv (hunread g hg hattr v)
              · cases hoperand

/-- **A declared class over REST.** Where every field is read alike, a request means what the
instance of the class means with the values of the fields that are given and `None` for the others.
What no field of an attribute accepts is refused, by request validation where it would be compared
and as invalid input in a set. -/
theorem requestFilter_declared (py : FilterLibrary A) (fields : List (FilterField A))
    (query : List (String × String)) :
    (py.ReadsAlike fields → ∀ values, py.Forms fields query values →
      SameMeaning (py.requestFilter fields query)
        (construct (fields.map fun f => (f.name, (values f.name).getD .none)))) ∧
    (∀ f ∈ fields, f.op ≠ "contains" → f.op ≠ "in" → Unread py fields query f → ∃ names,
      f.name ∈ names ∧ py.requestFilter fields query = .error (.requestValidation names)) ∧
    ∀ f ∈ fields, f.op = "in" → UnreadItem py fields query f →
      (∃ m, py.requestFilter fields query = .error (.invalidInput m)) ∨
        ∃ names, py.requestFilter fields query = .error (.requestValidation names) ∧
          ∃ g ∈ fields, g.op ≠ "contains" ∧ g.op ≠ "in" ∧ g.name ∈ names :=
  ⟨fun h _ hforms => sameMeaning_of_forms h hforms,
    fun _ hf hcontains hin hunread => requestValidation_of_unread hf hcontains hin hunread,
    fun _ hf hin hunread => invalidInput_of_unreadItem hf hin hunread⟩

end FilterLibrary

end

/-! ## A class of scores -/

/-- The annotations `int | None`, `tuple[int, ...] | None` and `str | None`. -/
inductive FilterHint where
  | int
  | ints
  | str
  deriving DecidableEq

/-- The number that digits are. -/
def digitsNumber (text : String) : Option Scalar :=
  if text.toList ≠ [] ∧ text.toList.all Char.isDigit then
    some (.int (text.toList.foldl (fun n c => 10 * n + (c.toNat - 48)) 0 : ℕ))
  else none

/-- The validation of the annotations. Numbers are written in digits. -/
def FilterHint.library : FilterLibrary FilterHint where
  validate
    | .int, .text text =>
      (digitsNumber text).elim (.error "not an integer") fun s => .ok (.scalar s)
    | .str, .text text => .ok (.scalar (.str text))
    | .ints, .texts texts =>
      (texts.mapM digitsNumber).elim (.error "not an integer") fun items => .ok (.list items)
    | _, _ => .error "not a value"
  isSequence hint := hint = .ints
  validationError message := "Value error, " ++ message
  reprNames names := "[" ++ ", ".intercalate names ++ "]"

/-- `score__ge: int | None`, with a default. -/
def scoreGe (default : Value) : FilterField FilterHint where
  name := "score__ge"
  attrName := "score"
  op := "ge"
  annotation := .int
  constraints _ := true
  default := default
  named := by decide
  standard := by decide

/-- `id__in: tuple[int, ...] | None = None`. -/
def idIn : FilterField FilterHint where
  name := "id__in"
  attrName := "id"
  op := "in"
  annotation := .ints
  constraints _ := true
  default := .none
  named := by decide
  standard := by decide

/-- `id__eq: int | None = None`. -/
def idEq : FilterField FilterHint where
  name := "id__eq"
  attrName := "id"
  op := "eq"
  annotation := .int
  constraints _ := true
  default := .none
  named := by decide
  standard := by decide

namespace FilterHint

/-- The class with the fields `score__ge`, `id__in` and `id__eq`, in this order, is uniform. -/
theorem uniform_scores : library.Uniform [scoreGe .none, idIn, idEq] := by
  refine ⟨?_, ?_, ?_⟩
  · intro f hf hcontains hin
    simp only [List.mem_cons, List.not_mem_nil, or_false] at hf
    rcases hf with rfl | rfl | rfl
    · exact ⟨rfl, rfl⟩
    · exact absurd rfl hin
    · exact ⟨rfl, rfl⟩
  · intro f hf hcontains
    simp only [List.mem_cons, List.not_mem_nil, or_false] at hf
    rcases hf with rfl | rfl | rfl
    all_goals exact absurd hcontains (by decide)
  · intro f hf hin
    simp only [List.mem_cons, List.not_mem_nil, or_false] at hf
    rcases hf with rfl | rfl | rfl
    · exact absurd hin (by decide)
    · refine ⟨.int, rfl, fun text v => by simp [library, idIn], fun items v hv => ?_⟩
      simp only [library, idIn] at hv ⊢
      cases hitems : items.mapM digitsNumber with
      | none => simp [hitems] at hv
      | some ss =>
          simp only [hitems, Option.elim_some, Except.ok.injEq] at hv
          refine ⟨ss, hv.symm, ?_⟩
          clear hv
          induction items generalizing ss with
          | nil =>
              cases hitems
              rfl
          | cons item items ih =>
              simp only [List.mapM_cons, Option.bind_eq_bind, Option.bind_eq_some_iff,
                Option.pure_def, Option.some.injEq] at hitems
              obtain ⟨s, hs, ss, hss, rfl⟩ := hitems
              rw [List.mapM_cons, ih ss hss, hs]
              rfl
    · exact absurd hin (by decide)

/-- A request for two of the three fields, and two that are refused. -/
theorem requestFilter_declared_scores :
    (letI _rules : TextRules := TextRules.ascii
     SameMeaning (library.requestFilter [scoreGe .none, idIn, idEq]
        [("id__in", "1,3"), ("score__ge", "5")])
      (construct [("score__ge", .scalar (.int 5)), ("id__in", .list [.int 1, .int 3]),
        ("id__eq", .none)])) ∧
    (∃ names, "score__ge" ∈ names ∧ library.requestFilter [scoreGe .none, idIn, idEq]
      [("score__ge", "high")] = .error (.requestValidation names)) ∧
    ((∃ m, library.requestFilter [scoreGe .none, idIn, idEq] [("id__in", "1,x")] =
        .error (.invalidInput m)) ∨
      ∃ names, library.requestFilter [scoreGe .none, idIn, idEq] [("id__in", "1,x")] =
        .error (.requestValidation names) ∧ ∃ g ∈ [scoreGe .none, idIn, idEq],
          g.op ≠ "contains" ∧ g.op ≠ "in" ∧ g.name ∈ names) := by
  let _ := TextRules.ascii
  have hread := FilterLibrary.readsAlike_of_uniform uniform_scores
  let values : String → Option Value := fun name =>
    if name = "score__ge" then some (.scalar (.int 5))
    else if name = "id__in" then some (.list [.int 1, .int 3]) else none
  have hforms : library.Forms [scoreGe .none, idIn, idEq]
      [("id__in", "1,3"), ("score__ge", "5")] values := by
    refine ⟨fun p hp _ => ?_, fun f hf hnone => ?_, fun f hf v hv => ?_⟩
    · simp only [List.mem_cons, List.not_mem_nil, or_false] at hp
      rcases hp with rfl | rfl
      · exact ⟨idIn, by simp, rfl⟩
      · exact ⟨scoreGe .none, by simp, rfl⟩
    · simp only [List.mem_cons, List.not_mem_nil, or_false] at hf
      rcases hf with rfl | rfl | rfl
      · cases hnone
      · cases hnone
      · rfl
    · simp only [List.mem_cons, List.not_mem_nil, or_false] at hf
      rcases hf with rfl | rfl | rfl
      · cases hv
        exact ⟨rfl, "5", rfl, .inl rfl⟩
      · cases hv
        exact ⟨rfl, "1,3", rfl, .inr (.inl ⟨rfl, rfl⟩)⟩
      · cases hv
  refine ⟨(FilterLibrary.requestFilter_declared library [scoreGe .none, idIn, idEq]
    [("id__in", "1,3"), ("score__ge", "5")]).1 hread values hforms, ?_, ?_⟩
  · refine (FilterLibrary.requestFilter_declared library [scoreGe .none, idIn, idEq]
      [("score__ge", "high")]).2.1 (scoreGe .none) (by simp) (by decide) (by decide) ?_
    refine ⟨"high", rfl, fun g hg hattr v => ?_⟩
    simp only [List.mem_cons, List.not_mem_nil, or_false] at hg
    rcases hg with rfl | rfl | rfl
    · have hdigits : digitsNumber "high" = none := by decide
      exact ⟨by simp [library, scoreGe, hdigits], by simp [library, scoreGe]⟩
    · exact absurd hattr (by decide)
    · exact absurd hattr (by decide)
  · refine (FilterLibrary.requestFilter_declared library [scoreGe .none, idIn, idEq]
      [("id__in", "1,x")]).2.2 idIn (by simp) rfl ?_
    refine ⟨"1,x", rfl, "x", by decide, fun g hg hattr v => ?_⟩
    simp only [List.mem_cons, List.not_mem_nil, or_false] at hg
    rcases hg with rfl | rfl | rfl
    · exact absurd hattr (by decide)
    · simp [library, idIn]
    · have hdigits : digitsNumber "x" = none := by decide
      simp [library, idEq, hdigits]

/-- A text that is no number is rejected by request validation, not as invalid input; a request that
gives nothing does not mean the default of the class; and a field is read by the annotation of a
later one on its attribute. -/
theorem not_sameMeaning_declared :
    ((∀ v, ¬ library.Reads (scoreGe .none) ["high"] v) ∧
      library.requestFilter [scoreGe .none] [("score__ge", "high")] =
        .error (.requestValidation ["score__ge"])) ∧
    (letI _rules : TextRules := TextRules.ascii
     library.Forms [scoreGe (.scalar (.int 5))] [] (fun _ => none) ∧
      ¬ SameMeaning (library.requestFilter [scoreGe (.scalar (.int 5))] [])
        (construct [("score__ge", .scalar (.int 5))])) ∧
    (letI _rules : TextRules := TextRules.ascii
     library.Forms [idEq, idIn] [("id__eq", "1")]
        (fun name => if name = "id__eq" then some (.scalar (.int 1)) else none) ∧
      ¬ SameMeaning (library.requestFilter [idEq, idIn] [("id__eq", "1")])
        (construct [("id__eq", .scalar (.int 1)), ("id__in", .none)])) := by
  let _ := TextRules.ascii
  have hdigits : digitsNumber "high" = none := by decide
  refine ⟨⟨?_, rfl⟩, ⟨⟨by simp, fun _ _ _ => rfl, by simp⟩, ?_⟩, ⟨⟨?_, ?_, ?_⟩, ?_⟩⟩
  · rintro v ⟨-, text, hlast, hreads⟩
    obtain rfl : "high" = text := Option.some.inj hlast
    simp [library, scoreGe, hdigits] at hreads
  · intro h
    have hmatch : Passes none (.object fun _ => .none) ↔
        (objectFilter [("score__ge", .scalar (.int 5))]).matches (.object fun _ => .none) =
          .ok true := h (.object fun _ => .none)
    have hnone := FilterLibrary.objectFilter_matches_nulls (scoreGe .none) (hmatch.mp rfl)
    cases hnone
  · intro p hp _
    obtain rfl := List.mem_singleton.mp hp
    exact ⟨idEq, by simp, rfl⟩
  · intro f hf hnone
    simp only [List.mem_cons, List.not_mem_nil, or_false] at hf
    rcases hf with rfl | rfl
    · cases hnone
    · rfl
  · intro f hf v hv
    simp only [List.mem_cons, List.not_mem_nil, or_false] at hf
    rcases hf with rfl | rfl
    · cases hv
      exact ⟨rfl, "1", rfl, .inl rfl⟩
    · cases hv
  · intro h
    have hdep : library.filterDependency (filterSurface [idEq, idIn]) [("id__eq", "1")] =
        .ok [("id__eq", .list [.int 1])] := rfl
    have hclauses : library.wireClauses (filterSurface [idEq, idIn])
        [("id__eq", .list [.int 1])] = .ok [("id", "eq", .one (.list [.int 1]))] := rfl
    have hpresent : FilterLibrary.presentKeys [("id__eq", "1")] ≠ [] := by decide
    have hcheck : library.checkKeys (filterSurface [idEq, idIn]) [("id__eq", "1")] = .ok () := rfl
    rw [FilterLibrary.requestFilter_eq hdep,
      FilterLibrary.resolveFilters_eq hpresent hcheck hclauses, if_neg (List.cons_ne_nil _ _)] at h
    have hmatch : Passes (some (.attr "id" (.eq (.list [.int 1]))))
          (.object fun _ => .scalar (.int 1)) ↔
        (objectFilter [("id__eq", .scalar (.int 1)), ("id__in", .none)]).matches
          (.object fun _ => .scalar (.int 1)) = .ok true := h (.object fun _ => .scalar (.int 1))
    cases hmatch.mpr rfl

end FilterHint

end Resourcey
