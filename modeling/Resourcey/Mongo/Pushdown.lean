import Resourcey.Mongo.FilterConverter

/-!
# Filter pushdown to Mongo

The query a tree converts to selects the documents on whose entity the tree has the value the
polarity asks for. The two connectives carry no restriction as `none`, and `finds_conjunction` and
`finds_disjunction` say that they are the conjunction and the disjunction all the same, so the
rules of the connectives are De Morgan's and the leaves decide. A leaf decides wrongly where Python
and the store take its operand for different values, and `exact_iff_comparable` says that this is
the only place.
-/

namespace Resourcey

variable [TextRules]

/-! ## The connectives -/

attribute [local simp] MongoQuery.matches matchesEvery matchesSome mongoCondition mongoConditions

theorem matchesEvery_eq (qs : List MongoQuery) (d : MongoDoc) :
    matchesEvery qs d = qs.all fun q => q.matches d := by
  induction qs with
  | nil => rfl
  | cons q qs ih => exact congrArg (q.matches d && ·) ih

theorem matchesSome_eq (qs : List MongoQuery) (d : MongoDoc) :
    matchesSome qs d = qs.any fun q => q.matches d := by
  induction qs with
  | nil => rfl
  | cons q qs ih => exact congrArg (q.matches d || ·) ih

@[simp] theorem finds_none (d : MongoDoc) : finds none d = true := rfl

@[simp] theorem finds_some (q : MongoQuery) (d : MongoDoc) : finds (some q) d = q.matches d := rfl

@[simp] theorem matches_matchNone (d : MongoDoc) : matchNone.matches d = false := rfl

/-- Dropping the absent queries does not change what all of them find. -/
theorem all_filterMap_id (cs : List (Option MongoQuery)) (d : MongoDoc) :
    (cs.filterMap id).all (fun q => q.matches d) = cs.all fun q => finds q d := by
  induction cs with
  | nil => rfl
  | cons c cs ih =>
      cases c with
      | none => rw [List.filterMap_cons_none rfl, List.all_cons, finds_none, Bool.true_and, ih]
      | some q =>
          have h : id (some q) = some q := rfl
          rw [List.filterMap_cons_some h, List.all_cons, List.all_cons, finds_some, ih]

/-- A list without an absent query is the list of its queries. -/
theorem any_filterMap_id {cs : List (Option MongoQuery)} (h : ∀ c ∈ cs, c ≠ none)
    (d : MongoDoc) :
    (cs.filterMap id).any (fun q => q.matches d) = cs.any fun q => finds q d := by
  induction cs with
  | nil => rfl
  | cons c cs ih =>
      simp only [List.mem_cons, forall_eq_or_imp] at h
      obtain ⟨q, rfl⟩ := Option.ne_none_iff_exists'.mp h.1
      have hq : id (some q) = some q := rfl
      rw [List.filterMap_cons_some hq, List.any_cons, List.any_cons, finds_some, ih h.2]

/-- What a conjunction finds is what every child finds. -/
theorem finds_conjunction (cs : List (Option MongoQuery)) (d : MongoDoc) :
    finds (conjunction cs) d = cs.all fun q => finds q d := by
  rw [← all_filterMap_id, conjunction]
  generalize cs.filterMap id = qs
  match qs with
  | [] => rfl
  | [q] => simp
  | q :: p :: qs => simp [matchesEvery_eq]

/-- What a disjunction finds is what some child finds. -/
theorem finds_disjunction (cs : List (Option MongoQuery)) (d : MongoDoc) :
    finds (disjunction cs) d = cs.any fun q => finds q d := by
  rw [disjunction]
  split
  · next h =>
      obtain ⟨c, hc, hnone⟩ := List.any_eq_true.mp h
      have hc : finds c d = true := by rw [Option.isNone_iff_eq_none.mp hnone, finds_none]
      exact (List.any_eq_true.mpr ⟨c, ‹_›, hc⟩).symm
  · next h =>
      have h : ∀ c ∈ cs, c ≠ none := by
        intro c hc he
        exact h (List.any_eq_true.mpr ⟨c, hc, he ▸ rfl⟩)
      rw [← any_filterMap_id h]
      generalize cs.filterMap id = qs
      match qs with
      | [] => rfl
      | [q] => simp
      | q :: p :: qs => simp [matchesSome_eq]

/-! ## Agreement in both polarities -/

/-- In either polarity the node converts, and the query finds the document exactly when `truth`
differs from the flag. -/
def MongoAgrees (ctx : MongoFilterContext) (f : SearchFilter) (field : Option String) (d : MongoDoc)
    (truth : Bool) : Prop :=
  ∀ negated, ∃ q, mongoCondition ctx f field negated = .ok q ∧
    (finds q d = true ↔ truth ≠ negated)

namespace MongoAgrees

variable {ctx : MongoFilterContext} {field : Option String} {d : MongoDoc}

/-- Children that agree convert, and their queries are read off their truth values. -/
theorem conditions {fs : List SearchFilter} {truth : SearchFilter → Bool}
    (h : ∀ f ∈ fs, MongoAgrees ctx f field d (truth f)) (negated : Bool) :
    ∃ qs, mongoConditions ctx fs field negated = .ok qs ∧ qs.length = fs.length ∧
      ((∀ q ∈ qs, finds q d = true) ↔ ∀ f ∈ fs, truth f ≠ negated) ∧
      ((∃ q ∈ qs, finds q d = true) ↔ ∃ f ∈ fs, truth f ≠ negated) := by
  induction fs with
  | nil => exact ⟨[], by simp, rfl, by simp, by simp⟩
  | cons f fs ih =>
      simp only [List.mem_cons, forall_eq_or_imp] at h
      obtain ⟨q, hq, hfinds⟩ := h.1 negated
      obtain ⟨qs, hqs, hlen, hall, hany⟩ := ih h.2
      refine ⟨q :: qs, ?_, ?_, ?_, ?_⟩
      · simp [hq, hqs, bind, Except.bind, pure, Except.pure]
      · rw [List.length_cons, List.length_cons, hlen]
      · simp only [List.mem_cons, forall_eq_or_imp, hfinds, hall]
      · simp only [List.mem_cons, exists_eq_or_imp, hfinds, hany]

/-- The complement of an empty conjunction, which matches nothing, is the empty disjunction. -/
theorem finds_ite_disjunction (qs : List (Option MongoQuery)) :
    finds (if qs.isEmpty then some matchNone else disjunction qs) d = true
      ↔ ∃ q ∈ qs, finds q d = true := by
  cases qs with
  | nil => simp
  | cons q qs => simp [finds_disjunction]

/-- The complement of an empty disjunction, which restricts nothing, is the empty conjunction. -/
theorem finds_ite_conjunction (qs : List (Option MongoQuery)) :
    finds (if qs.isEmpty then none else conjunction qs) d = true
      ↔ ∀ q ∈ qs, finds q d = true := by
  cases qs with
  | nil => simp
  | cons q qs => simp [finds_conjunction]

theorem all : MongoAgrees ctx .all field d true := by
  intro negated
  refine ⟨if negated then some matchNone else none, by simp, ?_⟩
  cases negated <;> simp

theorem noMatch : MongoAgrees ctx .noMatch field d false := by
  intro negated
  refine ⟨if negated then none else some matchNone, by simp, ?_⟩
  cases negated <;> simp

theorem not {f : SearchFilter} {b : Bool} (h : MongoAgrees ctx f field d b) :
    MongoAgrees ctx (.not f) field d !b := by
  intro negated
  obtain ⟨q, hq, hfinds⟩ := h !negated
  refine ⟨q, by rwa [mongoCondition], ?_⟩
  rw [hfinds]
  cases b <;> cases negated <;> simp

/-- Under negation a conjunction is a disjunction of complements. -/
theorem and {fs : List SearchFilter} {truth : SearchFilter → Bool}
    (h : ∀ f ∈ fs, MongoAgrees ctx f field d (truth f)) :
    MongoAgrees ctx (.and fs) field d (fs.all truth) := by
  intro negated
  obtain ⟨qs, hqs, -, hall, hany⟩ := conditions h negated
  simp only [mongoCondition, hqs, bind, Except.bind, pure, Except.pure, Except.ok.injEq,
    exists_eq_left']
  cases negated with
  | true =>
      rw [if_pos rfl, finds_ite_disjunction, hany]
      simp
  | false =>
      rw [if_neg (by simp), finds_conjunction, List.all_eq_true, hall]
      simp

/-- Under negation a disjunction is a conjunction of complements. -/
theorem or {fs : List SearchFilter} {truth : SearchFilter → Bool}
    (h : ∀ f ∈ fs, MongoAgrees ctx f field d (truth f)) :
    MongoAgrees ctx (.or fs) field d (fs.any truth) := by
  intro negated
  obtain ⟨qs, hqs, -, hall, hany⟩ := conditions h negated
  simp only [mongoCondition, hqs, bind, Except.bind, pure, Except.pure, Except.ok.injEq,
    exists_eq_left']
  cases negated with
  | true =>
      rw [if_pos rfl, finds_ite_conjunction, hall]
      simp
  | false =>
      rw [if_neg (by simp), finds_disjunction, List.any_eq_true, hany]
      simp

theorem object {fields : List (String × Value)} {f : SearchFilter} {b : Bool}
    (h : MongoAgrees ctx f field d b) : MongoAgrees ctx (.object fields f) field d b := by
  intro negated
  obtain ⟨q, hq, hfinds⟩ := h negated
  exact ⟨q, by rwa [mongoCondition], hfinds⟩

/-- An attribute filter converts as its filter does on the attribute's field. -/
theorem attr {name c : String} {f : SearchFilter} {b : Bool} (hname : ctx.fields name = some c)
    (h : MongoAgrees ctx f (some c) d b) : MongoAgrees ctx (.attr name f) field d b := by
  intro negated
  obtain ⟨q, hq, hfinds⟩ := h negated
  refine ⟨q, ?_, hfinds⟩
  simpa [MongoFilterContext.fieldFor, hname, bind, Except.bind] using hq

/-- The two polarities of a value leaf are complements on every document, so a leaf agrees exactly
when its positive form is right. -/
theorem iff_positive {f : SearchFilter} {kind c : String} {positive : String → MongoQuery}
    {b : Bool} (hrule : ∀ negated, mongoCondition ctx f (some c) negated
      = mongoValueRule kind positive (some c) negated) :
    MongoAgrees ctx f (some c) d b ↔ (positive c).matches d = b := by
  constructor
  · intro h
    obtain ⟨q, hq, hfinds⟩ := h false
    rw [hrule] at hq
    cases hq
    rw [Bool.eq_iff_iff]
    simpa using hfinds
  · intro h negated
    refine ⟨_, (hrule negated).trans rfl, ?_⟩
    subst h
    cases negated <;> simp

end MongoAgrees

/-! ## What the leaves compare -/

section Operands

attribute [local simp] Scalar.pyEq Scalar.number? encodeValue

omit [TextRules] in
/-- Every metacharacter of the text is escaped, so the pattern stands for the text. -/
theorem regexLiteral_reEscape (s : List Char) : regexLiteral (reEscape s) = some s := by
  induction s with
  | nil => rfl
  | cons c s ih =>
      rw [reEscape, List.flatMap_cons, ← reEscape]
      by_cases hc : isMetachar c = true
      · rw [if_pos hc]
        exact congrArg (Option.map (c :: ·)) ih
      · have hne : c ≠ '\\' := by
          rintro rfl
          exact hc rfl
        rw [if_neg hc, List.singleton_append, regexLiteral.eq_def]
        split
        · next h => cases h
        · next h => exact absurd (List.cons.inj h).1 hne
        · next h =>
            cases h
            rw [if_neg hc, ih]
            rfl

omit [TextRules] in
/-- The kinds whose values a document holds as they are. -/
def Kind.Plain (k : Kind) : Prop := k = .str ∨ k = .int ∨ k = .datetime

/-- The value of the kind that just one side takes an operand for: to Python a boolean is its
number, and the query asks for the text of a UUID. -/
def twin (k : Kind) : Value → Option Value
  | .scalar (.bool b) => if k = .int then some (.scalar (.int b.toInt)) else none
  | .scalar (.uuid n) =>
    if k = .str then some (.scalar (.str (TextRules.str (.scalar (.uuid n))))) else none
  | _ => none

theorem twin_eq_some {k : Kind} {w u : Value} : twin k w = some u ↔
    (∃ b, k = .int ∧ w = .scalar (.bool b) ∧ u = .scalar (.int b.toInt)) ∨
      ∃ n, k = .str ∧ w = .scalar (.uuid n) ∧
        u = .scalar (.str (TextRules.str (.scalar (.uuid n)))) := by
  cases w with
  | none | list _ => simp [twin]
  | scalar s => cases s <;> simp [twin, eq_comm]

theorem twin_ofKind {k : Kind} {w u : Value} (h : twin k w = some u) :
    u.OfKind k ∧ u ≠ .none ∧ encodeValue u = u := by
  rcases twin_eq_some.mp h with ⟨b, rfl, -, rfl⟩ | ⟨n, rfl, -, rfl⟩
  · exact ⟨rfl, by simp, rfl⟩
  · exact ⟨rfl, by simp, rfl⟩

/-- Off the twins the query compares as Python does. -/
theorem pyEq_iff_of_twin_eq_none {k : Kind} {v w : Value} (hk : k.Plain) (hv : v.OfKind k)
    (hw : twin k w = none) : v.pyEq w = true ↔ v = encodeValue w := by
  cases v with
  | list _ => cases hv
  | none =>
      cases w with
      | none | list _ => simp [Value.pyEq]
      | scalar s => cases s <;> simp [Value.pyEq]
  | scalar t =>
      cases w with
      | none | list _ => simp [Value.pyEq]
      | scalar s =>
          have hv : t.kind = k := hv
          subst hv
          cases t <;> cases s <;>
            simp [Kind.Plain, Scalar.kind, twin, Value.pyEq] at hk hw ⊢

/-- An operand that has a twin is the twin to one of the two sides, and nothing else to either. -/
theorem pyEq_of_twin_eq_some {k : Kind} {v w u : Value} (hv : v.OfKind k)
    (hu : twin k w = some u) :
    (v.pyEq w = true → v = u) ∧ (v = encodeValue w → v = u) ∧
      (u.pyEq w = true ↔ u ≠ encodeValue w) := by
  rcases twin_eq_some.mp hu with ⟨b, rfl, rfl, rfl⟩ | ⟨n, rfl, rfl, rfl⟩
  · refine ⟨?_, ?_, ?_⟩
    · cases v with
      | scalar t =>
          cases t <;> simp [Value.OfKind, Scalar.kind, Value.pyEq] at hv ⊢
      | _ => simp [Value.pyEq]
    · rintro rfl
      cases hv
    · simp [Value.pyEq]
  · refine ⟨?_, fun h => h, ?_⟩
    · cases v with
      | scalar t =>
          cases t <;> simp [Value.OfKind, Scalar.kind, Value.pyEq] at hv ⊢
      | _ => simp [Value.pyEq]
    · simp [Value.pyEq]

/-- A list that the twin is in on both sides has the twin itself. -/
theorem mem_of_twin {k : Kind} {w u : Value} (hu : twin k w = some u) {vs : List Value}
    (hpy : ∃ v ∈ vs, u.pyEq v = true) (hmongo : ∃ v ∈ vs, u = encodeValue v) : u ∈ vs := by
  rcases twin_eq_some.mp hu with ⟨b, rfl, -, rfl⟩ | ⟨n, rfl, -, rfl⟩
  · obtain ⟨v, hv, h⟩ := hmongo
    cases v with
    | none | list _ => simp [encodeValue] at h
    | scalar s =>
        cases s with
        | int i => exact h ▸ hv
        | _ => simp [encodeValue] at h
  · obtain ⟨v, hv, h⟩ := hpy
    cases v with
    | none | list _ => simp [Value.pyEq] at h
    | scalar s =>
        cases s with
        | str t =>
            have h : TextRules.str (.scalar (.uuid n)) = t := by
              simpa [Value.pyEq] using h
            exact h ▸ hv
        | _ => simp [Value.pyEq] at h

/-- Off the twins the query orders as Python does, a pair without an order being false. -/
theorem compare_eq_orderMatches {k : Kind} {v w : Value} (op : OrderOp) (hk : k.Plain)
    (hv : v.OfKind k) (hnull : w ≠ .none) (hw : twin k w = none) :
    (op.compare v w).toOption.getD false = orderMatches op v (encodeValue w) := by
  cases w with
  | none => exact absurd rfl hnull
  | list _ => cases v <;> first | rfl | cases hv
  | scalar s =>
      cases v with
      | none => cases s <;> rfl
      | list _ => cases hv
      | scalar t =>
          have hv : t.kind = k := hv
          subst hv
          cases t <;> cases s <;>
            simp [Kind.Plain, Scalar.kind, twin, OrderOp.compare, OrderOp.compareScalar,
              Scalar.number?, Except.toOption, orderMatches, encodeValue,
              OrderOp.holds_map Scalar.strictMono_str, OrderOp.holds_map Scalar.strictMono_int,
              OrderOp.holds_map Scalar.strictMono_datetime] at hk hw ⊢

omit [TextRules] in
/-- Every operator holds of some integer against a given one. -/
theorem OrderOp.exists_int (op : OrderOp) (i : ℤ) : ∃ j : ℤ, op.holds j i = true := by
  cases op with
  | gt => exact ⟨i + 1, by simp [OrderOp.holds]⟩
  | lt => exact ⟨i - 1, by simp [OrderOp.holds]⟩
  | ge | le => exact ⟨i, by simp [OrderOp.holds]⟩

omit [TextRules] in
/-- Every operator holds of some text against a given one that is not empty. -/
theorem OrderOp.exists_str (op : OrderOp) {s : String} (h : s ≠ "") :
    ∃ t : String, op.holds t s = true := by
  cases op with
  | gt =>
      refine ⟨s ++ "a", ?_⟩
      rw [OrderOp.holds, decide_eq_true_iff, String.lt_iff_toList_lt, String.toList_append]
      have h : s.toList ++ [] < s.toList ++ "a".toList :=
        List.Lex.append_left _ (List.nil_lt_cons _ _) _
      rwa [List.append_nil] at h
  | lt =>
      refine ⟨"", ?_⟩
      rw [OrderOp.holds, decide_eq_true_iff, String.lt_iff_toList_lt]
      obtain ⟨c, cs, hcs⟩ := List.exists_cons_of_ne_nil (mt String.toList_eq_nil_iff.mp h)
      exact hcs ▸ List.nil_lt_cons c cs
  | ge | le => exact ⟨s, by simp [OrderOp.holds]⟩

/-- Some value of the kind is ordered differently against an operand that has a twin. -/
theorem exists_compare_ne {k : Kind} {w u : Value} (op : OrderOp)
    (huuid : ∀ n, TextRules.str (.scalar (.uuid n)) ≠ "") (hu : twin k w = some u) :
    ∃ v : Value, v.OfKind k ∧
      (op.compare v w).toOption.getD false ≠ orderMatches op v (encodeValue w) := by
  rcases twin_eq_some.mp hu with ⟨b, rfl, rfl, -⟩ | ⟨n, rfl, rfl, -⟩
  · obtain ⟨j, hj⟩ := op.exists_int b.toInt
    refine ⟨.scalar (.int j), rfl, ?_⟩
    simp [OrderOp.compare, OrderOp.compareScalar, Scalar.number?, Except.toOption, orderMatches,
      encodeValue, Scalar.kind, hj]
  · obtain ⟨t, ht⟩ := op.exists_str (huuid n)
    refine ⟨.scalar (.str t), rfl, ?_⟩
    simp [OrderOp.compare, OrderOp.compareScalar, Scalar.number?, Except.toOption, orderMatches,
      encodeValue, Scalar.kind, OrderOp.holds_map Scalar.strictMono_str, ht]

/-- The pattern of a text matches as containment does, whatever the kind of the field. -/
theorem regexMatches_str {k : Kind} {v : Value} (hv : v.OfKind k) (needle : String) :
    regexMatches (reEscape (TextRules.str (.scalar (.str needle))).toList) v
      = memContains (.value v) (.scalar (.str needle)) := by
  cases v with
  | none => rfl
  | list _ => cases hv
  | scalar s =>
      cases s with
      | str t =>
          simp only [regexMatches, regexLiteral_reEscape, memContains, TextRules.str_str]
          congr
      | _ => rfl

/-- On a field that holds no text neither side finds anything. -/
theorem regexMatches_of_ne_str {k : Kind} {v : Value} (hk : k ≠ .str) (hv : v.OfKind k)
    (pattern : List Char) (w : Value) :
    regexMatches pattern v = memContains (.value v) w := by
  cases v with
  | none => rfl
  | list _ => cases hv
  | scalar s =>
      cases s with
      | str t => exact absurd hv.symm hk
      | _ => rfl

/-- A needle that is no text is in no text, but its own text matches its pattern. -/
theorem regexMatches_text (w : Value) (hw : ∀ s, w ≠ .scalar (.str s)) :
    regexMatches (reEscape (TextRules.str w).toList) (.scalar (.str (TextRules.str w)))
      ≠ memContains (.value (.scalar (.str (TextRules.str w)))) w := by
  have hfalse : memContains (.value (.scalar (.str (TextRules.str w)))) w = false := by
    cases w with
    | none | list _ => rfl
    | scalar s =>
        cases s with
        | str t => exact absurd rfl (hw t)
        | _ => rfl
  simp [hfalse, regexMatches, regexLiteral_reEscape, lower]

end Operands

/-! ## Exactness -/

/-- The declared type of each field that holds scalars. -/
abbrev FieldTypes := String → Option Kind

omit [TextRules] in
/-- Each field of the document holds a value of its type, or is null or absent. -/
def FieldTypes.Typed (types : FieldTypes) (d : MongoDoc) : Prop :=
  ∀ c k, types c = some k → (d.get c).OfKind k

omit [TextRules] in
/-- What an entity must have in common with its document: its queryable attributes. -/
def MongoFilterContext.Represents (ctx : MongoFilterContext) (x : Subject) (d : MongoDoc) : Prop :=
  ∀ name c, ctx.fields name = some c → x.get name = d.get c

omit [TextRules] in
/-- What a node is asked about: the entity, and below an attribute filter the field's value. -/
def boundSubject (x : Subject) (d : MongoDoc) : Option String → Subject
  | none => x
  | some c => .value (d.get c)

/-- On every document and in either polarity, the node's query finds the documents whose entity
gives the node the value the polarity asks for. -/
def Exact (ctx : MongoFilterContext) (types : FieldTypes) (f : SearchFilter)
    (field : Option String) : Prop :=
  ∀ d x, types.Typed d → ctx.Represents x d →
    MongoAgrees ctx f field d (f.holds (boundSubject x d field))

/-- The leaf's operands are compared alike by Python and by the store, on a field of the kind. -/
def Comparable (k : Kind) : SearchFilter → Prop
  | .eq w | .order _ w => twin k w = none
  | .contains w => k = .str → ∃ s, w = .scalar (.str s)
  | .isIn ws => ∀ w ∈ ws, ∀ u, twin k w = some u → u ∈ ws
  | _ => True

section Leaves

variable {ctx : MongoFilterContext} {types : FieldTypes} {c : String} {k : Kind}

/-- A leaf is exact when its test is, on each value the field may hold. -/
theorem exact_leaf_iff {f : SearchFilter} {kind : String} {positive : String → MongoQuery}
    {test : FieldTest} (hc : types c = some k)
    (hrule : ∀ negated, mongoCondition ctx f (some c) negated
      = mongoValueRule kind positive (some c) negated)
    (htest : positive c = .dict [(c, test)]) :
    Exact ctx types f (some c) ↔ ∀ v : Value, v.OfKind k → test.matches v = f.holds (.value v) := by
  constructor
  · intro h v hv
    let d : MongoDoc := fun c' => if c' = c then some v else none
    have hd : d.get c = v := by simp [d, MongoDoc.get]
    have htyped : types.Typed d := by
      intro c' k' hc'
      by_cases he : c' = c
      · subst he
        cases hc.symm.trans hc'
        exact hd.symm ▸ hv
      · simp [d, MongoDoc.get, he, Value.OfKind]
    have hx : ctx.Represents (.object fun name => (ctx.fields name).elim .none d.get) d := by
      intro name c' hname
      simp [Subject.get, hname]
    have hpos := (MongoAgrees.iff_positive hrule).mp (h d _ htyped hx)
    rw [htest, dict_single] at hpos
    simpa only [boundSubject, hd] using hpos
  · intro h d x hd _
    refine (MongoAgrees.iff_positive hrule).mpr ?_
    rw [htest, dict_single]
    exact h _ (hd c k hc)

theorem exact_eq_iff (hc : types c = some k) (hk : k.Plain) (w : Value) :
    Exact ctx types (.eq w) (some c) ↔ Comparable k (.eq w) := by
  rw [exact_leaf_iff hc (fun _ => by rw [mongoCondition]) rfl]
  constructor
  · intro h
    rw [Comparable, Option.eq_none_iff_forall_ne_some]
    intro u hu
    have h := h u (twin_ofKind hu).1
    have hne := (pyEq_of_twin_eq_some (twin_ofKind hu).1 hu).2.2
    rw [FieldTest.matches, anyItem_of_ofKind (twin_ofKind hu).1, Bool.eq_iff_iff] at h
    simp only [decide_eq_true_eq, SearchFilter.holds, Subject.pyEq, hne] at h
    exact iff_not_self h
  · intro hw v hv
    rw [FieldTest.matches, anyItem_of_ofKind hv, Bool.eq_iff_iff]
    simpa [SearchFilter.holds, Subject.pyEq] using (pyEq_iff_of_twin_eq_none hk hv hw).symm

theorem exact_order_iff (hc : types c = some k) (hk : k.Plain) (op : OrderOp) {w : Value}
    (huuid : ∀ n, TextRules.str (.scalar (.uuid n)) ≠ "") (hnull : w ≠ .none) :
    Exact ctx types (.order op w) (some c) ↔ Comparable k (.order op w) := by
  rw [exact_leaf_iff hc (fun _ => by rw [mongoCondition]) rfl]
  constructor
  · intro h
    rw [Comparable, Option.eq_none_iff_forall_ne_some]
    intro u hu
    obtain ⟨v, hv, hne⟩ := exists_compare_ne op huuid hu
    have h := h v hv
    rw [FieldTest.matches, anyItem_of_ofKind hv] at h
    exact hne h.symm
  · intro hw v hv
    rw [FieldTest.matches, anyItem_of_ofKind hv]
    exact (compare_eq_orderMatches op hk hv hnull hw).symm

theorem exact_contains_iff (hc : types c = some k) (w : Value) :
    Exact ctx types (.contains w) (some c) ↔ Comparable k (.contains w) := by
  rw [exact_leaf_iff hc (fun _ => by rw [mongoCondition]) rfl]
  constructor
  · rintro h rfl
    by_contra hw
    have hv : (Value.scalar (.str (TextRules.str w))).OfKind .str := rfl
    have h := h _ hv
    rw [FieldTest.matches, anyItem_of_ofKind hv] at h
    exact regexMatches_text w (fun s hs => hw ⟨s, hs⟩) h
  · intro hw v hv
    rw [FieldTest.matches, anyItem_of_ofKind hv]
    by_cases hk : k = .str
    · obtain ⟨s, rfl⟩ := hw hk
      exact regexMatches_str hv s
    · exact regexMatches_of_ne_str hk hv _ w

theorem exact_isIn_iff (hc : types c = some k) (hk : k.Plain) (ws : List Value) :
    Exact ctx types (.isIn ws) (some c) ↔ Comparable k (.isIn ws) := by
  rw [exact_leaf_iff hc (fun _ => by rw [mongoCondition]) rfl]
  have hmongo : ∀ v : Value, v.OfKind k → ((FieldTest.isIn (ws.map encodeValue)).matches v = true ↔
      ∃ w ∈ ws, v = encodeValue w) := by
    intro v hv
    rw [FieldTest.matches, anyItem_of_ofKind hv, decide_eq_true_iff, List.mem_map]
    simp only [eq_comm]
  have hpy : ∀ v : Value, (SearchFilter.holds (.isIn ws) (.value v) = true ↔
      ∃ w ∈ ws, v.pyEq w = true) := by
    intro v
    simp [SearchFilter.holds, Subject.pyEq]
  constructor
  · intro h w hw u hu
    have hku := (twin_ofKind hu).1
    have h : (∃ w ∈ ws, u = encodeValue w) ↔ ∃ w ∈ ws, u.pyEq w = true := by
      rw [← hmongo u hku, h u hku, hpy]
    have hone := (pyEq_of_twin_eq_some hku hu).2.2
    by_cases he : u = encodeValue w
    · have hm : ∃ w ∈ ws, u = encodeValue w := ⟨w, hw, he⟩
      exact mem_of_twin hu (h.mp hm) hm
    · have hp : ∃ w ∈ ws, u.pyEq w = true := ⟨w, hw, hone.mpr he⟩
      exact mem_of_twin hu hp (h.mpr hp)
  · intro h v hv
    rw [Bool.eq_iff_iff, hmongo v hv, hpy]
    -- an operand with a twin stands for no value but the twin, which is in the list itself
    have htwin : ∀ w ∈ ws, ∀ u, twin k w = some u → v = u → v ∈ ws ∧ encodeValue v = v ∧
        v.pyEq v = true := by
      rintro w hw u hu rfl
      exact ⟨h w hw v hu, (twin_ofKind hu).2.2, (Value.pyEq_iff hv hv).mpr rfl⟩
    constructor
    · rintro ⟨w, hw, he⟩
      cases hu : twin k w with
      | none => exact ⟨w, hw, (pyEq_iff_of_twin_eq_none hk hv hu).mpr he⟩
      | some u =>
          obtain ⟨hmem, -, hself⟩ := htwin w hw u hu ((pyEq_of_twin_eq_some hv hu).2.1 he)
          exact ⟨v, hmem, hself⟩
    · rintro ⟨w, hw, he⟩
      cases hu : twin k w with
      | none => exact ⟨w, hw, (pyEq_iff_of_twin_eq_none hk hv hu).mp he⟩
      | some u =>
          obtain ⟨hmem, henc, -⟩ := htwin w hw u hu ((pyEq_of_twin_eq_some hv hu).1 he)
          exact ⟨v, hmem, henc.symm⟩

end Leaves

/-! ## Trees -/

/-- A boolean combination of value leaves with any operands, an ordering with a non-null one. -/
inductive ValueTree : SearchFilter → Prop
  | all : ValueTree .all
  | noMatch : ValueTree .noMatch
  | and {fs} : (∀ f ∈ fs, ValueTree f) → ValueTree (.and fs)
  | or {fs} : (∀ f ∈ fs, ValueTree f) → ValueTree (.or fs)
  | not {f} : ValueTree f → ValueTree (.not f)
  | eq {v} : ValueTree (.eq v)
  | order {op v} : v ≠ .none → ValueTree (.order op v)
  | contains {v} : ValueTree (.contains v)
  | isIn {vs} : ValueTree (.isIn vs)

/-- A tree of the standard nodes over queryable fields that hold texts, numbers or datetimes. -/
inductive StandardTree (ctx : MongoFilterContext) (types : FieldTypes) : SearchFilter → Prop
  | all : StandardTree ctx types .all
  | noMatch : StandardTree ctx types .noMatch
  | and {fs} : (∀ f ∈ fs, StandardTree ctx types f) → StandardTree ctx types (.and fs)
  | or {fs} : (∀ f ∈ fs, StandardTree ctx types f) → StandardTree ctx types (.or fs)
  | not {f} : StandardTree ctx types f → StandardTree ctx types (.not f)
  | attr {name c k f} : ctx.fields name = some c → types c = some k → k.Plain →
      ValueTree f → StandardTree ctx types (.attr name f)
  | object {fields f} : StandardTree ctx types f → StandardTree ctx types (.object fields f)

/-- Converting `f` bound to `field` comes to converting `g` bound to `field'`. -/
inductive Converts (ctx : MongoFilterContext) :
    SearchFilter → Option String → SearchFilter → Option String → Prop
  | refl {f field} : Converts ctx f field f field
  | and {f fs field g field'} : f ∈ fs → Converts ctx f field g field' →
      Converts ctx (.and fs) field g field'
  | or {f fs field g field'} : f ∈ fs → Converts ctx f field g field' →
      Converts ctx (.or fs) field g field'
  | not {f field g field'} : Converts ctx f field g field' → Converts ctx (.not f) field g field'
  | attr {name c f field g field'} : ctx.fields name = some c →
      Converts ctx f (some c) g field' → Converts ctx (.attr name f) field g field'
  | object {fields f field g field'} : Converts ctx f field g field' →
      Converts ctx (.object fields f) field g field'

section Trees

variable {ctx : MongoFilterContext} {types : FieldTypes}

omit [TextRules] in
theorem Converts.trans {f g h : SearchFilter} {a b c : Option String}
    (hfg : Converts ctx f a g b) (hgh : Converts ctx g b h c) : Converts ctx f a h c := by
  induction hfg with
  | refl => exact hgh
  | and hf _ ih => exact .and hf (ih hgh)
  | or hf _ ih => exact .or hf (ih hgh)
  | not _ ih => exact .not (ih hgh)
  | attr hname _ ih => exact .attr hname (ih hgh)
  | object _ ih => exact .object (ih hgh)

omit [TextRules] in
/-- What a boolean combination of leaves comes to is another on the same field. -/
theorem ValueTree.of_converts {f g : SearchFilter} {a b : Option String}
    (h : Converts ctx f a g b) (hf : ValueTree f) : ValueTree g ∧ b = a := by
  induction h with
  | refl => exact ⟨hf, rfl⟩
  | and hmem _ ih =>
      cases hf with
      | and hf => exact ih (hf _ hmem)
  | or hmem _ ih =>
      cases hf with
      | or hf => exact ih (hf _ hmem)
  | not _ ih =>
      cases hf with
      | not hf => exact ih hf
  | attr | object => cases hf

omit [TextRules] in
/-- What a standard tree comes to is a standard tree, or below an attribute filter a boolean
combination of leaves on a typed field. -/
theorem StandardTree.of_converts {f g : SearchFilter} {a b : Option String}
    (h : Converts ctx f a g b) (ha : a = none) (hf : StandardTree ctx types f) :
    (StandardTree ctx types g ∧ b = none) ∨
      ∃ c k, b = some c ∧ types c = some k ∧ k.Plain ∧ ValueTree g := by
  induction h with
  | refl => exact .inl ⟨hf, ha⟩
  | and hmem _ ih =>
      cases hf with
      | and hf => exact ih ha (hf _ hmem)
  | or hmem _ ih =>
      cases hf with
      | or hf => exact ih ha (hf _ hmem)
  | not _ ih =>
      cases hf with
      | not hf => exact ih ha hf
  | object _ ih =>
      cases hf with
      | object hf => exact ih ha hf
  | attr hname hconv _ =>
      cases hf with
      | attr hname' hc hk hf =>
        cases hname.symm.trans hname'
        obtain ⟨hg, hb⟩ := hf.of_converts hconv
        exact .inr ⟨_, _, hb, hc, hk, hg⟩

/-- Every leaf the conversion comes to is compared alike by both sides. -/
def LeavesComparable (ctx : MongoFilterContext) (types : FieldTypes) (f : SearchFilter)
    (field : Option String) : Prop :=
  ∀ g c k, Converts ctx f field g (some c) → types c = some k → Comparable k g

theorem LeavesComparable.of_converts {f g : SearchFilter} {a b : Option String}
    (hf : LeavesComparable ctx types f a) (h : Converts ctx f a g b) :
    LeavesComparable ctx types g b :=
  fun _ _ _ hg hc => hf _ _ _ (h.trans hg) hc

/-- A boolean combination of comparable leaves is exact. -/
theorem ValueTree.exact {c : String} {k : Kind} (hc : types c = some k) (hk : k.Plain)
    (huuid : ∀ n, TextRules.str (.scalar (.uuid n)) ≠ "") {f : SearchFilter} (hf : ValueTree f)
    (h : LeavesComparable ctx types f (some c)) : Exact ctx types f (some c) := by
  induction hf with
  | all => exact fun d x _ _ => SearchFilter.holds_all _ ▸ MongoAgrees.all
  | noMatch => exact fun d x _ _ => SearchFilter.holds_noMatch _ ▸ MongoAgrees.noMatch
  | and _ ih =>
      intro d x hd hx
      rw [SearchFilter.holds_and]
      exact MongoAgrees.and fun f hf => ih f hf (h.of_converts (.and hf .refl)) d x hd hx
  | or _ ih =>
      intro d x hd hx
      rw [SearchFilter.holds_or]
      exact MongoAgrees.or fun f hf => ih f hf (h.of_converts (.or hf .refl)) d x hd hx
  | not _ ih =>
      intro d x hd hx
      rw [SearchFilter.holds_not]
      exact MongoAgrees.not (ih (h.of_converts (.not .refl)) d x hd hx)
  | eq => exact (exact_eq_iff hc hk _).mpr (h _ c k .refl hc)
  | order hnull => exact (exact_order_iff hc hk _ huuid hnull).mpr (h _ c k .refl hc)
  | contains => exact (exact_contains_iff hc _).mpr (h _ c k .refl hc)
  | isIn => exact (exact_isIn_iff hc hk _).mpr (h _ c k .refl hc)

/-- A standard tree with comparable leaves is exact. -/
theorem StandardTree.exact (huuid : ∀ n, TextRules.str (.scalar (.uuid n)) ≠ "")
    {f : SearchFilter} (hf : StandardTree ctx types f) (h : LeavesComparable ctx types f none) :
    Exact ctx types f none := by
  induction hf with
  | all => exact fun d x _ _ => SearchFilter.holds_all _ ▸ MongoAgrees.all
  | noMatch => exact fun d x _ _ => SearchFilter.holds_noMatch _ ▸ MongoAgrees.noMatch
  | and _ ih =>
      intro d x hd hx
      rw [SearchFilter.holds_and]
      exact MongoAgrees.and fun f hf => ih f hf (h.of_converts (.and hf .refl)) d x hd hx
  | or _ ih =>
      intro d x hd hx
      rw [SearchFilter.holds_or]
      exact MongoAgrees.or fun f hf => ih f hf (h.of_converts (.or hf .refl)) d x hd hx
  | not _ ih =>
      intro d x hd hx
      rw [SearchFilter.holds_not]
      exact MongoAgrees.not (ih (h.of_converts (.not .refl)) d x hd hx)
  | object _ ih =>
      intro d x hd hx
      rw [SearchFilter.holds_object]
      exact MongoAgrees.object (ih (h.of_converts (.object .refl)) d x hd hx)
  | attr hname hc hk hf =>
      intro d x hd hx
      rw [SearchFilter.holds_attr, boundSubject, hx _ _ hname]
      exact MongoAgrees.attr hname
        (hf.exact hc hk huuid (h.of_converts (.attr hname .refl)) d x hd hx)

/-- An exact leaf is comparable. -/
theorem ValueTree.comparable_of_exact {c : String} {k : Kind} (hc : types c = some k)
    (hk : k.Plain) (huuid : ∀ n, TextRules.str (.scalar (.uuid n)) ≠ "") {f : SearchFilter}
    (hf : ValueTree f) (h : Exact ctx types f (some c)) : Comparable k f := by
  cases hf with
  | all | noMatch | and | or | not => trivial
  | eq => exact (exact_eq_iff hc hk _).mp h
  | order hnull => exact (exact_order_iff hc hk _ huuid hnull).mp h
  | contains => exact (exact_contains_iff hc _).mp h
  | isIn => exact (exact_isIn_iff hc hk _).mp h

/-- **Filter pushdown to Mongo is exact up to the operands that the store and Python compare
differently.** Every node of a standard tree is converted exactly in both polarities if and only if
every leaf is comparable, and what `matches` answers, when it answers, is the value the queries
select by. -/
theorem exact_iff_comparable (huuid : ∀ n, TextRules.str (.scalar (.uuid n)) ≠ "")
    {f : SearchFilter} (hf : StandardTree ctx types f) :
    ((∀ g field, Converts ctx f none g field → Exact ctx types g field)
      ↔ LeavesComparable ctx types f none) ∧
      ∀ x b, f.matches x = .ok b → f.holds x = b := by
  refine ⟨⟨?_, ?_⟩, SearchFilter.holds_of_matches f⟩
  · intro h g c k hg hc
    obtain ⟨_, hnone⟩ | ⟨c', k', hc', htype, hk, hvalue⟩ := hf.of_converts hg rfl
    · cases hnone
    · cases hc'
      cases hc.symm.trans htype
      exact hvalue.comparable_of_exact hc hk huuid (h g (some c) hg)
  · intro h g field hg
    obtain ⟨hstandard, rfl⟩ | ⟨c, k, rfl, hc, hk, hvalue⟩ := hf.of_converts hg rfl
    · exact hstandard.exact huuid (h.of_converts hg)
    · exact hvalue.exact hc hk huuid (h.of_converts hg)

end Trees

/-! ## What a query keeps -/

/-- The filter converts, and its query finds the document. -/
def MongoKeeps (ctx : MongoFilterContext) (f : SearchFilter) (d : MongoDoc) : Prop :=
  ∃ q, mongoCondition ctx f none false = .ok q ∧ finds q d = true

section MongoKeeps

variable {ctx : MongoFilterContext} {d : MongoDoc}

theorem mongoKeeps_iff {f : SearchFilter} {q : Option MongoQuery}
    (h : mongoCondition ctx f none false = .ok q) : MongoKeeps ctx f d ↔ finds q d = true := by
  rw [MongoKeeps, h]
  simp

/-- The children convert to queries that all find the document when each child keeps it. -/
theorem mongoConditions_keeps (fs : List SearchFilter) :
    (∃ qs, mongoConditions ctx fs none false = .ok qs ∧ ∀ q ∈ qs, finds q d = true) ↔
      ∀ f ∈ fs, MongoKeeps ctx f d := by
  induction fs with
  | nil => simp [mongoConditions]
  | cons f fs ih =>
      rw [List.forall_mem_cons, ← ih, MongoKeeps, mongoConditions]
      cases mongoCondition ctx f none false with
      | error e => simp [bind, Except.bind]
      | ok q =>
          cases mongoConditions ctx fs none false with
          | error e => simp [bind, Except.bind]
          | ok qs => simp [bind, Except.bind, pure, Except.pure]

/-- A conjunction keeps the documents that every child keeps. -/
theorem mongoKeeps_and (fs : List SearchFilter) :
    MongoKeeps ctx (.and fs) d ↔ ∀ f ∈ fs, MongoKeeps ctx f d := by
  rw [← mongoConditions_keeps, MongoKeeps, mongoCondition]
  cases mongoConditions ctx fs none false with
  | error e => simp [bind, Except.bind]
  | ok qs =>
      simp only [bind, Except.bind, pure, Except.pure, Except.ok.injEq, exists_eq_left',
        Bool.false_eq_true, if_false]
      rw [finds_conjunction, List.all_eq_true]

theorem mongoKeeps_all : MongoKeeps ctx .all d := ⟨none, rfl, rfl⟩

theorem not_mongoKeeps_noMatch : ¬ MongoKeeps ctx .noMatch d := by
  simp [MongoKeeps, mongoCondition]

/-- The children of a conjunction convert when it does. -/
theorem exists_mongoCondition_and (fs : List SearchFilter) :
    (∃ q, mongoCondition ctx (.and fs) none false = .ok q) ↔
      ∀ f ∈ fs, ∃ q, mongoCondition ctx f none false = .ok q := by
  have hand (fs : List SearchFilter) : (∃ q, mongoCondition ctx (.and fs) none false = .ok q) ↔
      ∃ qs, mongoConditions ctx fs none false = .ok qs := by
    rw [mongoCondition]
    cases mongoConditions ctx fs none false with
    | error e => simp [bind, Except.bind]
    | ok qs => simp [bind, Except.bind, pure, Except.pure]
  induction fs with
  | nil => simp
  | cons f fs ih =>
      rw [List.forall_mem_cons]
      refine Iff.trans ?_ (and_congr_right' ih)
      rw [hand, hand, mongoConditions]
      cases mongoCondition ctx f none false with
      | error e => simp [bind, Except.bind]
      | ok q =>
          cases mongoConditions ctx fs none false with
          | error e => simp [bind, Except.bind]
          | ok qs => simp [bind, Except.bind, pure, Except.pure]

/-- A query under a filter that keeps everything finds the same documents. -/
theorem mongoCondition_and_all {f : SearchFilter} {q : Option MongoQuery}
    (h : mongoCondition ctx f none false = .ok q) :
    ∃ q', mongoCondition ctx (SearchFilter.and_ [.all, f]) none false = .ok q' ∧
      ∀ d, finds q' d = finds q d := by
  have hconverts : ∃ q', mongoCondition ctx (SearchFilter.and_ [.all, f]) none false = .ok q' := by
    refine SearchFilter.and_induction (P := fun f => ∃ q, mongoCondition ctx f none false = .ok q)
      ⟨_, rfl⟩ ⟨_, rfl⟩ exists_mongoCondition_and ?_
    simp only [List.mem_cons, List.not_mem_nil, or_false, forall_eq_or_imp, forall_eq]
    exact ⟨⟨_, rfl⟩, q, h⟩
  obtain ⟨q', hq'⟩ := hconverts
  refine ⟨q', hq', fun d => Bool.eq_iff_iff.mpr ?_⟩
  rw [← mongoKeeps_iff hq', ← mongoKeeps_iff h,
    SearchFilter.and_iff_forall (P := fun f => MongoKeeps ctx f d) mongoKeeps_all
      not_mongoKeeps_noMatch mongoKeeps_and]
  simp [mongoKeeps_all]

omit [TextRules] in
/-- A value leaf without a field is not supported. -/
theorem mongoValueRule_error {kind : String} {positive : String → MongoQuery}
    {field : Option String} {negated : Bool} {e : ResourceyError}
    (h : mongoValueRule kind positive field negated = .error e) :
    ∃ message, e = .unsupportedFilter message := by
  unfold mongoValueRule at h
  split at h
  · cases h
    exact ⟨_, rfl⟩
  · cases h

/-- A conversion that fails names what is not supported. -/
theorem mongoCondition_error {f : SearchFilter} {field : Option String} {negated : Bool}
    {e : ResourceyError} (h : mongoCondition ctx f field negated = .error e) :
    ∃ message, e = .unsupportedFilter message := by
  have hchildren : ∀ fs : List SearchFilter,
      (∀ f ∈ fs, ∀ {field negated}, mongoCondition ctx f field negated = .error e →
        ∃ message, e = .unsupportedFilter message) → ∀ {field negated},
      mongoConditions ctx fs field negated = .error e →
        ∃ message, e = .unsupportedFilter message := by
    intro fs ih field negated h
    induction fs with
    | nil => cases h
    | cons f fs ihs =>
        rw [List.forall_mem_cons] at ih
        rw [mongoConditions, bind_eq_error] at h
        obtain hf | ⟨q, -, h⟩ := h
        · exact ih.1 hf
        · obtain hfs | ⟨qs, -, h⟩ := bind_eq_error.mp h
          · exact ihs ih.2 hfs
          · cases h
  induction f using SearchFilter.induction generalizing field negated with
  | all | noMatch => cases h
  | and fs ih | or fs ih =>
      rw [mongoCondition, bind_eq_error] at h
      obtain hfs | ⟨qs, -, h⟩ := h
      · exact hchildren fs (fun f hf => ih f hf) hfs
      · cases h
  | not f ih | object fields f ih =>
      rw [mongoCondition] at h
      exact ih h
  | attr name f ih =>
      rw [mongoCondition, MongoFilterContext.fieldFor] at h
      cases hname : ctx.fields name with
      | none =>
          rw [hname] at h
          cases h
          exact ⟨_, rfl⟩
      | some bound =>
          rw [hname] at h
          exact ih h
  | custom kind test =>
      rw [mongoCondition] at h
      cases h
      exact ⟨_, rfl⟩
  | eq | order | contains | isIn =>
      rw [mongoCondition] at h
      exact mongoValueRule_error h

/-- A filter that is not supported is supported under one that keeps everything only if it keeps
nothing. -/
theorem mongoCondition_and_all_error {f : SearchFilter} {e : ResourceyError}
    (h : mongoCondition ctx f none false = .error e) : SearchFilter.and_ [.all, f] = .noMatch ∨
      ∃ message, mongoCondition ctx (SearchFilter.and_ [.all, f]) none false =
        .error (.unsupportedFilter message) := by
  cases hand : mongoCondition ctx (SearchFilter.and_ [.all, f]) none false with
  | error e' =>
      obtain ⟨message, rfl⟩ := mongoCondition_error hand
      exact .inr ⟨message, rfl⟩
  | ok q =>
      have hconverts := SearchFilter.eq_noMatch_or_forall_of_and_
        (P := fun f => ∃ q, mongoCondition ctx f none false = .ok q) ⟨_, rfl⟩
        exists_mongoCondition_and ⟨q, hand⟩
      refine hconverts.imp_right fun hall => ?_
      obtain ⟨q', hq'⟩ := hall f (by simp)
      cases h.symm.trans hq'

end MongoKeeps

omit [TextRules] in
/-- A null label contains neither letter, and a label that is one of two is not missed. -/
theorem exact_iff_comparable_label :
    let _ := TextRules.ascii
    let ctx : MongoFilterContext := ⟨fun a => if a = "label" then some a else none⟩
    let f : SearchFilter := .not (.attr "label" (.or [.contains (.scalar (.str "b")),
      .isIn [.none, .scalar (.str "a")]]))
    ((∀ g field, Converts ctx f none g field → Exact ctx (fun _ => some .str) g field)
      ↔ LeavesComparable ctx (fun _ => some .str) f none) ∧
      ∀ x b, f.matches x = .ok b → f.holds x = b := by
  intro _ ctx f
  refine exact_iff_comparable (fun n => ?_) (.not (.attr rfl rfl (.inl rfl) (.or ?_)))
  · show "UUID" ≠ ""
    simp
  · intro g hg
    simp only [List.mem_cons, List.not_mem_nil, or_false] at hg
    rcases hg with rfl | rfl
    · exact .contains
    · exact .isIn

omit [TextRules] in
/-- **A containment test for a number finds the texts with its digits.** A label is a text, so it
contains no number, and the query matches it all the same. -/
theorem exact_contains_number :
    let _ := TextRules.ascii
    let ctx : MongoFilterContext := ⟨fun a => if a = "label" then some a else none⟩
    let f : SearchFilter := .attr "label" (.contains (.scalar (.int 5)))
    let d : MongoDoc := fun c => if c = "label" then some (.scalar (.str "a5")) else none
    let x : Subject := .object d.get
    f.matches x = .ok false ∧ ∃ q, mongoCondition ctx f none false = .ok q ∧ finds q d = true := by
  intro _ ctx f d x
  refine ⟨rfl, mongoContains (.scalar (.int 5)) "label", rfl, ?_⟩
  rw [finds_some, mongoContains, dict_single]
  decide

end Resourcey
