import Resourcey.Core.Manifest
import Mathlib.Data.Finset.Max

/-!
# References by name

A field refers to a resource by its singular name, and a manifest knows its resources by their
paths, which are plurals. `singularise` is to undo `pluralize`, and it does unless the name ends in
an `e`: the plural of such a name ends in `es` without `es` having been appended
(`singularise_pluralize_iff`). With one such resource a manifest does not start though it serves what
is referred to, or starts though it does not (`resolvesByName_iff`).
-/

namespace Resourcey

/-- `name.lower().endswith(suffix)`. -/
def lowerEndsWith (name suffix : String) : Bool :=
  decide (suffix.toList <:+ PyText.lower name.toList)

/-- `pluralize`. -/
def pluralize (name : String) : String :=
  if ["s", "x", "z", "ch", "sh"].any (lowerEndsWith name) then name ++ "es" else name ++ "s"

/-! ## Endings -/

variable {n : String}

/-- An ending that is in lower case is appended as it is. -/
theorem lower_append_toList (n suffix : String)
    (hlower : PyText.lower suffix.toList = suffix.toList) :
    PyText.lower (n ++ suffix).toList = PyText.lower n.toList ++ suffix.toList := by
  rw [String.toList_append, PyText.lower, List.map_append]
  exact congrArg (PyText.lower n.toList ++ ·) hlower

theorem dropLast_append_es (n : String) :
    String.ofList (n ++ "es").toList.dropLast.dropLast = n := by
  have hes : (n ++ "es").toList = (n.toList ++ ['e']) ++ ['s'] := by
    rw [String.toList_append, List.append_assoc]
    rfl
  rw [hes, List.dropLast_concat, List.dropLast_concat, String.ofList_toList]

/-- What `es` was appended to is what is left. -/
theorem singularise_append_es (n : String) : singularise (n ++ "es") = n := by
  have hes : "es".toList <:+ PyText.lower (n ++ "es").toList := by
    rw [lower_append_toList n "es" (by decide)]
    exact List.suffix_append _ _
  rw [singularise, if_pos hes, dropLast_append_es]

/-- Of a name that `s` was appended to, an `e` before it is stripped too. -/
theorem singularise_append_s (n : String) : singularise (n ++ "s") =
    if lowerEndsWith n "e" then String.ofList n.toList.dropLast else n := by
  have hlower := lower_append_toList n "s" (by decide)
  have hes : "es".toList <:+ PyText.lower (n ++ "s").toList ↔ lowerEndsWith n "e" = true := by
    rw [hlower, lowerEndsWith, decide_eq_true_iff]
    exact @List.suffix_append_self_iff _ ['e'] _ _
  have hs : "s".toList <:+ PyText.lower (n ++ "s").toList := by
    rw [hlower]
    exact List.suffix_append _ _
  have hdrop : (n ++ "s").toList.dropLast = n.toList := by
    rw [String.toList_append]
    exact List.dropLast_concat
  rw [singularise, if_pos hs, hdrop, String.ofList_toList]
  exact if_congr hes rfl rfl

/-- A name that ends in an `e` has none of the endings that ask for `es`. -/
theorem pluralize_of_lowerEndsWith_e (he : lowerEndsWith n "e" = true) :
    pluralize n = n ++ "s" := by
  have he : ['e'] <:+ PyText.lower n.toList := of_decide_eq_true he
  have hother (suffix : List Char) (hlast : suffix.getLast? ≠ some 'e') (hne : suffix ≠ []) :
      ¬ suffix <:+ PyText.lower n.toList := by
    rintro ⟨front, hfront⟩
    obtain ⟨front', hfront'⟩ := he
    have h := congrArg List.getLast? (hfront.trans hfront'.symm)
    rw [List.getLast?_append_of_ne_nil _ hne, List.getLast?_concat] at h
    exact hlast h
  refine if_neg fun hany => ?_
  obtain ⟨suffix, hmem, hsuffix⟩ := List.any_eq_true.mp hany
  have hsuffix := of_decide_eq_true hsuffix
  simp only [List.mem_cons, List.not_mem_nil, or_false] at hmem
  rcases hmem with rfl | rfl | rfl | rfl | rfl <;> exact hother _ (by decide) (by decide) hsuffix

/-- A name comes back, but for an `e` at its end. -/
theorem singularise_pluralize (n : String) : singularise (pluralize n) =
    if lowerEndsWith n "e" then String.ofList n.toList.dropLast else n := by
  by_cases he : lowerEndsWith n "e" = true
  · rw [pluralize_of_lowerEndsWith_e he, singularise_append_s]
  · rw [if_neg he, pluralize]
    split
    · exact singularise_append_es n
    · rw [singularise_append_s, if_neg he]

/-- A name that ends in an `e` loses a character. -/
theorem length_of_lowerEndsWith_e (he : lowerEndsWith n "e" = true) :
    (singularise (pluralize n)).toList.length + 1 = n.toList.length := by
  have hpos : 1 ≤ n.toList.length := by
    simpa [PyText.lower] using (of_decide_eq_true he).length_le
  rw [singularise_pluralize, if_pos he, String.toList_ofList, List.length_dropLast]
  omega

theorem singularise_pluralize_iff (n : String) :
    singularise (pluralize n) = n ↔ lowerEndsWith n "e" = false := by
  constructor
  · intro h
    by_contra he
    have hlength := length_of_lowerEndsWith_e (Bool.eq_true_of_not_eq_false he)
    rw [h] at hlength
    omega
  · intro he
    rw [singularise_pluralize, if_neg (by simp [he])]

/-! ## Manifests -/

section
variable {ε : Type} {resources : List ManifestResource}

/-- A target that a field of a resource refers to. -/
def RefersTo (resources : List ManifestResource) (target : String) : Prop :=
  ∃ r ∈ resources, ∃ field ∈ r.fields.getD [], field.2 = some target

/-- What `_validate_references` accepts. -/
theorem validateReferences_ok_iff : validateReferences (ε := ε) resources = .ok () ↔
    ∀ target, RefersTo resources target → target ∈ servedNames resources := by
  rw [validateReferences, forM_ok_iff]
  constructor
  · rintro h target ⟨r, hr, field, hmem, htarget⟩
    have hfield := forM_ok_iff.mp (h r hr) field hmem
    simp only [htarget] at hfield
    by_contra hnot
    rw [if_neg hnot] at hfield
    cases hfield
  · intro h r hr
    refine forM_ok_iff.mpr fun field hmem => ?_
    cases htarget : field.2 with
    | none => rfl
    | some target => exact if_pos (h target ⟨r, hr, field, hmem, htarget⟩)

/-- No error of `_validate_references` is but of a reference. -/
theorem unknownReference_of_validateReferences {e : LifecycleError ε}
    (h : validateReferences resources = .error e) :
    ∃ path field target served, e = .unknownReference path field target served := by
  obtain ⟨r, -, hr⟩ := exists_of_forM_error h
  obtain ⟨field, -, hfield⟩ := exists_of_forM_error hr
  split at hfield
  · cases hfield
  · split at hfield
    · cases hfield
    · cases hfield
      exact ⟨_, _, _, _, rfl⟩

/-- Entering raises for a reference exactly if there is one to a name that is not served. -/
theorem aenter_unknownReference_iff {M : Type} {managers : List M}
    {faults : Manifest.Faults M ε} :
    (∃ path field target served, (Manifest.aenter ⟨managers, resources⟩ faults false).error =
        some (.unknownReference path field target served)) ↔
      ∃ target, RefersTo resources target ∧ target ∉ servedNames resources := by
  have hvalid : validateReferences (ε := ε) resources = .ok () ↔
      ∀ target, RefersTo resources target → target ∈ servedNames resources :=
    validateReferences_ok_iff
  rw [Manifest.aenter, if_neg Bool.false_ne_true]
  rcases h : validateReferences (ε := ε) resources with e | u
  · obtain ⟨path, field, target, served, rfl⟩ := unknownReference_of_validateReferences h
    refine iff_of_true ⟨path, field, target, served, rfl⟩ ?_
    by_contra hnone
    push Not at hnone
    cases h.symm.trans (hvalid.mpr hnone)
  · have hall := hvalid.mp h
    refine iff_of_false ?_ ?_
    · rintro ⟨path, field, target, served, heq⟩
      obtain ⟨e, -, he⟩ := Option.map_eq_some_iff.mp heq
      cases he
    · rintro ⟨target, hrefers, hnot⟩
      exact hnot (hall target hrefers)

end

/-- The resources that are served under the plurals of their names. -/
def servedAs (resources : List (String × Option (List (String × Option String)))) :
    List ManifestResource :=
  resources.map fun r => ⟨pluralize r.1, r.2⟩

/-- Entering a manifest of resources of these names, whatever their fields refer to and whatever
raises later, raises for a reference exactly if there is one to a name that is not among them. -/
def ReferencesResolve (names : List String) : Prop :=
  ∀ (M ε : Type) (managers : List M) resources (faults : Manifest.Faults M ε),
    resources.map (·.1) = names →
      ((∃ path field target served, (Manifest.aenter ⟨managers, servedAs resources⟩ faults
          false).error = some (.unknownReference path field target served)) ↔
        ∃ target, RefersTo (servedAs resources) target ∧ target ∉ names)

/-- **Resources of these names resolve by name**: each is served under its name, no two under one,
and references resolve. -/
structure ResolvesByName (names : List String) : Prop where
  inverse : ∀ n ∈ names, singularise (pluralize n) = n
  distinct : ∀ n ∈ names, ∀ m ∈ names,
    singularise (pluralize n) = singularise (pluralize m) → n = m
  references : ReferencesResolve names

/-- The names that the plurals are served under. -/
theorem mem_servedNames_servedAs
    {resources : List (String × Option (List (String × Option String)))} {target : String} :
    target ∈ servedNames (servedAs resources) ↔
      ∃ n ∈ resources.map (·.1), singularise (pluralize n) = target := by
  simp [servedNames, servedAs]

/-- If the names are served under themselves as a set, each comes back: the longest that does not is
served under none. -/
theorem forall_not_lowerEndsWith_e {names : List String}
    (h : ∀ n ∈ names, ∃ m ∈ names, singularise (pluralize m) = n) :
    ∀ n ∈ names, lowerEndsWith n "e" = false := by
  by_contra hsome
  push Not at hsome
  obtain ⟨n, hn, he⟩ := hsome
  have hne : (names.toFinset.filter fun n => lowerEndsWith n "e" = true).Nonempty :=
    ⟨n, Finset.mem_filter.mpr ⟨List.mem_toFinset.mpr hn, Bool.eq_true_of_not_eq_false he⟩⟩
  obtain ⟨longest, hmem, hmax⟩ := Finset.exists_max_image _ (fun n => n.toList.length) hne
  obtain ⟨hmem, hlongest⟩ := Finset.mem_filter.mp hmem
  obtain ⟨m, hm, heq⟩ := h longest (List.mem_toFinset.mp hmem)
  by_cases hme : lowerEndsWith m "e" = true
  · have hlength := length_of_lowerEndsWith_e hme
    have hle := hmax m (Finset.mem_filter.mpr ⟨List.mem_toFinset.mpr hm, hme⟩)
    rw [heq] at hlength
    omega
  · have hself := (singularise_pluralize_iff m).mpr (Bool.eq_false_iff.mpr hme)
    rw [heq.symm.trans hself] at hlongest
    exact hme hlongest

/-- References resolve exactly if no name ends in an `e`: for the converse every resource refers to
the one name that is not served. -/
theorem referencesResolve_iff (names : List String) :
    ReferencesResolve names ↔ ∀ n ∈ names, lowerEndsWith n "e" = false := by
  constructor
  · intro h
    refine forall_not_lowerEndsWith_e fun target htarget => ?_
    let resources := names.map fun n => (n, some [("reference", some target)])
    have hnames : resources.map (·.1) = names := by
      rw [List.map_map]
      exact List.map_id names
    have hrefers : RefersTo (servedAs resources) target := by
      refine ⟨⟨pluralize target, some [("reference", some target)]⟩, ?_, _, List.mem_cons_self, rfl⟩
      exact List.mem_map.mpr ⟨_, List.mem_map.mpr ⟨target, htarget, rfl⟩, rfl⟩
    by_contra hnot
    let faults : Manifest.Faults Empty Empty := ⟨fun _ => none, fun _ => none⟩
    have hraises : ∃ path field target served,
        (Manifest.aenter ⟨[], servedAs resources⟩ faults false).error =
          some (.unknownReference path field target served) :=
      aenter_unknownReference_iff.mpr ⟨target, hrefers, fun hserved =>
        hnot (hnames ▸ mem_servedNames_servedAs.mp hserved)⟩
    obtain ⟨other, ⟨r, hr, field, hfield, hother⟩, hmissing⟩ := (h _ _ _ _ _ hnames).mp hraises
    obtain ⟨entry, hentry, rfl⟩ := List.mem_map.mp hr
    obtain ⟨n, -, rfl⟩ := List.mem_map.mp hentry
    obtain rfl := List.mem_singleton.mp hfield
    cases hother
    exact hmissing htarget
  · intro h M ε managers resources faults hnames
    have hself : ∀ n ∈ names, singularise (pluralize n) = n :=
      fun n hn => (singularise_pluralize_iff n).mpr (h n hn)
    have hserved (target : String) :
        target ∈ servedNames (servedAs resources) ↔ target ∈ names := by
      rw [mem_servedNames_servedAs, hnames]
      constructor
      · rintro ⟨n, hn, rfl⟩
        rwa [hself n hn]
      · intro htarget
        exact ⟨target, htarget, hself target htarget⟩
    rw [aenter_unknownReference_iff]
    simp only [hserved]

/-- **Resources resolve by name exactly if no name ends in an `e`**, and that is when references
resolve. -/
theorem resolvesByName_iff (names : List String) :
    (ResolvesByName names ↔ ∀ n ∈ names, lowerEndsWith n "e" = false) ∧
      (ReferencesResolve names ↔ ∀ n ∈ names, lowerEndsWith n "e" = false) := by
  have hreferences := referencesResolve_iff names
  refine ⟨⟨fun h => hreferences.mp h.references, fun h => ?_⟩, hreferences⟩
  have hself : ∀ n ∈ names, singularise (pluralize n) = n :=
    fun n hn => (singularise_pluralize_iff n).mpr (h n hn)
  refine ⟨hself, ?_, hreferences.mpr h⟩
  intro n hn m hm heq
  rwa [hself n hn, hself m hm] at heq

/-- A file is served as `fil`: a manifest with a reference to it does not start. -/
theorem not_resolvesByName_file :
    let resources : List (String × Option (List (String × Option String))) :=
      [("file", none), ("comment", some [("file_id", some "file")])]
    singularise (pluralize "file") = "fil" ∧
      (∃ path field target served, (Manifest.aenter (ε := Empty) ⟨([] : List Empty),
        servedAs resources⟩ ⟨fun _ => none, fun _ => none⟩ false).error =
          some (.unknownReference path field target served)) ∧
      ¬ ResolvesByName ["file", "comment"] := by
  intro resources
  have hfile : singularise (pluralize "file") = "fil" := by decide
  refine ⟨hfile, aenter_unknownReference_iff.mpr ⟨"file", ?_, ?_⟩, ?_⟩
  · exact ⟨⟨pluralize "comment", some [("file_id", some "file")]⟩, by simp [servedAs, resources],
      _, List.mem_cons_self, rfl⟩
  · decide
  · intro h
    have hinverse := h.inverse "file" List.mem_cons_self
    rw [hfile] at hinverse
    exact absurd hinverse (by decide)

end Resourcey
