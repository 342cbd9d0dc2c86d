import Mathlib.Data.List.Induction
import Mathlib.Data.List.Nodup

/-!
# Dictionaries by an equality of keys

A dictionary as Python keeps it: entries in the order of their insertion, keys told apart by an
equality that need not be identity. Writing to a key that is there replaces the value and keeps the
key. If the equality is an equivalence, a dictionary that is built of a list finds the last value of
a key (`get_ofList`), and by identity its keys are those of the list, each once (`keys_ofList`).
-/

namespace PyDict

variable {κ α : Type*} (eq : κ → κ → Bool)

/-- `d[key] = value`. -/
def set : List (κ × α) → κ → α → List (κ × α)
  | [], key, value => [(key, value)]
  | e :: d, key, value => if eq e.1 key then (e.1, value) :: d else e :: set d key value

/-- `d.get(key)`. -/
def get (d : List (κ × α)) (key : κ) : Option α := (d.find? fun e => eq e.1 key).map (·.2)

/-- `{key: value for key, value in entries}`. -/
def ofList (entries : List (κ × α)) : List (κ × α) :=
  entries.foldl (fun d e => set eq d e.1 e.2) []

variable {eq}

/-- What a key holds after a write. -/
theorem get_set (h : Equivalence fun a b => eq a b = true) (d : List (κ × α)) (key : κ) (value : α)
    (other : κ) :
    get eq (set eq d key value) other = if eq key other then some value else get eq d other := by
  induction d with
  | nil => by_cases hkey : eq key other = true <;> simp [set, get, hkey]
  | cons e d ih =>
      rw [set]
      by_cases he : eq e.1 key = true
      · have hsame : eq e.1 other = eq key other := by
          rw [Bool.eq_iff_iff]
          exact ⟨h.trans (h.symm he), h.trans he⟩
        rw [if_pos he]
        by_cases hkey : eq key other = true
        · simp [get, hsame, hkey]
        · simp [get, hsame, hkey]
      · rw [if_neg he]
        by_cases hother : eq e.1 other = true
        · have hkey : ¬ eq key other = true := fun hkey => he (h.trans hother (h.symm hkey))
          simp [get, hother, hkey]
        · simpa [get, hother] using ih

/-- **Of the entries with one key the last value stays.** -/
theorem get_ofList (h : Equivalence fun a b => eq a b = true) (entries : List (κ × α)) (key : κ) :
    get eq (ofList eq entries) key = (entries.reverse.find? fun e => eq e.1 key).map (·.2) := by
  induction entries using List.reverseRecOn with
  | nil => rfl
  | append_singleton entries e ih =>
      rw [ofList, List.foldl_append, ← ofList, List.foldl_cons, List.foldl_nil, get_set h, ih,
        List.reverse_append]
      by_cases hkey : eq e.1 key = true <;> simp [hkey]

section
variable [DecidableEq κ]

/-- Writing adds a key at the end, if it is new. -/
theorem keys_set (d : List (κ × α)) (key : κ) (value : α) :
    (set (fun a b => decide (a = b)) d key value).map (·.1) =
      if key ∈ d.map (·.1) then d.map (·.1) else d.map (·.1) ++ [key] := by
  induction d with
  | nil => rfl
  | cons e d ih =>
      rw [set]
      rcases eq_or_ne e.1 key with rfl | hne
      · simp
      · rw [if_neg (by simpa using hne), List.map_cons, ih, List.map_cons]
        by_cases hmem : key ∈ d.map (·.1)
        · rw [if_pos hmem, if_pos (List.mem_cons_of_mem _ hmem)]
        · rw [if_neg hmem, if_neg fun h => (List.mem_cons.mp h).elim hne.symm hmem]
          rfl

/-- What a dictionary with distinct keys holds is what its keys hold. -/
theorem mem_iff_get {d : List (κ × α)} (h : (d.map (·.1)).Nodup) {key : κ} {value : α} :
    (key, value) ∈ d ↔ get (fun a b => decide (a = b)) d key = some value := by
  induction d with
  | nil => simp [get]
  | cons e d ih =>
      obtain ⟨hfresh, hnodup⟩ := List.nodup_cons.mp h
      rw [List.mem_cons, ih hnodup]
      rcases eq_or_ne e.1 key with rfl | hne
      · have hget : get (fun a b => decide (a = b)) (e :: d) e.1 = some e.2 := by simp [get]
        have hnone : get (fun a b => decide (a = b)) d e.1 ≠ some value := by
          intro hsome
          exact hfresh (List.mem_map.mpr ⟨(e.1, value), (ih hnodup).mpr hsome, rfl⟩)
        rw [hget, or_iff_left hnone, Option.some.injEq]
        exact ⟨fun heq => (congrArg Prod.snd heq).symm, fun heq => Prod.ext rfl heq.symm⟩
      · have hget : get (fun a b => decide (a = b)) (e :: d) key =
            get (fun a b => decide (a = b)) d key := by simp [get, hne]
        rw [hget]
        exact or_iff_right fun heq => hne (congrArg Prod.fst heq).symm

/-- **The keys are distinct**, and are those of the entries. -/
theorem keys_ofList (entries : List (κ × α)) :
    ((ofList (fun a b => decide (a = b)) entries).map (·.1)).Nodup ∧
      ∀ key, key ∈ (ofList (fun a b => decide (a = b)) entries).map (·.1) ↔
        key ∈ entries.map (·.1) := by
  induction entries using List.reverseRecOn with
  | nil => exact ⟨List.nodup_nil, fun key => Iff.rfl⟩
  | append_singleton entries e ih =>
      obtain ⟨hnodup, hmem⟩ := ih
      rw [ofList, List.foldl_append, ← ofList, List.foldl_cons, List.foldl_nil, keys_set]
      split
      · next hkey =>
          refine ⟨hnodup, fun key => ?_⟩
          rw [hmem, List.map_append, List.mem_append]
          refine ⟨.inl, fun h => h.elim id fun heq => ?_⟩
          rw [List.mem_singleton.mp heq]
          exact (hmem _).mp hkey
      · next hkey =>
          refine ⟨List.concat_eq_append ▸ hnodup.concat hkey, fun key => ?_⟩
          rw [List.mem_append, hmem, List.map_append, List.mem_append]
          rfl

/-- An entry after a write was there before, or is what was written. -/
theorem mem_of_mem_set {d : List (κ × α)} {key : κ} {value : α} {e : κ × α}
    (h : e ∈ set (fun a b => decide (a = b)) d key value) : e ∈ d ∨ e = (key, value) := by
  induction d with
  | nil => exact .inr (List.mem_singleton.mp h)
  | cons e' d ih =>
      rw [set] at h
      split at h
      · next heq =>
          obtain rfl : e'.1 = key := of_decide_eq_true heq
          exact (List.mem_cons.mp h).symm.imp_left (List.mem_cons_of_mem _)
      · rcases List.mem_cons.mp h with rfl | h
        · exact .inl List.mem_cons_self
        · exact (ih h).imp_left (List.mem_cons_of_mem _)

/-- A value of a dictionary is one of the entries'. -/
theorem mem_of_mem_ofList {entries : List (κ × α)} {e : κ × α}
    (h : e ∈ ofList (fun a b => decide (a = b)) entries) : e ∈ entries := by
  induction entries using List.reverseRecOn with
  | nil => exact h
  | append_singleton entries e' ih =>
      rw [ofList, List.foldl_append, ← ofList, List.foldl_cons, List.foldl_nil] at h
      rcases mem_of_mem_set h with h | rfl
      · exact List.mem_append_left _ (ih h)
      · exact List.mem_append_right _ List.mem_cons_self

/-- Entries with distinct keys are a dictionary. -/
theorem ofList_of_nodup {entries : List (κ × α)} (h : (entries.map (·.1)).Nodup) :
    ofList (fun a b => decide (a = b)) entries = entries := by
  have hset : ∀ (d : List (κ × α)) (key : κ) (value : α), key ∉ d.map (·.1) →
      set (fun a b => decide (a = b)) d key value = d ++ [(key, value)] := by
    intro d key value
    induction d with
    | nil => exact fun _ => rfl
    | cons e d ih =>
        intro hkey
        rw [List.map_cons, List.mem_cons, not_or] at hkey
        rw [set, if_neg (by simpa using Ne.symm hkey.1), ih hkey.2]
        rfl
  induction entries using List.reverseRecOn with
  | nil => rfl
  | append_singleton entries e ih =>
      rw [List.map_append, List.nodup_append_comm] at h
      obtain ⟨hfresh, hnodup⟩ := List.nodup_cons.mp h
      rw [ofList, List.foldl_append, ← ofList, List.foldl_cons, List.foldl_nil, ih hnodup,
        hset _ _ _ hfresh]

end

end PyDict
