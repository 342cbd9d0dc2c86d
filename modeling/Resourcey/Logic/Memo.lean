import Mathlib.Data.List.Basic
import Mathlib.Data.List.Nodup
import Mathlib.Tactic.Common

/-!
# Answers that are kept

A question is asked once and its answer is kept. The answer may depend on when it was asked, so a
computation over a table of answers depends on the history; but since an answer that was given is
never given up (`Memo.Extends`), what it returns is a function of the answers that are there in the
end.
-/

/-- The answers so far, and the calls that were made for them, the first one first. -/
structure Memo (κ α : Type*) where
  answers : List (κ × α) := []
  calls : List κ := []

namespace Memo

variable {κ α : Type*} [DecidableEq κ] {m m' m'' : Memo κ α}

/-- The answer that was given. -/
def get (m : Memo κ α) (key : κ) : Option α := m.answers.lookup key

/-- A question is asked. The answer depends on how many calls were made before. -/
def ask (m : Memo κ α) (answer : κ → ℕ → α) (key : κ) : α × Memo κ α :=
  match m.get key with
  | some a => (a, m)
  | none =>
    (answer key m.calls.length,
      ⟨(key, answer key m.calls.length) :: m.answers, m.calls ++ [key]⟩)

/-- What was answered is answered still. -/
def Extends (m m' : Memo κ α) : Prop := ∀ key a, m.get key = some a → m'.get key = some a

theorem Extends.refl (m : Memo κ α) : m.Extends m := fun _ _ h => h

theorem Extends.trans (h : m.Extends m') (h' : m'.Extends m'') : m.Extends m'' :=
  fun key a hget => h' key a (h key a hget)

/-- Each call was made once, for an answer that is that of the call. -/
structure Sound (answer : κ → ℕ → α) (m : Memo κ α) : Prop where
  nodup : m.calls.Nodup
  mem_calls : ∀ key, key ∈ m.calls ↔ ∃ a, m.get key = some a
  answered : ∀ key a, m.get key = some a → ∃ n, a = answer key n

theorem Sound.empty (answer : κ → ℕ → α) : Sound answer {} where
  nodup := List.nodup_nil
  mem_calls key := by simp [get]
  answered key a h := by cases h

theorem Sound.ask {answer : κ → ℕ → α} (h : Sound answer m) (key : κ) :
    Sound answer (m.ask answer key).2 := by
  rw [Memo.ask]
  split
  · exact h
  · next hnone =>
      have hfresh : key ∉ m.calls := by
        intro hmem
        obtain ⟨a, ha⟩ := (h.mem_calls key).mp hmem
        rw [hnone] at ha
        cases ha
      refine ⟨?_, fun other => ?_, fun other a ha => ?_⟩
      · exact h.nodup.append (List.nodup_singleton key) (List.disjoint_singleton.mpr hfresh)
      · rw [List.mem_append, List.mem_singleton, get, List.lookup_cons]
        rcases eq_or_ne other key with rfl | hne
        · simp
        · rw [beq_false_of_ne hne, h.mem_calls other]
          simp [hne, get]
      · rw [get, List.lookup_cons] at ha
        rcases eq_or_ne other key with rfl | hne
        · rw [beq_self_eq_true] at ha
          cases ha
          exact ⟨_, rfl⟩
        · rw [beq_false_of_ne hne] at ha
          exact h.answered other a ha

end Memo
