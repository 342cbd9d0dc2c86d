import Mathlib.Data.List.Sort

/-!
# Stable sorting by a comparison that may raise

`sortM` sorts with a comparison that may raise, and raises when one of its comparisons does. Where
the comparison answers it is the insertion sort (`sortM_eq`), and that sort is stable: elements
with equal keys keep their order, so a list that is sorted one way and then sorted by a key is
sorted by the key first and the old way among equals (`pairwise_insertionSort_of_pairwise`).
-/

namespace StableSort

variable {α ε : Type} {K : Type*}

/-- Inserts an element before the first one that is not less than it. -/
def insertM (lt : α → α → Except ε Bool) (a : α) : List α → Except ε (List α)
  | [] => .ok [a]
  | b :: bs => do
    if ← lt b a then
      let bs ← insertM lt a bs
      return b :: bs
    else return a :: b :: bs

/-- Sorts a list, an element before the ones that follow it and are not less. -/
def sortM (lt : α → α → Except ε Bool) : List α → Except ε (List α)
  | [] => .ok []
  | a :: as => do
    let as ← sortM lt as
    insertM lt a as

section Ordered

variable {lt : α → α → Except ε Bool} {le : α → α → Prop} [DecidableRel le]

/-- Where the comparison answers, an element is inserted in order. -/
theorem insertM_eq {a : α} {l : List α} (h : ∀ b ∈ l, lt b a = .ok (!decide (le a b))) :
    insertM lt a l = .ok (l.orderedInsert le a) := by
  induction l with
  | nil => rfl
  | cons b bs ih =>
      simp only [List.mem_cons, forall_eq_or_imp] at h
      rw [insertM, h.1, List.orderedInsert]
      by_cases hab : le a b
      · simp [hab, bind, Except.bind, pure, Except.pure]
      · simp [hab, ih h.2, bind, Except.bind, pure, Except.pure]

/-- Where the comparison answers, sorting is sorting by insertion. -/
theorem sortM_eq {l : List α} (h : ∀ a ∈ l, ∀ b ∈ l, lt b a = .ok (!decide (le a b))) :
    sortM lt l = .ok (l.insertionSort le) := by
  induction l with
  | nil => rfl
  | cons a as ih =>
      have htail := ih fun b hb c hc => h b (List.mem_cons_of_mem a hb) c (List.mem_cons_of_mem a hc)
      rw [sortM, htail]
      refine insertM_eq fun b hb => h a List.mem_cons_self b (List.mem_cons_of_mem a ?_)
      exact (List.mem_insertionSort le).mp hb

end Ordered

section Stable

variable [LinearOrder K] {key : α → K} {before : α → α → Prop}

/-- The order of a list that was in the order `before` and is then sorted by a key. -/
def ByKey (key : α → K) (before : α → α → Prop) (a b : α) : Prop :=
  key a < key b ∨ key a = key b ∧ before a b

theorem pairwise_orderedInsert {a : α} {l : List α} (hl : l.Pairwise (ByKey key before))
    (ha : ∀ b ∈ l, before a b) :
    (l.orderedInsert (fun a b => key a ≤ key b) a).Pairwise (ByKey key before) := by
  induction l with
  | nil => simp
  | cons b bs ih =>
      simp only [List.mem_cons, forall_eq_or_imp] at ha
      obtain ⟨hb, hbs⟩ := List.pairwise_cons.mp hl
      rw [List.orderedInsert]
      by_cases hab : key a ≤ key b
      · rw [if_pos hab]
        have hhead : ByKey key before a b := hab.lt_or_eq.imp_right fun he => ⟨he, ha.1⟩
        refine List.pairwise_cons.mpr ⟨fun c hc => ?_, hl⟩
        rcases List.mem_cons.mp hc with rfl | hc
        · exact hhead
        · -- the list is sorted, so what follows its head is not before it
          have hbc : key b ≤ key c := (hb c hc).elim le_of_lt fun h => h.1.le
          exact (hab.trans hbc).lt_or_eq.imp_right fun he => ⟨he, ha.2 c hc⟩
      · rw [if_neg hab]
        refine List.pairwise_cons.mpr ⟨fun c hc => ?_, ih hbs ha.2⟩
        rcases (List.mem_orderedInsert _).mp hc with rfl | hc
        · exact .inl (lt_of_not_ge hab)
        · exact hb c hc

/-- **Sorting is stable.** A list in one order that is sorted by a key is sorted by the key, and
among equal keys in that order. -/
theorem pairwise_insertionSort_of_pairwise {l : List α} (hl : l.Pairwise before) :
    (l.insertionSort fun a b => key a ≤ key b).Pairwise (ByKey key before) := by
  induction l with
  | nil => exact .nil
  | cons a as ih =>
      obtain ⟨ha, has⟩ := List.pairwise_cons.mp hl
      rw [List.insertionSort_cons]
      exact pairwise_orderedInsert (ih has) fun b hb => ha b ((List.mem_insertionSort _).mp hb)

end Stable

end StableSort
