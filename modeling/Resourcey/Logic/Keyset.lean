import Mathlib.Data.List.Sort
import Mathlib.Data.List.Nodup
import Mathlib.Order.RelClasses

/-!
# Keyset pagination

A seek cursor names a position in a strict order and a page holds the first rows past it. `IsPage`
is what one page owes: its rows are past the cursor and in order, and a row past the cursor that
it leaves out lies past the cursor it hands on. Everything about a walk follows from that alone:
the rows it returns are strictly ordered (`Walk.pairwise`), a position that is occupied at every
request is returned (`Walk.covers`), and over rows that do not change the walk ends
(`exists_walk`) with exactly the rows in order (`Walk.flatten_eq`). `isPage_take` builds a page
from a sorted list.
-/

namespace Keyset

variable {α P C : Type*} (before : P → P → Prop) (pos : α → P)

/-- `p` lies past the cursor. Every position lies past the absent one. -/
def Past : Option P → P → Prop
  | none, _ => True
  | some c, p => before c p

/-- What a page taken from `rows` at `cursor` owes, `next` being the position it hands on. -/
structure IsPage (rows : List α) (cursor : Option P) (items : List α) (next : Option P) :
    Prop where
  sound : ∀ a ∈ items, a ∈ rows ∧ Past before cursor (pos a)
  pairwise : items.Pairwise fun a b => before (pos a) (pos b)
  complete : ∀ a ∈ rows, Past before cursor (pos a) →
    a ∈ items ∨ ∃ p, next = some p ∧ before p (pos a)
  next_mem : ∀ p, next = some p → ∃ a ∈ items, pos a = p
  next_max : ∀ p, next = some p → ∀ a ∈ items, pos a = p ∨ before (pos a) p

/-- A walk over pages: request after request, each with the cursor the one before handed on,
until a page hands on none. `page t c items next` says that the request made at time `t` with
cursor `c` is answered by `items` and `next`. -/
inductive Walk (page : ℕ → Option C → List α → Option C → Prop) :
    ℕ → Option C → List (List α) → Prop
  | last {t c items} : page t c items none → Walk page t c [items]
  | more {t c items c' pages} : page t c items (some c') → Walk page (t + 1) (some c') pages →
      Walk page t c (items :: pages)

section Walk

variable {before pos} {page : ℕ → Option C → List α → Option C → Prop} {rows : ℕ → List α}
  {key : C → P}

/-- A position past a position past the cursor is past the cursor. -/
theorem Past.trans [IsTrans P before] {cursor : Option P} {p q : P}
    (hp : Past before cursor p) (hq : before p q) : Past before cursor q := by
  cases cursor with
  | none => trivial
  | some c => exact IsTrans.trans _ _ _ hp hq

/-- A walk starts with the page of its first request. -/
theorem Walk.head {t : ℕ} {c : Option C} {pages : List (List α)} (h : Walk page t c pages) :
    ∃ items next, page t c items next ∧ ∀ a ∈ items, a ∈ pages.flatten := by
  cases h with
  | last hp => exact ⟨_, _, hp, fun a ha => by simpa using ha⟩
  | more hp _ => exact ⟨_, _, hp, fun a ha => by simp [ha]⟩

/-- A walk over pages is one over what pages imply. -/
theorem Walk.mono {page' : ℕ → Option C → List α → Option C → Prop}
    (himp : ∀ {t c items next}, page t c items next → page' t c items next)
    {t : ℕ} {c : Option C} {pages : List (List α)} (h : Walk page t c pages) :
    Walk page' t c pages := by
  induction h with
  | last hp => exact .last (himp hp)
  | more hp _ ih => exact .more (himp hp) ih

/-- A backend whose pages hold the same rows as another's at corresponding cursors, and hand on
corresponding cursors, has the other's walks. -/
theorem Walk.transfer {C' : Type*} {page' : ℕ → Option C' → List α → Option C' → Prop}
    {R : Option C → Option C' → Prop} (hnone : ∀ {c c'}, R c c' → (c = none ↔ c' = none))
    (hstep : ∀ {t c c' items next}, R c c' → page t c items next →
      ∃ next', page' t c' items next' ∧ R next next')
    {t : ℕ} {c : Option C} {c' : Option C'} {pages : List (List α)} (hc : R c c')
    (h : Walk page t c pages) : Walk page' t c' pages := by
  induction h generalizing c' with
  | last hp =>
      obtain ⟨next', hp', hnext⟩ := hstep hc hp
      cases (hnone hnext).mp rfl
      exact .last hp'
  | more hp _ ih =>
      obtain ⟨next', hp', hnext⟩ := hstep hc hp
      obtain ⟨x, rfl⟩ := Option.ne_none_iff_exists'.mp (mt (hnone hnext).mpr (by simp))
      exact .more hp' (ih hnext)

/-- The rows of a walk are strictly ordered, and all lie past the cursor it starts from. -/
theorem Walk.pairwise [IsTrans P before]
    (hpage : ∀ t c items next, page t c items next →
      IsPage before pos (rows t) (c.map key) items (next.map key))
    {t : ℕ} {c : Option C} {pages : List (List α)} (h : Walk page t c pages) :
    pages.flatten.Pairwise (fun a b => before (pos a) (pos b)) ∧
      ∀ a ∈ pages.flatten, Past before (c.map key) (pos a) := by
  induction h with
  | last hp =>
      have hP := hpage _ _ _ _ hp
      simp only [List.flatten_cons, List.flatten_nil, List.append_nil]
      exact ⟨hP.pairwise, fun a ha => (hP.sound a ha).2⟩
  | @more t c items c' pages hp _ ih =>
      have hP := hpage _ _ _ _ hp
      obtain ⟨b, hb, hbk⟩ := hP.next_mem (key c') rfl
      simp only [List.flatten_cons, List.pairwise_append, List.mem_append]
      refine ⟨⟨hP.pairwise, ih.1, fun a ha r hr => ?_⟩, ?_⟩
      · have hr' : before (key c') (pos r) := ih.2 r hr
        rcases hP.next_max (key c') rfl a ha with h | h
        · exact h ▸ hr'
        · exact IsTrans.trans _ _ _ h hr'
      · rintro a (ha | ha)
        · exact (hP.sound a ha).2
        · exact Past.trans (hbk ▸ (hP.sound b hb).2) (ih.2 a ha)

/-- A position that some row holds at every request, and that the starting cursor has not
passed, is returned. -/
theorem Walk.covers
    (hpage : ∀ t c items next, page t c items next →
      IsPage before pos (rows t) (c.map key) items (next.map key))
    {p : P} (hp : ∀ t, ∃ a ∈ rows t, pos a = p)
    {t : ℕ} {c : Option C} {pages : List (List α)} (h : Walk page t c pages)
    (hc : Past before (c.map key) p) : ∃ a ∈ pages.flatten, pos a = p := by
  induction h with
  | @last t c items hq =>
      obtain ⟨a, ha, rfl⟩ := hp t
      rcases (hpage _ _ _ _ hq).complete a ha hc with h | ⟨q, h, -⟩
      · exact ⟨a, by simpa using h, rfl⟩
      · cases h
  | @more t c items c' pages hq _ ih =>
      obtain ⟨a, ha, rfl⟩ := hp t
      rcases (hpage _ _ _ _ hq).complete a ha hc with h | ⟨q, h, hb⟩
      · exact ⟨a, by simp [h], rfl⟩
      · cases h
        obtain ⟨b, hb, hbp⟩ := ih hb
        exact ⟨b, by simp [hb], hbp⟩

/-- Every row of a walk is one of the rows its pages were taken from. -/
theorem Walk.mem_rows
    (hpage : ∀ t c items next, page t c items next →
      IsPage before pos (rows t) (c.map key) items (next.map key))
    {t : ℕ} {c : Option C} {pages : List (List α)} (h : Walk page t c pages) :
    ∀ a ∈ pages.flatten, ∃ t, a ∈ rows t := by
  induction h with
  | last hp => exact fun a ha => ⟨_, ((hpage _ _ _ _ hp).sound a (by simpa using ha)).1⟩
  | more hp _ ih =>
      intro a ha
      rcases List.mem_append.mp (List.flatten_cons ▸ ha) with ha | ha
      · exact ⟨_, ((hpage _ _ _ _ hp).sound a ha).1⟩
      · exact ih a ha

/-- Over rows that stay the same, a walk returns each row past its starting cursor. -/
theorem Walk.mem_flatten_iff {rows : List α} [IsTrans P before]
    (hpage : ∀ t c items next, page t c items next →
      IsPage before pos rows (c.map key) items (next.map key))
    {t : ℕ} {c : Option C} {pages : List (List α)} (h : Walk page t c pages) (a : α) :
    a ∈ pages.flatten ↔ a ∈ rows ∧ Past before (c.map key) (pos a) := by
  have hpage' : ∀ t c items next, page t c items next →
      IsPage before pos ((fun _ => rows) t) (c.map key) items (next.map key) := hpage
  constructor
  · intro ha
    obtain ⟨_, hr⟩ := Walk.mem_rows hpage' h a ha
    exact ⟨hr, (Walk.pairwise hpage' h).2 a ha⟩
  · rintro ⟨ha, hc⟩
    induction h with
    | last hp =>
        rcases (hpage _ _ _ _ hp).complete a ha hc with h | ⟨q, h, -⟩
        · simpa using h
        · cases h
    | more hp _ ih =>
        rcases (hpage _ _ _ _ hp).complete a ha hc with h | ⟨q, h, hb⟩
        · simp [h]
        · cases h
          exact List.flatten_cons ▸ List.mem_append_right _ (ih hb)

/-- A strictly ordered list is determined by its members. -/
theorem eq_of_pairwise_of_mem_iff [IsStrictOrder P before] {l l' : List α}
    (hl : l.Pairwise fun a b => before (pos a) (pos b))
    (hl' : l'.Pairwise fun a b => before (pos a) (pos b)) (h : ∀ a, a ∈ l ↔ a ∈ l') : l = l' := by
  have irrefl : ∀ p, ¬ before p p := Std.Irrefl.irrefl
  have nodup : ∀ {l : List α}, (l.Pairwise fun a b => before (pos a) (pos b)) → l.Nodup := by
    intro l hl
    refine hl.imp fun {a b} hab he => ?_
    subst he
    exact irrefl _ hab
  refine List.Perm.eq_of_pairwise (fun a b _ _ hab hba => ?_) hl hl'
    ((List.perm_ext_iff_of_nodup (nodup hl) (nodup hl')).mpr h)
  exact absurd (IsTrans.trans _ _ _ hab hba) (irrefl _)

/-- **A finished walk returns exactly the rows, in order.** -/
theorem Walk.flatten_eq [IsStrictOrder P before] {rows sorted : List α}
    (hpage : ∀ t c items next, page t c items next →
      IsPage before pos rows (c.map key) items (next.map key))
    (hs : sorted.Pairwise fun a b => before (pos a) (pos b)) (hmem : ∀ a, a ∈ sorted ↔ a ∈ rows)
    {t : ℕ} {pages : List (List α)} (h : Walk page t none pages) : pages.flatten = sorted := by
  have hpage' : ∀ t c items next, page t c items next →
      IsPage before pos ((fun _ => rows) t) (c.map key) items (next.map key) := hpage
  refine eq_of_pairwise_of_mem_iff (Walk.pairwise hpage' h).1 hs fun a => ?_
  rw [Walk.mem_flatten_iff hpage h, hmem]
  simp [Past]

/-- **Over rows that stay the same a walk ends.** Each page hands on the position of a row past
the cursor it was given, so fewer rows are left past the next one. `good` is whatever the
backend asks of a cursor it answers. -/
theorem exists_walk [IsStrictOrder P before] {rows : List α} (good : C → Prop)
    (hpage : ∀ t c items next, page t c items next →
      IsPage before pos rows (c.map key) items (next.map key))
    (htotal : ∀ t c, (∀ x ∈ c, good x) → ∃ items next, page t c items next ∧ ∀ x ∈ next, good x) :
    ∀ t c, (∀ x ∈ c, good x) → ∃ pages, Walk page t c pages := by
  classical
  have irrefl : ∀ p, ¬ before p p := Std.Irrefl.irrefl
  suffices H : ∀ n t c, (∀ x ∈ c, good x) →
      (rows.filter fun a => Past before (c.map key) (pos a)).length ≤ n →
      ∃ pages, Walk page t c pages from fun t c hc => H _ t c hc le_rfl
  intro n
  induction n with
  | zero =>
      intro t c hc hn
      obtain ⟨items, next, hp, -⟩ := htotal t c hc
      cases next with
      | none => exact ⟨_, .last hp⟩
      | some c' =>
          -- A page that hands on a cursor holds a row past the one it was given.
          have hP := hpage _ _ _ _ hp
          obtain ⟨a, ha, -⟩ := hP.next_mem _ rfl
          have : a ∈ rows.filter fun a => Past before (c.map key) (pos a) := by
            simpa using hP.sound a ha
          rw [List.eq_nil_of_length_eq_zero (Nat.le_zero.mp hn)] at this
          cases this
  | succ n ih =>
      intro t c hc hn
      obtain ⟨items, next, hp, hnext⟩ := htotal t c hc
      cases next with
      | none => exact ⟨_, .last hp⟩
      | some c' =>
          have hP := hpage _ _ _ _ hp
          obtain ⟨a, ha, hak⟩ := hP.next_mem _ rfl
          have hlt : (rows.filter fun b => Past before (some (key c')) (pos b)).length
              < (rows.filter fun b => Past before (c.map key) (pos b)).length := by
            have hsub : (rows.filter fun b => Past before (some (key c')) (pos b))
                = (rows.filter fun b => Past before (c.map key) (pos b)).filter
                    fun b => Past before (some (key c')) (pos b) := by
              rw [List.filter_filter]
              refine List.filter_congr fun b _ => ?_
              have himp : Past before (some (key c')) (pos b) → Past before (c.map key) (pos b) :=
                fun hb => Past.trans (hak ▸ (hP.sound a ha).2) hb
              by_cases hb : Past before (some (key c')) (pos b)
              · simp [hb, himp hb]
              · simp [hb]
            rw [hsub, List.length_filter_lt_length_iff_exists]
            exact ⟨a, by simpa using hP.sound a ha, by simpa [Past, hak] using irrefl (key c')⟩
          obtain ⟨pages, hw⟩ := ih (t + 1) (some c') hnext (by
            simp only [Option.map_some]
            omega)
          exact ⟨_, .more hp hw⟩

/-! ## A backend that answers -/

/-- At the cursors it hands out, which are `good`, a backend answers every request with a page. -/
structure Answers (before : P → P → Prop) (pos : α → P) (key : C → P)
    (page : ℕ → Option C → List α → Option C → Prop) (good : C → Prop) (rows : ℕ → List α) :
    Prop where
  total : ∀ t c, (∀ x ∈ c, good x) → ∃ items next, page t c items next
  isPage : ∀ t c items next, (∀ x ∈ c, good x) → page t c items next →
    IsPage before pos (rows t) (c.map key) items (next.map key)
  good : ∀ t c items next, (∀ x ∈ c, good x) → page t c items next → ∀ x ∈ next, good x

namespace Answers

variable {good : C → Prop} {rows : ℕ → List α} {t : ℕ} {pages : List (List α)}

/-- Every request of a walk that starts without a cursor carries a good one. -/
theorem guarded (h : Answers before pos key page good rows) {c : Option C}
    (hc : ∀ x ∈ c, good x) (hw : Walk page t c pages) :
    Walk (fun t c items next => (∀ x ∈ c, good x) ∧ page t c items next) t c pages := by
  induction hw with
  | last hp => exact .last ⟨hc, hp⟩
  | more hp _ ih => exact .more ⟨hc, hp⟩ (ih (h.good _ _ _ _ hc hp))

theorem guarded_isPage (h : Answers before pos key page good rows) :
    ∀ t c items next, ((∀ x ∈ c, good x) ∧ page t c items next) →
      IsPage before pos (rows t) (c.map key) items (next.map key) :=
  fun _ _ _ _ hp => h.isPage _ _ _ _ hp.1 hp.2

theorem walk_guarded (h : Answers before pos key page good rows) (hw : Walk page t none pages) :
    Walk (fun t c items next => (∀ x ∈ c, good x) ∧ page t c items next) t none pages :=
  h.guarded (fun _ hx => nomatch hx) hw

/-- **Over rows that stay the same, following the cursors ends.** -/
theorem exists_walk [IsStrictOrder P before] {rows : List α}
    (h : Answers before pos key page good fun _ => rows) (t : ℕ) :
    ∃ pages, Walk page t none pages := by
  obtain ⟨pages, hw⟩ := Keyset.exists_walk good h.guarded_isPage (fun t c hc => by
    obtain ⟨items, next, hp⟩ := h.total t c hc
    exact ⟨items, next, ⟨hc, hp⟩, h.good _ _ _ _ hc hp⟩) t none (fun _ hx => nomatch hx)
  exact ⟨pages, hw.mono fun hp => hp.2⟩

/-- **Over rows that stay the same, a finished walk returns exactly the rows, in order.** -/
theorem flatten_eq [IsStrictOrder P before] {rows sorted : List α}
    (h : Answers before pos key page good fun _ => rows)
    (hs : sorted.Pairwise fun a b => before (pos a) (pos b)) (hmem : ∀ a, a ∈ sorted ↔ a ∈ rows)
    (hw : Walk page t none pages) : pages.flatten = sorted :=
  Walk.flatten_eq h.guarded_isPage hs hmem (h.walk_guarded hw)

/-- **A position that is occupied at every request is returned exactly once**, whatever happens to
the other rows between requests. -/
theorem countP_eq_one [IsStrictOrder P before] [DecidableEq P]
    (h : Answers before pos key page good rows) {p : P} (hp : ∀ t, ∃ a ∈ rows t, pos a = p)
    (hw : Walk page t none pages) : pages.flatten.countP (fun a => pos a = p) = 1 := by
  have hpair := (Walk.pairwise h.guarded_isPage (h.walk_guarded hw)).1
  obtain ⟨a, ha, hap⟩ := Walk.covers h.guarded_isPage hp (h.walk_guarded hw) trivial
  have hle : pages.flatten.countP (fun a => pos a = p) ≤ 1 := by
    rw [List.countP_eq_length_filter]
    match hf : pages.flatten.filter fun a => pos a = p with
    | [] => simp
    | [_] => simp
    | b :: b' :: l =>
        -- Two rows at one position cannot both be in a strictly ordered list.
        have hsub := hpair.sublist (List.filter_sublist (p := fun a => decide (pos a = p)))
        rw [hf] at hsub
        have hb : b ∈ pages.flatten.filter fun a => pos a = p := hf ▸ List.mem_cons_self
        have hb' : b' ∈ pages.flatten.filter fun a => pos a = p := by simp [hf]
        have hlt := (List.pairwise_cons.mp hsub).1 b' List.mem_cons_self
        have hb := (List.mem_filter.mp hb).2
        have hb' := (List.mem_filter.mp hb').2
        simp only [decide_eq_true_eq] at hb hb'
        rw [hb, hb'] at hlt
        exact absurd hlt (Std.Irrefl.irrefl p)
  have hpos : 0 < pages.flatten.countP fun a => pos a = p :=
    List.countP_pos_iff.mpr ⟨a, ha, by simpa using hap⟩
  omega

/-- Every row a walk returns was in the table at some request. -/
theorem mem_rows (h : Answers before pos key page good rows) (hw : Walk page t none pages) :
    ∀ a ∈ pages.flatten, ∃ t, a ∈ rows t :=
  Walk.mem_rows h.guarded_isPage (h.walk_guarded hw)

end Answers

end Walk

section Page

variable {before pos}

/-- Rows at distinct positions are strictly ordered by a sort that compares positions. -/
theorem pairwise_insertionSort [IsStrictOrder P before]
    (htri : ∀ p q, before p q ∨ p = q ∨ before q p) {le : α → α → Prop} [DecidableRel le]
    (hle : ∀ a b, le a b ↔ before (pos a) (pos b) ∨ pos a = pos b) {rows : List α}
    (hnodup : (rows.map pos).Nodup) :
    (rows.insertionSort le).Pairwise fun a b => before (pos a) (pos b) := by
  have : Std.Total le := ⟨fun a b => by
    rw [hle, hle]
    rcases htri (pos a) (pos b) with h | h | h
    · exact .inl (.inl h)
    · exact .inl (.inr h)
    · exact .inr (.inl h)⟩
  have : IsTrans α le := ⟨fun a b c hab hbc => by
    rw [hle] at hab hbc ⊢
    rcases hab with hab | hab
    · rcases hbc with hbc | hbc
      · exact .inl (IsTrans.trans _ _ _ hab hbc)
      · exact .inl (hbc ▸ hab)
    · exact hab ▸ hbc⟩
  have hne : (rows.insertionSort le).Pairwise fun a b => pos a ≠ pos b :=
    List.pairwise_map.mp (((List.perm_insertionSort le rows).map pos).nodup_iff.mpr hnodup)
  refine ((List.pairwise_insertionSort le rows).and hne).imp fun {a b} h => ?_
  exact ((hle a b).mp h.1).resolve_right h.2

/-- The first `limit` rows of the ordered list of rows past the cursor are a page, handing on
the position of their last row when rows are left. -/
theorem isPage_take {rows l : List α} {cursor : Option P} {limit : ℕ}
    (hl : l.Pairwise fun a b => before (pos a) (pos b))
    (hmem : ∀ a, a ∈ l ↔ a ∈ rows ∧ Past before cursor (pos a)) (hlim : 1 ≤ limit) :
    IsPage before pos rows cursor (l.take limit)
      (if limit < l.length then (l.take limit).getLast?.map pos else none) where
  sound a ha := (hmem a).mp (List.mem_of_mem_take ha)
  pairwise := hl.sublist (List.take_sublist _ _)
  complete a ha hc := by
    have hal : a ∈ l.take limit ++ l.drop limit := by
      rw [List.take_append_drop]
      exact (hmem a).mpr ⟨ha, hc⟩
    rcases List.mem_append.mp hal with h | h
    · exact .inl h
    · have hlt : limit < l.length := by
        have := List.length_pos_of_mem h
        rw [List.length_drop] at this
        omega
      have hne : l.take limit ≠ [] := by
        rw [Ne, List.take_eq_nil_iff]
        rintro (h0 | rfl)
        · omega
        · cases hlt
      refine .inr ⟨pos ((l.take limit).getLast hne), ?_, ?_⟩
      · rw [if_pos hlt, List.getLast?_eq_getLast_of_ne_nil hne, Option.map_some]
      · have := (List.pairwise_append.mp ((List.take_append_drop limit l).symm ▸ hl)).2.2
        exact this _ (List.getLast_mem hne) _ h
  next_mem p hp := by
    split at hp
    · obtain ⟨a, ha, rfl⟩ := Option.map_eq_some_iff.mp hp
      exact ⟨a, List.mem_of_getLast? ha, rfl⟩
    · cases hp
  next_max p hp a ha := by
    split at hp
    · obtain ⟨b, hb, rfl⟩ := Option.map_eq_some_iff.mp hp
      obtain ⟨ys, hys⟩ := List.getLast?_eq_some_iff.mp hb
      have hsub := hl.sublist (List.take_sublist limit l)
      rw [hys] at ha hsub
      rcases List.mem_append.mp ha with h | h
      · exact .inr ((List.pairwise_append.mp hsub).2.2 a h b (by simp))
      · exact .inl (by rw [List.mem_singleton.mp h])
    · cases hp

/-- A page that hands on the cursor of its last row is a page, and hands on a good cursor, when the
cursor of a row is good and names the row's position. -/
theorem isPage_take_cursor {key : C → P} {good : C → Prop} {cursorOf : α → C} {rows l : List α}
    {cursor : Option P} {limit : ℕ} (hl : l.Pairwise fun a b => before (pos a) (pos b))
    (hmem : ∀ a, a ∈ l ↔ a ∈ rows ∧ Past before cursor (pos a)) (hlim : 1 ≤ limit)
    (hcursor : ∀ a ∈ l, good (cursorOf a) ∧ key (cursorOf a) = pos a) :
    IsPage before pos rows cursor (l.take limit)
      ((if limit < l.length then (l.take limit).getLast?.map cursorOf else none).map key) ∧
      ∀ x ∈ if limit < l.length then (l.take limit).getLast?.map cursorOf else none, good x := by
  have hlast : ∀ a ∈ (l.take limit).getLast?, a ∈ l := fun a ha =>
    List.mem_of_mem_take (List.mem_of_getLast? ha)
  split
  · next hlt =>
      have hpage := isPage_take hl hmem hlim
      rw [if_pos hlt] at hpage
      refine ⟨?_, fun x hx => ?_⟩
      · rw [Option.map_map]
        refine (Option.map_congr fun a ha => ?_) ▸ hpage
        exact (hcursor a (hlast a ha)).2.symm
      · obtain ⟨a, ha, rfl⟩ := Option.map_eq_some_iff.mp hx
        exact (hcursor a (hlast a ha)).1
  · next hle =>
      have hpage := isPage_take hl hmem hlim
      rw [if_neg hle] at hpage
      exact ⟨hpage, fun x hx => nomatch hx⟩

end Page

end Keyset
