import Mathlib.Data.List.Infix
import Mathlib.Data.List.Basic

/-!
# Wildcard patterns with an escape character

`Like.parse` reads a pattern into tokens and `Like.accepts` matches a text against them. The
two facts a caller needs are about escaped needles: replacing the escape character first and then
the two wildcards escapes each special character once (`replace_in_turn`), and an escaped needle
between two run wildcards is accepted exactly by the texts that contain it (`accepts_contains`).
-/

namespace Like

variable {α : Type*} [DecidableEq α]

/-- What one position of a pattern asks for: a character, any one character, or any run. -/
inductive Token (α : Type*) where
  | lit (c : α)
  | one
  | many
  deriving DecidableEq

/-- The three characters a pattern language reserves: the run wildcard, the one-character
wildcard and the escape character. -/
structure Syntax (α : Type*) where
  many : α
  one : α
  escape : α
  many_ne_one : many ≠ one
  many_ne_escape : many ≠ escape
  one_ne_escape : one ≠ escape

/-- The characters that do not stand for themselves in a pattern. -/
def Syntax.special (σ : Syntax α) (c : α) : Bool := c = σ.many || c = σ.one || c = σ.escape

/-- The tokens of a pattern. An escape character gives the next character literally; one at
the very end stands for itself. -/
def parse (σ : Syntax α) : List α → List (Token α)
  | [] => []
  | [c] => if c = σ.many then [.many] else if c = σ.one then [.one] else [.lit c]
  | c :: d :: cs =>
    if c = σ.escape then .lit d :: parse σ cs
    else (if c = σ.many then .many else if c = σ.one then .one else .lit c) :: parse σ (d :: cs)

/-- Whether a text matches a token list: a run token drops any number of characters. -/
def accepts : List (Token α) → List α → Bool
  | [], s => s.isEmpty
  | .lit _ :: _, [] => false
  | .lit c :: ts, d :: s => c = d && accepts ts s
  | .one :: _, [] => false
  | .one :: ts, _ :: s => accepts ts s
  | .many :: ts, s => s.tails.any (accepts ts)

/-- The needle with an escape character before each special character. -/
def escape (σ : Syntax α) (s : List α) : List α :=
  s.flatMap fun c => if σ.special c then [σ.escape, c] else [c]

/-- The text with every occurrence of a character replaced. -/
def replace (c : α) (new s : List α) : List α := s.flatMap fun d => if d = c then new else [d]

theorem Syntax.special_eq_false {σ : Syntax α} {c : α} :
    σ.special c = false ↔ c ≠ σ.many ∧ c ≠ σ.one ∧ c ≠ σ.escape := by
  simp [Syntax.special, and_assoc]

/-- **Replacing the special characters one after the other**, the escape character first, escapes
each of them once: what a replacement puts in is replaced by none of the later ones. -/
theorem replace_in_turn (σ : Syntax α) (s : List α) :
    replace σ.one [σ.escape, σ.one] (replace σ.many [σ.escape, σ.many]
      (replace σ.escape [σ.escape, σ.escape] s)) = escape σ s := by
  have hescapeMany := σ.many_ne_escape.symm
  have hescapeOne := σ.one_ne_escape.symm
  induction s with
  | nil => rfl
  | cons c s ih =>
      simp only [replace, escape, List.flatMap_cons, List.flatMap_append] at ih ⊢
      rw [ih]
      congr 1
      by_cases hmany : c = σ.many
      · subst hmany
        simp [Syntax.special, σ.many_ne_one, σ.many_ne_escape, hescapeOne]
      by_cases hone : c = σ.one
      · subst hone
        simp [Syntax.special, σ.many_ne_one.symm, σ.one_ne_escape]
      by_cases hesc : c = σ.escape
      · subst hesc
        simp [Syntax.special, hescapeMany, hescapeOne]
      · have hplain : σ.special c = false := Syntax.special_eq_false.mpr ⟨hmany, hone, hesc⟩
        simp [hplain, hmany, hone, hesc]

/-- A plain character in front of a pattern is its own token. -/
theorem parse_cons_plain (σ : Syntax α) {c : α} (hc : σ.special c = false) (cs : List α) :
    parse σ (c :: cs) = .lit c :: parse σ cs := by
  have hc' := Syntax.special_eq_false.mp hc
  cases cs with
  | nil => simp [parse, hc'.1, hc'.2.1]
  | cons d cs => simp [parse, hc'.1, hc'.2.1, hc'.2.2]

/-- The run wildcard in front of a pattern is the run token. -/
theorem parse_cons_many (σ : Syntax α) (cs : List α) :
    parse σ (σ.many :: cs) = .many :: parse σ cs := by
  cases cs with
  | nil => simp [parse]
  | cons d cs => simp [parse, σ.many_ne_escape]

/-- An escaped needle parses to its own characters, whatever follows it. -/
theorem parse_escape_append (σ : Syntax α) (s cs : List α) :
    parse σ (escape σ s ++ cs) = s.map .lit ++ parse σ cs := by
  induction s with
  | nil => rfl
  | cons c s ih =>
      simp only [escape, List.flatMap_cons, List.append_assoc] at ih ⊢
      cases hc : σ.special c with
      | true => simp [parse, ih]
      | false => simp [parse_cons_plain σ hc, ih]

/-- A trailing run token accepts every text. -/
theorem accepts_many (s : List α) : accepts [.many] s = true := by
  simp only [accepts, List.any_eq_true, List.mem_tails]
  exact ⟨[], s.nil_suffix, rfl⟩

/-- Literals before a trailing run token accept the texts they are a prefix of. -/
theorem accepts_prefix (needle s : List α) :
    accepts (needle.map .lit ++ [.many]) s = true ↔ needle <+: s := by
  induction needle generalizing s with
  | nil => simp [accepts_many]
  | cons c needle ih =>
      cases s with
      | nil => simp [accepts]
      | cons d s => simp [accepts, ih, List.cons_prefix_cons]

/-- Literals between two run tokens accept the texts that contain them. -/
theorem accepts_between (needle s : List α) :
    accepts (.many :: (needle.map .lit ++ [.many])) s = true ↔ needle <:+: s := by
  simp only [accepts, List.any_eq_true, List.mem_tails, accepts_prefix]
  constructor
  · rintro ⟨t, ht, hn⟩
    exact hn.isInfix.trans ht.isInfix
  · rintro ⟨l, r, rfl⟩
    exact ⟨needle ++ r, ⟨l, by simp⟩, List.prefix_append _ _⟩

/-- **An escaped needle between two run wildcards** accepts the texts that contain it. -/
theorem accepts_contains (σ : Syntax α) (needle s : List α) :
    accepts (parse σ (σ.many :: (escape σ needle ++ [σ.many]))) s = true ↔ needle <:+: s := by
  rw [parse_cons_many, parse_escape_append, parse_cons_many, parse, accepts_between]

end Like
