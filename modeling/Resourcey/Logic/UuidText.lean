import Mathlib.Algebra.Order.Ring.Nat
import Mathlib.Data.List.Lex
import Mathlib.Data.Nat.Basic
import Mathlib.Data.String.Basic
import Mathlib.Tactic.NormNum

/-!
# The text of a UUID

A UUID is a number of 128 bits. Its text is the 32 hexadecimal digits in five groups, and it is read
back from that text or from the digits alone, in either case.
-/

/-- A UUID. -/
abbrev Uuid := Fin (2 ^ 128)

namespace Uuid

instance : NeZero (2 ^ 128) := ⟨by decide⟩

/-- The last hexadecimal digits of a number. -/
def hexDigits : ℕ → ℕ → List Char
  | 0, _ => []
  | k + 1, n => hexDigits k (n / 16) ++ [Nat.digitChar (n % 16)]

/-- Five groups of digits, of 8, 4, 4, 4 and all others. -/
def hyphenate (digits : List Char) : List Char :=
  digits.take 8 ++ '-' :: (digits.drop 8).take 4 ++ '-' :: (digits.drop 12).take 4 ++
    '-' :: (digits.drop 16).take 4 ++ '-' :: digits.drop 20

/-- `str(uuid)`. -/
def text (u : Uuid) : String := String.ofList (hyphenate (hexDigits 32 u))

/-- The value of a hexadecimal digit. -/
def hexValue? (c : Char) : Option ℕ :=
  if c.isDigit then some (c.toNat - 48)
  else if 'a' ≤ c ∧ c ≤ 'f' then some (c.toNat - 87)
  else if 'A' ≤ c ∧ c ≤ 'F' then some (c.toNat - 55)
  else none

/-- The number of hexadecimal digits, the first being the highest. -/
def ofHex (values : List ℕ) : ℕ := values.foldl (fun n d => 16 * n + d) 0

/-- The UUID of a text. -/
def ofText (s : String) : Option Uuid :=
  let digits := s.toList.filter (· ≠ '-')
  if digits.length = 32 ∧ (s.toList = digits ∨ s.toList = hyphenate digits) then
    (digits.mapM hexValue?).map fun values => Fin.ofNat (2 ^ 128) (ofHex values)
  else none

theorem hexValue_digitChar : ∀ d < 16, hexValue? (Nat.digitChar d) = some d := by decide

theorem digitChar_ne_hyphen : ∀ d < 16, Nat.digitChar d ≠ '-' := by decide

theorem length_hexDigits (k n : ℕ) : (hexDigits k n).length = k := by
  induction k generalizing n with
  | zero => rfl
  | succ k ih => simp [hexDigits, ih]

theorem ne_hyphen_of_mem {k n : ℕ} {c : Char} (h : c ∈ hexDigits k n) : c ≠ '-' := by
  induction k generalizing n with
  | zero => cases h
  | succ k ih =>
      rcases List.mem_append.mp h with h | h
      · exact ih h
      · rw [List.mem_singleton.mp h]
        exact digitChar_ne_hyphen _ (Nat.mod_lt _ (by omega))

/-- The digits can be read back. -/
theorem mapM_hexDigits (k n : ℕ) :
    ∃ values, (hexDigits k n).mapM hexValue? = some values ∧ ofHex values = n % 16 ^ k := by
  induction k generalizing n with
  | zero => exact ⟨[], rfl, (Nat.mod_one n).symm⟩
  | succ k ih =>
      obtain ⟨values, hvalues, hofHex⟩ := ih (n / 16)
      refine ⟨values ++ [n % 16], ?_, ?_⟩
      · have hdigit := hexValue_digitChar (n % 16) (Nat.mod_lt _ (by omega))
        simp [hexDigits, hvalues, hdigit]
      · have hlast : ofHex (values ++ [n % 16]) = 16 * ofHex values + n % 16 := by
          simp [ofHex, List.foldl_append]
        rw [hlast, hofHex, pow_succ', Nat.mod_mul, Nat.add_comm]

/-- The groups without the hyphens are the digits. -/
theorem filter_hyphenate {digits : List Char} (h : ∀ c ∈ digits, c ≠ '-') :
    (hyphenate digits).filter (· ≠ '-') = digits := by
  have hkeep : ∀ ds : List Char, (∀ c ∈ ds, c ∈ digits) → ds.filter (· ≠ '-') = ds :=
    fun ds hds => List.filter_eq_self.mpr fun c hc => decide_eq_true (h c (hds c hc))
  have htake : ∀ k l, ((digits.drop k).take l).filter (· ≠ '-') = (digits.drop k).take l :=
    fun k l => hkeep _ fun c hc => List.mem_of_mem_drop (List.mem_of_mem_take hc)
  have hfirst := hkeep (digits.take 8) fun c hc => List.mem_of_mem_take hc
  have hlast := hkeep (digits.drop 20) fun c hc => List.mem_of_mem_drop hc
  have hgroup : ∀ k, (digits.drop k).take 4 ++ digits.drop (k + 4) = digits.drop k := fun k => by
    rw [← List.drop_drop, List.take_append_drop]
  have hhyphen : ∀ ds : List Char, ('-' :: ds).filter (· ≠ '-') = ds.filter (· ≠ '-') :=
    fun ds => List.filter_cons_of_neg (by simp)
  simp only [hyphenate, List.append_assoc, List.cons_append, List.filter_append, hhyphen, htake,
    hfirst, hlast]
  rw [hgroup 16, hgroup 12, hgroup 8, List.take_append_drop]

/-- **A UUID can be read back from its text.** -/
theorem ofText_text (u : Uuid) : ofText u.text = some u := by
  have hdigits : u.text.toList.filter (· ≠ '-') = hexDigits 32 u := by
    rw [text, String.toList_ofList]
    exact filter_hyphenate fun c hc => ne_hyphen_of_mem hc
  obtain ⟨values, hvalues, hofHex⟩ := mapM_hexDigits 32 u
  have hbound : (u : ℕ) % 16 ^ 32 = u := Nat.mod_eq_of_lt (lt_of_lt_of_eq u.isLt (by norm_num))
  have hnumber : Fin.ofNat (2 ^ 128) (ofHex values) = u := by
    rw [hofHex, hbound]
    exact Fin.ofNat_val_eq_self u
  simp only [ofText, hdigits, length_hexDigits, hvalues, Option.map_some, hnumber]
  exact if_pos ⟨trivial, .inr (by rw [text, String.toList_ofList])⟩

/-! ## The order of texts -/

/-- The two texts agree up to a first character, which is smaller in the first text. -/
def FirstDiff (l l' : List Char) : Prop :=
  ∃ p a b s s', l = p ++ a :: s ∧ l' = p ++ b :: s' ∧ a < b

namespace FirstDiff

variable {l l' : List Char}

theorem lt (h : FirstDiff l l') : l < l' := by
  obtain ⟨p, a, b, s, s', rfl, rfl, hab⟩ := h
  exact List.Lex.append_left _ (.rel hab) p

theorem append (h : FirstDiff l l') (x y : List Char) : FirstDiff (l ++ x) (l' ++ y) := by
  obtain ⟨p, a, b, s, s', rfl, rfl, hab⟩ := h
  exact ⟨p, a, b, s ++ x, s' ++ y, by simp, by simp, hab⟩

theorem append_left (h : FirstDiff l l') (x : List Char) : FirstDiff (x ++ l) (x ++ l') := by
  obtain ⟨p, a, b, s, s', rfl, rfl, hab⟩ := h
  exact ⟨x ++ p, a, b, s, s', by simp, by simp, hab⟩

/-- The first difference is in the first `k` characters or past them. -/
theorem split (h : FirstDiff l l') (k : ℕ) : FirstDiff (l.take k) (l'.take k) ∨
    l.take k = l'.take k ∧ FirstDiff (l.drop k) (l'.drop k) := by
  obtain ⟨p, a, b, s, s', rfl, rfl, hab⟩ := h
  rcases Nat.lt_or_ge p.length k with hk | hk
  · obtain ⟨j, rfl⟩ := Nat.exists_eq_add_of_lt hk
    refine .inl ⟨p, a, b, s.take j, s'.take j, ?_, ?_, hab⟩
    · rw [Nat.add_assoc, List.take_length_add_append, List.take_succ_cons]
    · rw [Nat.add_assoc, List.take_length_add_append, List.take_succ_cons]
  · refine .inr ⟨?_, p.drop k, a, b, s, s', ?_, ?_, hab⟩
    · rw [List.take_append_of_le_length hk, List.take_append_of_le_length hk]
    · rw [List.drop_append_of_le_length hk]
    · rw [List.drop_append_of_le_length hk]

end FirstDiff

end Uuid
