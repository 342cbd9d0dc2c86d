import Mathlib.Data.List.DropRight
import Mathlib.Data.Int.Notation
import Mathlib.Tactic.Common

/-!
# Text as Python reads it

Blanks, words and numbers in a text, which is the list of its characters.
-/

namespace PyText

/-- `c.isspace()`. -/
def isSpace (c : Char) : Bool :=
  let n := c.toNat
  (9 ≤ n && n ≤ 13) || (28 ≤ n && n ≤ 32) || n = 0x85 || n = 0xA0 || n = 0x1680 ||
    (0x2000 ≤ n && n ≤ 0x200A) || n = 0x2028 || n = 0x2029 || n = 0x202F || n = 0x205F || n = 0x3000

/-- `text.strip()`. -/
def strip (cs : List Char) : List Char := (cs.dropWhile isSpace).rdropWhile isSpace

/-- `text.split()`. -/
def words (cs : List Char) : List (List Char) := (cs.splitOnP isSpace).filter (· ≠ [])

/-- `text.lower()`, as far as what it gives is ASCII: besides the letters only the sign of the kelvin
lowers to one. -/
def lower (cs : List Char) : List Char :=
  cs.map fun c => if c = '\u212A' then 'k' else c.toLower

/-- The zeros of the decimal digits of Unicode, which are in rows of ten. -/
def decimalZeros : List ℕ :=
  [0x30, 0x660, 0x6F0, 0x7C0, 0x966, 0x9E6, 0xA66, 0xAE6, 0xB66, 0xBE6, 0xC66, 0xCE6, 0xD66, 0xDE6,
    0xE50, 0xED0, 0xF20, 0x1040, 0x1090, 0x17E0, 0x1810, 0x1946, 0x19D0, 0x1A80, 0x1A90, 0x1B50,
    0x1BB0, 0x1C40, 0x1C50, 0xA620, 0xA8D0, 0xA900, 0xA9D0, 0xA9F0, 0xAA50, 0xABF0, 0xFF10, 0x104A0,
    0x10D30, 0x11066, 0x110F0, 0x11136, 0x111D0, 0x112F0, 0x11450, 0x114D0, 0x11650, 0x116C0,
    0x11730, 0x118E0, 0x11950, 0x11C50, 0x11D50, 0x11DA0, 0x11F50, 0x16A60, 0x16AC0, 0x16B50,
    0x1D7CE, 0x1D7D8, 0x1D7E2, 0x1D7EC, 0x1D7F6, 0x1E140, 0x1E2F0, 0x1E4F0, 0x1E950, 0x1FBF0]

/-- The value of a decimal digit. -/
def digit? (c : Char) : Option ℕ :=
  (decimalZeros.find? fun z => z ≤ c.toNat && c.toNat < z + 10).map (c.toNat - ·)

/-- The number of one digit or more. -/
def digits? (cs : List Char) : Option ℕ :=
  if cs = [] then none else (cs.mapM digit?).map (·.foldl (fun n d => 10 * n + d) 0)

/-- The number of digits that may be grouped by underscores. -/
def grouped? (cs : List Char) : Option ℕ :=
  if (cs.splitOn '_').all (· ≠ []) then digits? (cs.splitOn '_').flatten else none

/-- `int(text)` of a text without blanks. -/
def int? : List Char → Option ℤ
  | '-' :: cs => (grouped? cs).map fun n => -n
  | '+' :: cs => (grouped? cs).map Int.ofNat
  | cs => (grouped? cs).map Int.ofNat

/-! ## Words -/

variable {cs : List Char}

theorem words_append_space {c : Char} (hc : isSpace c = true) (cs ds : List Char) :
    words (cs ++ c :: ds) = words cs ++ words ds := by
  rw [words, List.splitOnP_append_cons cs ds hc, List.filter_append]
  rfl

/-- The text of decimal digits. -/
def decimal (ds : List (Fin 10)) : List Char := ds.map fun d : Fin 10 => Nat.digitChar d.val

/-- The number of decimal digits. -/
def decimalValue (ds : List (Fin 10)) : ℕ := ds.foldl (fun (n : ℕ) (d : Fin 10) => 10 * n + d.val) 0

/-- What is so of the ten digits is so of every character of a decimal text. -/
theorem forall_mem_decimal {P : Char → Prop} (h : ∀ d : Fin 10, P (Nat.digitChar d))
    (ds : List (Fin 10)) : ∀ c ∈ decimal ds, P c := by
  intro c hc
  obtain ⟨d, -, rfl⟩ := List.mem_map.mp hc
  exact h d

end PyText
