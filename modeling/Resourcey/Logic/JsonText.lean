import Mathlib.Data.List.Sort
import Mathlib.Data.String.Basic
import Mathlib.Tactic.Common

/-!
# The text of a JSON value

Compact JSON text in ASCII: no blanks, everything else than a printable ASCII character escaped. The
text of a value followed by anything that does not go on as a number determines the value
(`text_append_inj`), so texts can be told apart in a row of them and not only alone. Two objects
with the same members in another order are one value and two trees; `sortKeys` picks one of them.
-/

/-- A JSON value. Only whole numbers are numbers here. -/
inductive JsonTree where
  | null
  | bool (b : Bool)
  | int (n : ℤ)
  | str (s : String)
  | arr (items : List JsonTree)
  | obj (members : List (String × JsonTree))

namespace JsonTree

/-! ## Characters -/

/-- Four hexadecimal digits. -/
def hex4 (n : ℕ) : List Char :=
  [Nat.digitChar (n / 4096 % 16), Nat.digitChar (n / 256 % 16), Nat.digitChar (n / 16 % 16),
    Nat.digitChar (n % 16)]

/-- A character of a string. One beyond the basic plane is a pair of surrogates. -/
def escapeChar (c : Char) : List Char :=
  if c = '"' then ['\\', '"']
  else if c = '\\' then ['\\', '\\']
  else if c = '\n' then ['\\', 'n']
  else if c = '\r' then ['\\', 'r']
  else if c = '\t' then ['\\', 't']
  else if c = '\x08' then ['\\', 'b']
  else if c = '\x0c' then ['\\', 'f']
  else if 32 ≤ c.toNat ∧ c.toNat < 127 then [c]
  else if c.toNat < 65536 then '\\' :: 'u' :: hex4 c.toNat
  else '\\' :: 'u' :: hex4 (55296 + (c.toNat - 65536) / 1024) ++
    '\\' :: 'u' :: hex4 (56320 + (c.toNat - 65536) % 1024)

/-- The value of a hexadecimal digit. -/
def hexValue (c : Char) : ℕ :=
  if c.toNat < 58 then c.toNat - 48 else c.toNat - 87

/-- The number of four hexadecimal digits. -/
def unhex4 (a b c d : Char) : ℕ :=
  hexValue a * 4096 + hexValue b * 256 + hexValue c * 16 + hexValue d

/-- The first character of what was escaped, and the rest. -/
def unescape : List Char → Option (Char × List Char)
  | '\\' :: 'u' :: a :: b :: c :: d :: rest =>
    let high := unhex4 a b c d
    if 55296 ≤ high ∧ high < 56320 then
      match rest with
      | '\\' :: 'u' :: a :: b :: c :: d :: rest =>
        some (Char.ofNat (65536 + (high - 55296) * 1024 + (unhex4 a b c d - 56320)), rest)
      | _ => none
    else some (Char.ofNat high, rest)
  | '\\' :: 'n' :: rest => some ('\n', rest)
  | '\\' :: 'r' :: rest => some ('\r', rest)
  | '\\' :: 't' :: rest => some ('\t', rest)
  | '\\' :: 'b' :: rest => some ('\x08', rest)
  | '\\' :: 'f' :: rest => some ('\x0c', rest)
  | '\\' :: c :: rest => some (c, rest)
  | c :: rest => some (c, rest)
  | [] => none

theorem hexValue_digitChar : ∀ d < 16, hexValue (Nat.digitChar d) = d := by decide

theorem unhex4_hex4 {n : ℕ} (h : n < 65536) :
    unhex4 (Nat.digitChar (n / 4096 % 16)) (Nat.digitChar (n / 256 % 16))
      (Nat.digitChar (n / 16 % 16)) (Nat.digitChar (n % 16)) = n := by
  have hdigit : ∀ m, hexValue (Nat.digitChar (m % 16)) = m % 16 :=
    fun m => hexValue_digitChar _ (Nat.mod_lt _ (by decide))
  simp only [unhex4, hdigit]
  omega

/-- A character is no surrogate. -/
theorem not_surrogate (c : Char) : ¬ (55296 ≤ c.toNat ∧ c.toNat < 57344) := by
  have := c.valid
  simp only [UInt32.isValidChar, Nat.isValidChar] at this
  show ¬ (55296 ≤ c.val.toNat ∧ c.val.toNat < 57344)
  omega

theorem toNat_lt (c : Char) : c.toNat < 1114112 := by
  have := c.valid
  simp only [UInt32.isValidChar, Nat.isValidChar] at this
  show c.val.toNat < 1114112
  omega

theorem unescape_hex4 {n : ℕ} (h : n < 65536) (hplain : ¬ (55296 ≤ n ∧ n < 56320))
    (rest : List Char) :
    unescape ('\\' :: 'u' :: hex4 n ++ rest) = some (Char.ofNat n, rest) := by
  simp only [hex4, List.cons_append, List.nil_append, unescape, unhex4_hex4 h, if_neg hplain]

theorem unescape_pair {n : ℕ} (hlow : 65536 ≤ n) (hhigh : n < 1114112) (rest : List Char) :
    unescape ('\\' :: 'u' :: hex4 (55296 + (n - 65536) / 1024) ++
      '\\' :: 'u' :: hex4 (56320 + (n - 65536) % 1024) ++ rest) = some (Char.ofNat n, rest) := by
  have hfirst : 55296 + (n - 65536) / 1024 < 65536 := by omega
  have hsecond : 56320 + (n - 65536) % 1024 < 65536 := by omega
  have hsurrogate : 55296 ≤ 55296 + (n - 65536) / 1024 ∧ 55296 + (n - 65536) / 1024 < 56320 := by
    omega
  have hsum : 65536 + (55296 + (n - 65536) / 1024 - 55296) * 1024 +
      (56320 + (n - 65536) % 1024 - 56320) = n := by omega
  simp only [hex4, List.cons_append, List.nil_append, unescape, unhex4_hex4 hfirst,
    unhex4_hex4 hsecond, if_pos hsurrogate, hsum]

/-- A printable character other than the backslash stands for itself. -/
theorem unescape_plain {c : Char} (h : c ≠ '\\') (rest : List Char) :
    unescape (c :: rest) = some (c, rest) := by
  unfold unescape
  split
  all_goals simp_all

/-- **An escaped character can be read back.** -/
theorem unescape_escapeChar (c : Char) (rest : List Char) :
    unescape (escapeChar c ++ rest) = some (c, rest) := by
  have hc := not_surrogate c
  unfold escapeChar
  split
  · next h => rw [h]; rfl
  split
  · next h => rw [h]; rfl
  split
  · next h => rw [h]; rfl
  split
  · next h => rw [h]; rfl
  split
  · next h => rw [h]; rfl
  split
  · next h => rw [h]; rfl
  split
  · next h => rw [h]; rfl
  split
  · next hne _ _ _ _ _ _ => exact unescape_plain hne rest
  split
  · next hbasic =>
      rw [unescape_hex4 hbasic (by omega), Char.ofNat_toNat]
  · next hbeyond =>
      rw [unescape_pair (not_lt.mp hbeyond) (toNat_lt c), Char.ofNat_toNat]

/-- No escaped character starts like the end of a string. -/
theorem escapeChar_ne_quote (c : Char) (rest : List Char) :
    ∀ rest', escapeChar c ++ rest ≠ '"' :: rest' := by
  intro rest' heq
  have hread := unescape_escapeChar c rest
  rw [heq, unescape_plain (by decide)] at hread
  simp only [Option.some.injEq, Prod.mk.injEq] at hread
  obtain ⟨rfl, rfl⟩ := hread
  simp [escapeChar] at heq

/-! ## Strings and numbers -/

/-- The escaped characters of a string, and the quote that ends it. -/
def closeString : List Char → List Char
  | [] => ['"']
  | c :: cs => escapeChar c ++ closeString cs

theorem closeString_append_inj : ∀ {cs ds rest rest' : List Char},
    closeString cs ++ rest = closeString ds ++ rest' → cs = ds ∧ rest = rest'
  | [], [], _, _, h => ⟨rfl, List.cons.inj h |>.2⟩
  | [], d :: ds, rest, rest', h => by
    rw [closeString, closeString, List.append_assoc] at h
    exact absurd h.symm (escapeChar_ne_quote d _ _)
  | c :: cs, [], rest, rest', h => by
    rw [closeString, closeString, List.append_assoc] at h
    exact absurd h (escapeChar_ne_quote c _ _)
  | c :: cs, d :: ds, rest, rest', h => by
    rw [closeString, closeString, List.append_assoc, List.append_assoc] at h
    have hread := congrArg unescape h
    simp only [unescape_escapeChar, Option.some.injEq, Prod.mk.injEq] at hread
    obtain ⟨rfl, hread⟩ := hread
    obtain ⟨rfl, hrest⟩ := closeString_append_inj hread
    exact ⟨rfl, hrest⟩

/-- A string. -/
def stringText (s : String) : List Char := '"' :: closeString s.toList

theorem stringText_append_inj {s s' : String} {rest rest' : List Char}
    (h : stringText s ++ rest = stringText s' ++ rest') : s = s' ∧ rest = rest' := by
  obtain ⟨hs, hrest⟩ := closeString_append_inj (List.cons.inj h).2
  exact ⟨String.toList_inj.mp hs, hrest⟩

/-- What may follow a number: nothing that goes on with it. -/
def Boundary (rest : List Char) : Prop := ∀ c ∈ rest.head?, c.isDigit = false

/-- A whole number. -/
def intText : ℤ → List Char
  | .ofNat n => Nat.toDigits 10 n
  | .negSucc n => '-' :: Nat.toDigits 10 (n + 1)

theorem takeWhile_digits {n : ℕ} {rest : List Char} (h : Boundary rest) :
    (Nat.toDigits 10 n ++ rest).takeWhile Char.isDigit = Nat.toDigits 10 n := by
  have hdigits : ∀ c ∈ Nat.toDigits 10 n, c.isDigit = true :=
    fun c hc => Nat.isDigit_of_mem_toDigits (by decide) (by decide) hc
  rw [List.takeWhile_append_of_pos hdigits]
  cases rest with
  | nil => simp
  | cons c cs => simp [h c rfl]

theorem digits_append_inj {m n : ℕ} {rest rest' : List Char} (hrest : Boundary rest)
    (hrest' : Boundary rest')
    (h : Nat.toDigits 10 m ++ rest = Nat.toDigits 10 n ++ rest') : m = n ∧ rest = rest' := by
  have hdigits := congrArg (List.takeWhile Char.isDigit) h
  rw [takeWhile_digits hrest, takeWhile_digits hrest'] at hdigits
  have hmn := congrArg (Nat.ofDigitChars 10 · 0) hdigits
  simp only [Nat.ofDigitChars_ten_toDigits] at hmn
  rw [hmn] at h
  exact ⟨hmn, List.append_cancel_left h⟩

/-- No whole number starts like a negative one. -/
theorem digits_ne_minus (n : ℕ) (rest rest' : List Char) :
    Nat.toDigits 10 n ++ rest ≠ '-' :: rest' := by
  intro h
  cases hdigits : Nat.toDigits 10 n with
  | nil => exact Nat.toDigits_ne_nil hdigits
  | cons c cs =>
      have hc : c.isDigit = true :=
        Nat.isDigit_of_mem_toDigits (b := 10) (n := n) (by decide) (by decide) (by rw [hdigits]; exact .head _)
      rw [hdigits] at h
      cases h
      cases hc

theorem intText_append_inj {m n : ℤ} {rest rest' : List Char} (hrest : Boundary rest)
    (hrest' : Boundary rest') (h : intText m ++ rest = intText n ++ rest') :
    m = n ∧ rest = rest' := by
  cases m with
  | ofNat m =>
      cases n with
      | ofNat n =>
          obtain ⟨rfl, hrest⟩ := digits_append_inj hrest hrest' h
          exact ⟨rfl, hrest⟩
      | negSucc n => exact absurd h (digits_ne_minus m _ _)
  | negSucc m =>
      cases n with
      | ofNat n => exact absurd h.symm (digits_ne_minus n _ _)
      | negSucc n =>
          obtain ⟨hmn, hrest⟩ := digits_append_inj hrest hrest' (List.cons.inj h).2
          obtain rfl : m = n := by omega
          exact ⟨rfl, hrest⟩

/-! ## Values -/

mutual

/-- The text of a value. -/
def text : JsonTree → List Char
  | .null => "null".toList
  | .bool true => "true".toList
  | .bool false => "false".toList
  | .int n => intText n
  | .str s => stringText s
  | .arr items =>
    match items with
    | [] => "[]".toList
    | x :: xs => '[' :: text x ++ closeArray xs
  | .obj members =>
    match members with
    | [] => "{}".toList
    | (key, x) :: xs => '{' :: stringText key ++ ':' :: text x ++ closeObject xs

/-- The items of an array after the first one, and the bracket that ends it. -/
def closeArray : List JsonTree → List Char
  | [] => [']']
  | x :: xs => ',' :: text x ++ closeArray xs

/-- The members of an object after the first one, and the brace that ends it. -/
def closeObject : List (String × JsonTree) → List Char
  | [] => ['}']
  | (key, x) :: xs => ',' :: stringText key ++ ':' :: text x ++ closeObject xs

end

/-- The kind of value that a first character announces. -/
def announces (c : Char) : ℕ :=
  if c = 'n' then 0 else if c = 't' then 1 else if c = 'f' then 2 else if c = '"' then 3
  else if c = '[' then 4 else if c = '\x7b' then 5 else if c = '-' ∨ c.isDigit then 6 else 7

/-- The kind of a value. -/
def kind : JsonTree → ℕ
  | .null => 0
  | .bool true => 1
  | .bool false => 2
  | .str _ => 3
  | .arr _ => 4
  | .obj _ => 5
  | .int _ => 6

theorem announces_digit {c : Char} (h : c.isDigit = true) : announces c = 6 := by
  have hne : ∀ d : Char, d.isDigit = false → c ≠ d := by
    rintro d hd rfl
    exact Bool.false_ne_true (hd.symm.trans h)
  simp only [announces, if_neg (hne 'n' rfl), if_neg (hne 't' rfl), if_neg (hne 'f' rfl),
    if_neg (hne '"' rfl), if_neg (hne '[' rfl), if_neg (hne '\x7b' rfl), if_pos (Or.inr h)]

/-- The first character of a text announces its value. -/
theorem exists_text_eq_cons (j : JsonTree) : ∃ c cs, text j = c :: cs ∧ announces c = kind j := by
  cases j with
  | null => exact ⟨_, _, rfl, rfl⟩
  | bool b =>
      cases b
      · exact ⟨_, _, rfl, rfl⟩
      · exact ⟨_, _, rfl, rfl⟩
  | int n =>
      cases n with
      | ofNat n =>
          cases hdigits : Nat.toDigits 10 n with
          | nil => exact absurd hdigits Nat.toDigits_ne_nil
          | cons c cs =>
              refine ⟨c, cs, hdigits, announces_digit ?_⟩
              have hmem : c ∈ Nat.toDigits 10 n := hdigits ▸ .head _
              exact Nat.isDigit_of_mem_toDigits (by decide) (by decide) hmem
      | negSucc n => exact ⟨_, _, rfl, rfl⟩
  | str s => exact ⟨_, _, rfl, rfl⟩
  | arr items =>
      cases items
      · exact ⟨_, _, rfl, rfl⟩
      · exact ⟨_, _, rfl, rfl⟩
  | obj members =>
      cases members
      · exact ⟨_, _, rfl, rfl⟩
      · exact ⟨_, _, rfl, rfl⟩

theorem kind_eq {j j' : JsonTree} {rest rest' : List Char}
    (h : text j ++ rest = text j' ++ rest') : kind j = kind j' := by
  obtain ⟨c, cs, hj, hc⟩ := exists_text_eq_cons j
  obtain ⟨c', cs', hj', hc'⟩ := exists_text_eq_cons j'
  rw [hj, hj'] at h
  rw [← hc, ← hc', (List.cons.inj h).1]

/-- No value starts like the end of an array. -/
theorem text_ne_bracket (j : JsonTree) (rest rest' : List Char) : text j ++ rest ≠ ']' :: rest' := by
  obtain ⟨c, cs, hj, hc⟩ := exists_text_eq_cons j
  intro h
  rw [hj] at h
  cases h
  cases j with
  | bool b => cases b <;> cases hc
  | _ => cases hc

theorem boundary_closeArray (xs : List JsonTree) (rest : List Char) :
    Boundary (closeArray xs ++ rest) := by
  cases xs
  all_goals
    rintro _ ⟨⟩
    rfl

theorem boundary_closeObject (xs : List (String × JsonTree)) (rest : List Char) :
    Boundary (closeObject xs ++ rest) := by
  rcases xs with _ | ⟨⟨key, x⟩, xs⟩
  all_goals
    rintro _ ⟨⟩
    rfl

mutual

/-- **A text in a row of texts determines its value.** -/
theorem text_append_inj : ∀ (j j' : JsonTree) {rest rest' : List Char}, Boundary rest →
    Boundary rest' → text j ++ rest = text j' ++ rest' → j = j' ∧ rest = rest'
  | .null, j', rest, rest', _, _, h => by
    have hkind := kind_eq h
    cases j' with
    | null => exact ⟨rfl, List.append_cancel_left h⟩
    | bool b => cases b <;> cases hkind
    | _ => cases hkind
  | .bool b, j', rest, rest', _, _, h => by
    have hkind := kind_eq h
    cases j' with
    | bool b' =>
        obtain rfl : b = b' := by
          cases b <;> cases b' <;> first | rfl | cases hkind
        exact ⟨rfl, List.append_cancel_left h⟩
    | _ => cases b <;> cases hkind
  | .int n, j', rest, rest', hrest, hrest', h => by
    have hkind := kind_eq h
    cases j' with
    | int n' =>
        obtain ⟨rfl, hrest⟩ := intText_append_inj hrest hrest' h
        exact ⟨rfl, hrest⟩
    | bool b => cases b <;> cases hkind
    | _ => cases hkind
  | .str s, j', rest, rest', _, _, h => by
    have hkind := kind_eq h
    cases j' with
    | str s' =>
        obtain ⟨rfl, hrest⟩ := stringText_append_inj h
        exact ⟨rfl, hrest⟩
    | bool b => cases b <;> cases hkind
    | _ => cases hkind
  | .arr [], j', rest, rest', _, _, h => by
    have hkind := kind_eq h
    cases j' with
    | arr items =>
        cases items with
        | nil => exact ⟨rfl, List.append_cancel_left h⟩
        | cons y ys =>
            simp only [text, List.cons_append, List.append_assoc] at h
            exact absurd (List.cons.inj h).2.symm (text_ne_bracket y _ _)
    | bool b => cases b <;> cases hkind
    | _ => cases hkind
  | .arr (x :: xs), j', rest, rest', _, _, h => by
    have hkind := kind_eq h
    cases j' with
    | arr items =>
        cases items with
        | nil =>
            simp only [text, List.cons_append, List.append_assoc] at h
            exact absurd (List.cons.inj h).2 (text_ne_bracket x _ _)
        | cons y ys =>
            simp only [text, List.cons_append, List.append_assoc] at h
            obtain ⟨rfl, htail⟩ := text_append_inj x y (boundary_closeArray xs rest)
              (boundary_closeArray ys rest') (List.cons.inj h).2
            obtain ⟨rfl, hrest⟩ := closeArray_append_inj xs ys htail
            exact ⟨rfl, hrest⟩
    | bool b => cases b <;> cases hkind
    | _ => cases hkind
  | .obj [], j', rest, rest', _, _, h => by
    have hkind := kind_eq h
    cases j' with
    | obj members =>
        rcases members with _ | ⟨⟨key, y⟩, ys⟩
        · exact ⟨rfl, List.append_cancel_left h⟩
        · cases h
    | bool b => cases b <;> cases hkind
    | _ => cases hkind
  | .obj ((key, x) :: xs), j', rest, rest', _, _, h => by
    have hkind := kind_eq h
    cases j' with
    | obj members =>
        rcases members with _ | ⟨⟨key', y⟩, ys⟩
        · cases h
        · simp only [text, List.cons_append, List.append_assoc] at h
          obtain ⟨rfl, hmember⟩ := stringText_append_inj (List.cons.inj h).2
          obtain ⟨rfl, htail⟩ := text_append_inj x y (boundary_closeObject xs rest)
            (boundary_closeObject ys rest') (List.cons.inj hmember).2
          obtain ⟨rfl, hrest⟩ := closeObject_append_inj xs ys htail
          exact ⟨rfl, hrest⟩
    | bool b => cases b <;> cases hkind
    | _ => cases hkind

theorem closeArray_append_inj : ∀ (xs ys : List JsonTree) {rest rest' : List Char},
    closeArray xs ++ rest = closeArray ys ++ rest' → xs = ys ∧ rest = rest'
  | [], [], _, _, h => ⟨rfl, List.append_cancel_left h⟩
  | [], _ :: _, _, _, h => by cases h
  | _ :: _, [], _, _, h => by cases h
  | x :: xs, y :: ys, rest, rest', h => by
    simp only [closeArray, List.cons_append, List.append_assoc] at h
    obtain ⟨rfl, htail⟩ := text_append_inj x y (boundary_closeArray xs rest)
      (boundary_closeArray ys rest') (List.cons.inj h).2
    obtain ⟨rfl, hrest⟩ := closeArray_append_inj xs ys htail
    exact ⟨rfl, hrest⟩

theorem closeObject_append_inj : ∀ (xs ys : List (String × JsonTree)) {rest rest' : List Char},
    closeObject xs ++ rest = closeObject ys ++ rest' → xs = ys ∧ rest = rest'
  | [], [], _, _, h => ⟨rfl, List.append_cancel_left h⟩
  | [], _ :: _, _, _, h => by cases h
  | _ :: _, [], _, _, h => by cases h
  | (key, x) :: xs, (key', y) :: ys, rest, rest', h => by
    simp only [closeObject, List.cons_append, List.append_assoc] at h
    obtain ⟨rfl, hmember⟩ := stringText_append_inj (List.cons.inj h).2
    obtain ⟨rfl, htail⟩ := text_append_inj x y (boundary_closeObject xs rest)
      (boundary_closeObject ys rest') (List.cons.inj hmember).2
    obtain ⟨rfl, hrest⟩ := closeObject_append_inj xs ys htail
    exact ⟨rfl, hrest⟩

end

/-! ## One order of the members -/

mutual

/-- The members of every object in the order of their keys. -/
def sortKeys : JsonTree → JsonTree
  | .arr items => .arr (sortItems items)
  | .obj members => .obj ((sortMembers members).insertionSort fun a b => a.1 ≤ b.1)
  | j => j

def sortItems : List JsonTree → List JsonTree
  | [] => []
  | x :: xs => sortKeys x :: sortItems xs

def sortMembers : List (String × JsonTree) → List (String × JsonTree)
  | [] => []
  | (key, x) :: xs => (key, sortKeys x) :: sortMembers xs

end

/-- The text of a value that does not depend on the order of its members. -/
def canonical (j : JsonTree) : List Char := text (sortKeys j)

/-- The texts of a list of values, each ended by a character that is no digit, determine the
values. -/
theorem flatMap_canonical_inj {sep : Char} (hsep : sep.isDigit = false) :
    ∀ {js js' : List JsonTree}, (js.flatMap fun j => canonical j ++ [sep])
      = (js'.flatMap fun j => canonical j ++ [sep]) → js.map sortKeys = js'.map sortKeys
  | [], [], _ => rfl
  | [], j :: js, h => by
    simp [canonical] at h
  | j :: js, [], h => by
    simp [canonical] at h
  | j :: js, j' :: js', h => by
    simp only [List.flatMap_cons, List.append_assoc, List.cons_append, List.nil_append] at h
    have hboundary : ∀ rest, Boundary (sep :: rest) := by
      rintro rest _ ⟨⟩
      exact hsep
    obtain ⟨hhead, htail⟩ := text_append_inj _ _ (hboundary _) (hboundary _) h
    rw [List.map_cons, List.map_cons, hhead, flatMap_canonical_inj hsep (List.cons.inj htail).2]

end JsonTree
