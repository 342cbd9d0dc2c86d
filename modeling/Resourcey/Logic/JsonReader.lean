import Resourcey.Logic.JsonText

/-!
# Reading JSON

A reader of JSON text in the way of Python's `json` module: blanks between the tokens, no control
characters in a string, and `NaN` and the infinities are numbers. A number is kept as its text, and
a surrogate that is not half of a pair, which is no character, cannot be read. A flat object of
strings and nulls is read back from its text (`loads_flatText`).
-/

/-- A JSON value as it is read. -/
inductive JsonDocument where
  | null
  | bool (b : Bool)
  | number (text : List Char)
  | str (s : String)
  | arr (items : List JsonDocument)
  | obj (members : List (String × JsonDocument))

namespace JsonDocument

/-! ## Tokens -/

/-- A blank between two tokens. -/
def isBlank (c : Char) : Bool := c = ' ' || c = '\t' || c = '\n' || c = '\r'

/-- What follows the blanks. -/
def skip (cs : List Char) : List Char := cs.dropWhile isBlank

/-- The value of a hexadecimal digit of either case. -/
def hexDigit? (c : Char) : Option ℕ :=
  if c.isDigit then some (c.toNat - 48)
  else if 97 ≤ c.toNat ∧ c.toNat ≤ 102 then some (c.toNat - 87)
  else if 65 ≤ c.toNat ∧ c.toNat ≤ 70 then some (c.toNat - 55)
  else none

/-- The number of four hexadecimal digits. -/
def hex4? (a b c d : Char) : Option ℕ := do
  let a ← hexDigit? a
  let b ← hexDigit? b
  let c ← hexDigit? c
  let d ← hexDigit? d
  return a * 4096 + b * 256 + c * 16 + d

/-- The low surrogate that follows a high one, and the character of the two. -/
def lowSurrogate (high : ℕ) : List Char → Option (Char × List Char)
  | '\\' :: 'u' :: a :: b :: c :: d :: rest => do
    let low ← hex4? a b c d
    if 56320 ≤ low ∧ low < 57344 then
      return (Char.ofNat (65536 + (high - 55296) * 1024 + (low - 56320)), rest)
    else none
  | _ => none

/-- The character of a code unit, or of it and the low surrogate that follows. -/
def codeUnit (n : ℕ) (rest : List Char) : Option (Char × List Char) :=
  if 55296 ≤ n ∧ n < 56320 then lowSurrogate n rest
  else if 56320 ≤ n ∧ n < 57344 then none
  else some (Char.ofNat n, rest)

/-- What an escape sequence stands for, after its backslash. -/
def escape : List Char → Option (Char × List Char)
  | 'u' :: a :: b :: c :: d :: rest => (hex4? a b c d).bind fun n => codeUnit n rest
  | '"' :: rest => some ('"', rest)
  | '\\' :: rest => some ('\\', rest)
  | '/' :: rest => some ('/', rest)
  | 'n' :: rest => some ('\n', rest)
  | 'r' :: rest => some ('\r', rest)
  | 't' :: rest => some ('\t', rest)
  | 'b' :: rest => some ('\x08', rest)
  | 'f' :: rest => some ('\x0c', rest)
  | _ => none

/-- The first character of a string. -/
def character : List Char → Option (Char × List Char)
  | '\\' :: rest => escape rest
  | c :: rest => if c.toNat < 32 then none else some (c, rest)
  | [] => none

/-- The characters of a string up to its closing quote. -/
def string : ℕ → List Char → Option (List Char × List Char)
  | 0, _ => none
  | _ + 1, '"' :: rest => some ([], rest)
  | n + 1, cs => do
    let (c, rest) ← character cs
    let (cs', rest') ← string n rest
    return (c :: cs', rest')

/-- The digits of an exponent, with the sign and the letter before them. -/
def exponent (cs : List Char) : List Char :=
  match cs with
  | e :: cs =>
    if e = 'e' ∨ e = 'E' then
      match cs with
      | '+' :: ds => if ds.takeWhile (·.isDigit) = [] then [] else e :: '+' :: ds.takeWhile (·.isDigit)
      | '-' :: ds => if ds.takeWhile (·.isDigit) = [] then [] else e :: '-' :: ds.takeWhile (·.isDigit)
      | ds => if ds.takeWhile (·.isDigit) = [] then [] else e :: ds.takeWhile (·.isDigit)
    else []
  | [] => []

/-- The fraction of a number, with the point. -/
def fraction (cs : List Char) : List Char :=
  match cs with
  | '.' :: ds => if ds.takeWhile (·.isDigit) = [] then [] else '.' :: ds.takeWhile (·.isDigit)
  | _ => []

/-- The digits of a number before its point. No other digit follows a leading zero. -/
def wholePart : List Char → Option (List Char)
  | '0' :: _ => some ['0']
  | c :: cs => if c.isDigit then some (c :: cs.takeWhile (·.isDigit)) else none
  | [] => none

/-- A number. A whole one has at most 4300 digits. -/
def readNumber (cs : List Char) : Option (JsonDocument × List Char) := do
  let sign := if cs.head? = some '-' then ['-'] else []
  let whole ← wholePart (cs.drop sign.length)
  let point := fraction (cs.drop (sign ++ whole).length)
  let power := exponent (cs.drop (sign ++ whole ++ point).length)
  if point = [] ∧ power = [] ∧ 4300 < whole.length then none
  else return (.number (sign ++ whole ++ point ++ power),
    cs.drop (sign ++ whole ++ point ++ power).length)

/-- A word that stands for a value. -/
def words : List (List Char × JsonDocument) :=
  [("null".toList, .null), ("true".toList, .bool true), ("false".toList, .bool false),
    ("NaN".toList, .number "NaN".toList), ("Infinity".toList, .number "Infinity".toList),
    ("-Infinity".toList, .number "-Infinity".toList)]

/-! ## Values -/

mutual

/-- The value at the front. -/
def value : ℕ → List Char → Option (JsonDocument × List Char)
  | 0, _ => none
  | n + 1, '"' :: rest => (string n rest).map fun (cs, rest) => (.str (String.ofList cs), rest)
  | n + 1, '\x7b' :: rest =>
    if (skip rest).head? = some '\x7d' then some (.obj [], (skip rest).tail)
    else (members n (skip rest)).map fun (ms, rest) => (.obj ms, rest)
  | n + 1, '[' :: rest =>
    if (skip rest).head? = some ']' then some (.arr [], (skip rest).tail)
    else (items n (skip rest)).map fun (vs, rest) => (.arr vs, rest)
  | _ + 1, cs =>
    match words.find? fun word => word.1.isPrefixOf cs with
    | some word => some (word.2, cs.drop word.1.length)
    | none => readNumber cs

/-- The members of an object up to its closing brace. -/
def members : ℕ → List Char → Option (List (String × JsonDocument) × List Char)
  | n + 1, '"' :: rest => do
    let (key, rest) ← string n rest
    match skip rest with
    | ':' :: rest =>
      let (v, rest) ← value n (skip rest)
      match skip rest with
      | '\x7d' :: rest => return ([(String.ofList key, v)], rest)
      | ',' :: rest =>
        let (ms, rest) ← members n (skip rest)
        return ((String.ofList key, v) :: ms, rest)
      | _ => none
    | _ => none
  | _, _ => none

/-- The items of an array up to its closing bracket. -/
def items : ℕ → List Char → Option (List JsonDocument × List Char)
  | 0, _ => none
  | n + 1, cs => do
    let (v, rest) ← value n cs
    match skip rest with
    | ']' :: rest => return ([v], rest)
    | ',' :: rest =>
      let (vs, rest) ← items n (skip rest)
      return (v :: vs, rest)
    | _ => none

end

/-- `json.loads`. -/
def loads (cs : List Char) : Option JsonDocument :=
  match value (cs.length + 1) (skip cs) with
  | some (v, rest) => if skip rest = [] then some v else none
  | none => none

/-! ## Reading a text back -/

theorem hexDigit?_digitChar : ∀ d < 16, hexDigit? (Nat.digitChar d) = some d := by decide

theorem hex4?_hex4 {n : ℕ} (h : n < 65536) :
    hex4? (Nat.digitChar (n / 4096 % 16)) (Nat.digitChar (n / 256 % 16))
      (Nat.digitChar (n / 16 % 16)) (Nat.digitChar (n % 16)) = some n := by
  have hdigit : ∀ m, hexDigit? (Nat.digitChar (m % 16)) = some (m % 16) :=
    fun m => hexDigit?_digitChar _ (Nat.mod_lt _ (by decide))
  simp only [hex4?, hdigit, Option.bind_eq_bind, Option.bind_some, Option.pure_def,
    Option.some.injEq]
  omega

theorem codeUnit_basic {n : ℕ} (h : ¬ (55296 ≤ n ∧ n < 57344)) (rest : List Char) :
    codeUnit n rest = some (Char.ofNat n, rest) := by
  rw [codeUnit, if_neg (by omega), if_neg (by omega)]

theorem lowSurrogate_hex4 {low : ℕ} (h : 56320 ≤ low ∧ low < 57344) (high : ℕ)
    (rest : List Char) : lowSurrogate high ('\\' :: 'u' :: JsonTree.hex4 low ++ rest)
      = some (Char.ofNat (65536 + (high - 55296) * 1024 + (low - 56320)), rest) := by
  have hread := hex4?_hex4 (n := low) (by omega)
  simp only [JsonTree.hex4, List.cons_append, List.nil_append, lowSurrogate, hread,
    Option.bind_eq_bind, Option.bind_some, if_pos h, Option.pure_def]

theorem codeUnit_pair {n : ℕ} (hlow : 65536 ≤ n) (hhigh : n < 1114112) (rest : List Char) :
    codeUnit (55296 + (n - 65536) / 1024) ('\\' :: 'u' ::
      JsonTree.hex4 (56320 + (n - 65536) % 1024) ++ rest) = some (Char.ofNat n, rest) := by
  have hsum : 65536 + (55296 + (n - 65536) / 1024 - 55296) * 1024 +
      (56320 + (n - 65536) % 1024 - 56320) = n := by omega
  rw [codeUnit, if_pos (by omega), lowSurrogate_hex4 (by omega), hsum]

theorem character_hex4 {n : ℕ} (h : n < 65536) (rest : List Char) :
    character ('\\' :: 'u' :: JsonTree.hex4 n ++ rest) = codeUnit n rest := by
  simp only [JsonTree.hex4, List.cons_append, List.nil_append, character, escape, hex4?_hex4 h,
    Option.bind_some]

/-- **An escaped character is read back.** -/
theorem character_escapeChar (c : Char) (rest : List Char) :
    character (JsonTree.escapeChar c ++ rest) = some (c, rest) := by
  have hsurrogate := JsonTree.not_surrogate c
  unfold JsonTree.escapeChar
  split
  · next h => rw [h]; rfl
  split
  · next h => rw [h]; rfl
  split
  · next h => rw [h]; rfl
  split
  · next h => rw [h]; rfl
  split
  · next h => rw [h]; rfl
  split
  · next h => rw [h]; rfl
  split
  · next h => rw [h]; rfl
  split
  · next hne _ _ _ _ _ hplain =>
      simp only [List.cons_append, List.nil_append]
      unfold character
      split
      · simp_all
      · next heq =>
          cases heq
          rw [if_neg (by omega)]
      · next heq => cases heq
  split
  · next hbasic =>
      rw [character_hex4 hbasic, codeUnit_basic hsurrogate, Char.ofNat_toNat]
  · next hbeyond =>
      have hbound := JsonTree.toNat_lt c
      rw [List.append_assoc, character_hex4 (by omega),
        codeUnit_pair (not_lt.mp hbeyond) hbound, Char.ofNat_toNat]

/-- A string is read back up to its closing quote. -/
theorem string_closeString {n : ℕ} {cs : List Char} (h : cs.length < n) (rest : List Char) :
    string n (JsonTree.closeString cs ++ rest) = some (cs, rest) := by
  induction cs generalizing n with
  | nil =>
      cases n with
      | zero => cases h
      | succ n => rfl
  | cons c cs ih =>
      cases n with
      | zero => cases h
      | succ n =>
          rw [JsonTree.closeString, List.append_assoc, string]
          · simp only [character_escapeChar, Option.bind_eq_bind, Option.bind_some,
              ih (Nat.lt_of_succ_lt_succ h), Option.pure_def]
          · intro rest' heq
            exact JsonTree.escapeChar_ne_quote c _ rest' heq

/-- The text of a string or a null. -/
def optionalText : Option String → List Char
  | none => "null".toList
  | some s => JsonTree.stringText s

/-- A string or a null as a value. -/
def ofOptional : Option String → JsonDocument
  | none => .null
  | some s => .str s

/-- A member as `json.dumps` writes it. -/
def memberText (m : String × Option String) : List Char :=
  JsonTree.stringText m.1 ++ ':' :: ' ' :: optionalText m.2

/-- The members of an object and its closing brace. -/
def closeFlat (m : String × Option String) : List (String × Option String) → List Char
  | [] => memberText m ++ ['\x7d']
  | m' :: ms => memberText m ++ ',' :: ' ' :: closeFlat m' ms

/-- `json.dumps` of an object whose members are strings and nulls. -/
def flatText : List (String × Option String) → List Char
  | [] => ['\x7b', '\x7d']
  | m :: ms => '\x7b' :: closeFlat m ms

/-- An object whose members are strings and nulls. -/
def ofFlat (ms : List (String × Option String)) : JsonDocument :=
  .obj (ms.map fun m => (m.1, ofOptional m.2))

theorem length_closeString (cs : List Char) : cs.length < (JsonTree.closeString cs).length := by
  induction cs with
  | nil => exact Nat.zero_lt_one
  | cons c cs ih =>
      have hread := character_escapeChar c []
      rw [JsonTree.closeString, List.length_append, List.length_cons]
      cases hescape : JsonTree.escapeChar c with
      | nil =>
          rw [hescape] at hread
          cases hread
      | cons d ds =>
          rw [List.length_cons]
          omega

theorem skip_cons {c : Char} (h : isBlank c = false) (cs : List Char) : skip (c :: cs) = c :: cs := by
  rw [skip, List.dropWhile_cons, h]
  rfl

/-- A value is read back from its text. -/
theorem value_optionalText {n : ℕ} {v : Option String} (h : (optionalText v).length ≤ n)
    (rest : List Char) : value n (optionalText v ++ rest) = some (ofOptional v, rest) := by
  cases n with
  | zero => cases v <;> cases h
  | succ n =>
      cases v with
      | none => rfl
      | some s =>
          rw [optionalText, JsonTree.stringText, List.length_cons] at h
          have hlength := length_closeString s.toList
          rw [optionalText, JsonTree.stringText, List.cons_append, value,
            string_closeString (by omega)]
          simp [ofOptional]

theorem skip_optionalText (v : Option String) (rest : List Char) :
    skip (' ' :: (optionalText v ++ rest)) = optionalText v ++ rest := by
  cases v
  all_goals rfl

/-- The first member is read back, and what follows it decides whether there is another one. -/
theorem members_memberText {n : ℕ} {m : String × Option String} (h : (memberText m).length ≤ n)
    {c : Char} {tail : List Char} (hc : isBlank c = false) :
    members (n + 1) (memberText m ++ c :: tail) =
      if c = '\x7d' then some ([(m.1, ofOptional m.2)], tail)
      else if c = ',' then
        (members n (skip tail)).map fun (ms, rest) => ((m.1, ofOptional m.2) :: ms, rest)
      else none := by
  obtain ⟨key, v⟩ := m
  have hlength := length_closeString key.toList
  simp only [memberText, JsonTree.stringText, List.length_append, List.length_cons] at h
  simp only [memberText, JsonTree.stringText, List.cons_append, List.append_assoc, members,
    string_closeString (show key.toList.length < n by omega), Option.bind_eq_bind, Option.bind_some,
    skip_cons (c := ':') rfl, skip_optionalText,
    value_optionalText (show (optionalText v).length ≤ n by omega), skip_cons hc,
    String.ofList_toList, Option.pure_def]
  split
  · next heq =>
      cases heq
      rfl
  · next heq =>
      cases heq
      cases members n (skip tail) <;> rfl
  · next hbrace hcomma =>
      rw [if_neg (fun heq => hbrace tail (by rw [heq])), if_neg (fun heq => hcomma tail (by rw [heq]))]

/-- The members are read back from their text. -/
theorem members_closeFlat {n : ℕ} {m : String × Option String} {ms : List (String × Option String)}
    (h : (closeFlat m ms).length ≤ n) (rest : List Char) : members n (closeFlat m ms ++ rest)
      = some ((m :: ms).map fun m => (m.1, ofOptional m.2), rest) := by
  induction ms generalizing n m with
  | nil =>
      simp only [closeFlat, List.length_append, List.length_singleton] at h
      obtain ⟨n, rfl⟩ := Nat.exists_eq_add_of_le' (Nat.one_le_iff_ne_zero.mpr (by omega : n ≠ 0))
      rw [closeFlat, List.append_assoc, List.singleton_append,
        members_memberText (by omega) rfl, if_pos rfl]
      rfl
  | cons m' ms ih =>
      simp only [closeFlat, List.length_append, List.length_cons] at h
      obtain ⟨n, rfl⟩ := Nat.exists_eq_add_of_le' (Nat.one_le_iff_ne_zero.mpr (by omega : n ≠ 0))
      have hskip : skip (' ' :: (closeFlat m' ms ++ rest)) = closeFlat m' ms ++ rest := by
        cases ms <;> rfl
      rw [closeFlat, List.append_assoc, List.cons_append, List.cons_append,
        members_memberText (by omega) rfl, if_neg (by decide), if_pos rfl, hskip, ih (by omega)]
      rfl

/-- **A flat object is read back from its text.** -/
theorem loads_flatText (ms : List (String × Option String)) :
    loads (flatText ms) = some (ofFlat ms) := by
  cases ms with
  | nil => rfl
  | cons m ms =>
      have hread := members_closeFlat (Nat.le_succ (closeFlat m ms).length) []
      have hskip : skip (closeFlat m ms) = closeFlat m ms := by
        cases ms <;> rfl
      have hbrace : (closeFlat m ms).head? ≠ some '\x7d' := by
        cases ms <;> simp [closeFlat, memberText, JsonTree.stringText]
      rw [List.append_nil] at hread
      rw [loads, flatText, skip_cons rfl, List.length_cons, value, hskip, if_neg hbrace,
        hread]
      rfl

end JsonDocument
