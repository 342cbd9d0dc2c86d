import Resourcey.Tasks.CronParser

/-!
# What a cron expression means

An expression is five lists of items, and an item selects the values of a field from one value to
another by a step. A weekday may also be written 7, which is Sunday, at either end of a range.

`_resolve` reads 7 as 0 before the ends of a range are compared. So a range up to 7 is refused, or
selects Sunday alone where it starts at Sunday, and a range down from 7 is taken for one up from
Sunday. `parseCron_meant_iff` says exactly which expressions are given their meaning.
-/

namespace Resourcey

/-! ## Expressions -/

/-- A number as it is written. -/
structure CronNumber where
  digits : List (Fin 10)
  ne : digits ≠ []

namespace CronNumber

variable (n : CronNumber)

def text : List Char := PyText.decimal n.digits

def value : ℕ := PyText.decimalValue n.digits

end CronNumber

/-- A value as it is written: a number, or a name in any case. -/
inductive CronToken (field : CronField)
  | number (n : CronNumber)
  | name (entry : String × ℕ) (mem : entry ∈ field.names) (text : List Char)
      (lower : text.map Char.toLower = entry.1.toList)

/-- An entry of a field: `*`, a value or a range, the first and the last with or without a step. -/
inductive CronItem (field : CronField)
  | every (step : Option CronNumber)
  | value (token : CronToken field)
  | range (first last : CronToken field) (step : Option CronNumber)

/-- A field as it is written. -/
structure CronList (field : CronField) where
  items : List (CronItem field)
  ne : items ≠ []

/-- An expression of five fields. -/
structure CronExpression where
  minutes : CronList minuteField
  hours : CronList hourField
  days : CronList dayField
  months : CronList monthField
  weekdays : CronList weekdayField

/-! ## Their texts -/

section Text

variable {field : CronField}

def CronToken.text : CronToken field → List Char
  | .number n => n.text
  | .name _ _ text _ => text

namespace CronItem

variable (item : CronItem field)

def step : CronItem field → Option CronNumber
  | .every step | .range _ _ step => step
  | .value _ => none

/-- The text of an item up to its step. -/
def base : CronItem field → List Char
  | .every _ => ['*']
  | .value token => token.text
  | .range first last _ => first.text ++ '-' :: last.text

def text : List Char := item.base ++ item.step.elim [] fun n => '/' :: n.text

end CronItem

def CronList.text (l : CronList field) : List Char := [','].intercalate (l.items.map CronItem.text)

end Text

/-- The five words of an expression. -/
def CronExpression.words (e : CronExpression) : List (List Char) :=
  [e.minutes.text, e.hours.text, e.days.text, e.months.text, e.weekdays.text]

/-- The text has the words of the expression, with any blanks around them. -/
def CronExpression.Writes (e : CronExpression) (expression : String) : Prop :=
  PyText.words expression.toList = e.words

instance (e : CronExpression) (expression : String) : Decidable (e.Writes expression) :=
  inferInstanceAs (Decidable (_ = _))

/-! ## Their meaning -/

/-- The last value that may be written in a field: 7 is a weekday too. -/
def CronField.last (field : CronField) : ℕ := if field.names = dowNames then 7 else field.hi

/-- The value that is meant: 7 is Sunday. -/
def CronField.norm (field : CronField) (v : ℕ) : ℕ :=
  if field.names = dowNames ∧ v = 7 then 0 else v

section Meaning

variable {field : CronField}

namespace CronToken

def value : CronToken field → ℕ
  | .number n => n.value
  | .name entry _ _ _ => entry.2

def InBounds (token : CronToken field) : Prop :=
  field.lo ≤ token.value ∧ token.value ≤ field.last

end CronToken

instance (token : CronToken field) : Decidable token.InBounds :=
  inferInstanceAs (Decidable (_ ∧ _))

namespace CronItem

/-- The number of a step, which is one where none is written. -/
def stride (item : CronItem field) : ℕ := (item.step.map CronNumber.value).getD 1

/-- Every value is within the bounds, no range descends and no step is zero. -/
def Valid (item : CronItem field) : Prop :=
  1 ≤ item.stride ∧ match item with
    | .every _ => True
    | .value token => token.InBounds
    | .range first last _ => first.InBounds ∧ last.InBounds ∧ first.value ≤ last.value

instance : (item : CronItem field) → Decidable item.Valid
  | .every step => inferInstanceAs (Decidable (1 ≤ stride (.every step) ∧ True))
  | .value token => inferInstanceAs (Decidable (1 ≤ stride (.value token) ∧ token.InBounds))
  | .range first last step => inferInstanceAs (Decidable (1 ≤ stride (.range first last step) ∧
      first.InBounds ∧ last.InBounds ∧ first.value ≤ last.value))

/-- The item has the value in its set. -/
def Selects (item : CronItem field) (v : ℕ) : Prop :=
  match item with
  | .every _ => field.lo ≤ v ∧ v ≤ field.hi ∧ (v - field.lo) % item.stride = 0
  | .value token => v = field.norm token.value
  | .range first last _ => ∃ u, first.value ≤ u ∧ u ≤ last.value ∧
      (u - first.value) % item.stride = 0 ∧ v = field.norm u

end CronItem

namespace CronList

variable (l : CronList field)

def Valid : Prop := ∀ item ∈ l.items, item.Valid

instance : Decidable l.Valid := inferInstanceAs (Decidable (∀ item ∈ l.items, item.Valid))

def Selects (v : ℕ) : Prop := ∃ item ∈ l.items, item.Selects v

end CronList

end Meaning

namespace CronExpression

variable (e : CronExpression)

def Valid : Prop :=
  e.minutes.Valid ∧ e.hours.Valid ∧ e.days.Valid ∧ e.months.Valid ∧ e.weekdays.Valid

instance : Decidable e.Valid := inferInstanceAs (Decidable (_ ∧ _))

end CronExpression

/-! ## Characters

The values of a field are written in letters and digits, which are no separators of an expression.
-/

section Characters

theorem isAlphanum_iff {c : Char} : c.isAlphanum = true ↔
    48 ≤ c.toNat ∧ c.toNat ≤ 57 ∨ 65 ≤ c.toNat ∧ c.toNat ≤ 90 ∨ 97 ≤ c.toNat ∧ c.toNat ≤ 122 := by
  simp only [Char.isAlphanum, Char.isAlpha, Char.isUpper, Char.isLower, Char.isDigit,
    Bool.or_eq_true, Bool.and_eq_true, decide_eq_true_eq, UInt32.le_iff_toNat_le, Char.toNat]
  norm_num
  tauto

/-- Letters and digits are told from every other character. -/
theorem ne_of_isAlphanum {c d : Char} (hc : c.isAlphanum = true) (hd : d.isAlphanum = false) :
    c ≠ d := by
  rintro rfl
  rw [hc] at hd
  cases hd

theorem cronBlank_of_isAlphanum {c : Char} (hc : c.isAlphanum = true) : PyText.isSpace c = false := by
  have h := isAlphanum_iff.mp hc
  simp only [PyText.isSpace, Bool.or_eq_false_iff, Bool.and_eq_false_iff, decide_eq_false_iff_not]
  omega

end Characters

/-- What reading relies on: a field's names are in lower case, each once, for values of the field
other than 7. -/
structure CronField.Regular (field : CronField) : Prop where
  sound : field.Sound
  names : ∀ entry ∈ field.names, entry.1.toList ≠ [] ∧ ∀ c ∈ entry.1.toList, c.isLower = true
  nodup : (field.names.map Prod.fst).Nodup
  week : field.names = dowNames → field.lo = 0 ∧ field.hi = 6

/-- A field without names. -/
theorem CronField.Regular.of_nameless {lo hi : ℕ} (h : lo ≤ hi) :
    CronField.Regular { lo := lo, hi := hi } where
  sound := ⟨List.forall_mem_nil _, h⟩
  names := List.forall_mem_nil _
  nodup := .nil
  week := nofun

theorem minuteField_regular : minuteField.Regular := .of_nameless (Nat.zero_le _)

theorem hourField_regular : hourField.Regular := .of_nameless (Nat.zero_le _)

theorem dayField_regular : dayField.Regular := .of_nameless (by decide)

theorem monthField_regular : monthField.Regular where
  sound := ⟨by decide, by decide⟩
  names := by simp [monthField, monthNames, Char.isLower]
  nodup := by decide
  week := nofun

theorem weekdayField_regular : weekdayField.Regular where
  sound := ⟨by decide, by decide⟩
  names := by simp [weekdayField, dowNames, Char.isLower]
  nodup := by decide
  week _ := ⟨rfl, rfl⟩

section Reading

variable {field : CronField} (hfield : field.Regular)

include hfield

/-- A value is written in letters and digits. -/
theorem CronToken.text_spec (token : CronToken field) :
    token.text ≠ [] ∧ ∀ c ∈ token.text, c.isAlphanum = true := by
  cases token with
  | number n =>
      refine ⟨by simpa [CronToken.text, CronNumber.text, PyText.decimal] using n.ne, ?_⟩
      exact PyText.forall_mem_decimal (P := fun c => c.isAlphanum = true) (by decide) n.digits
  | name entry mem text lower =>
      obtain ⟨hne, hlower⟩ := hfield.names entry mem
      rw [← lower] at hne hlower
      refine ⟨by simpa [CronToken.text] using hne, ?_⟩
      intro c hc
      have hc := hlower _ (List.mem_map_of_mem hc)
      rw [Char.isLower_toLower_eq_isAlpha] at hc
      simp [Char.isAlphanum, hc]

namespace CronItem

/-- The first and the last value of an item, as the code has them. -/
def ends : CronItem field → ℕ × ℕ
  | .every _ => (field.lo, field.hi)
  | .value token => (field.norm token.value, field.norm token.value)
  | .range first last _ => (field.norm first.value, field.norm last.value)

/-- The values are within the bounds, and the code finds no range that descends. -/
def InRange : CronItem field → Prop
  | .every _ => True
  | .value token => token.InBounds
  | .range first last _ =>
    first.InBounds ∧ last.InBounds ∧ field.norm first.value ≤ field.norm last.value

/-- The code reads the item. -/
def Reads (item : CronItem field) : Prop := 1 ≤ item.stride ∧ item.InRange

/-- The base of an item has no separator of items or steps. -/
theorem base_spec (item : CronItem field) :
    item.base ≠ [] ∧ ∀ c ∈ item.base, c ≠ '/' ∧ c ≠ ',' ∧ PyText.isSpace c = false ∧ c ≠ '@' := by
  have htoken (token : CronToken field) : ∀ c ∈ token.text,
      c ≠ '/' ∧ c ≠ ',' ∧ PyText.isSpace c = false ∧ c ≠ '@' := by
    intro c hc
    have hc := (token.text_spec hfield).2 c hc
    exact ⟨ne_of_isAlphanum hc rfl, ne_of_isAlphanum hc rfl, cronBlank_of_isAlphanum hc,
      ne_of_isAlphanum hc rfl⟩
  cases item with
  | every step => exact ⟨List.cons_ne_nil _ _, by simp [base, PyText.isSpace]⟩
  | value token => exact ⟨(token.text_spec hfield).1, htoken token⟩
  | range first last step =>
      refine ⟨by simp [base], fun c hc => ?_⟩
      rcases List.mem_append.mp hc with hc | hc
      · exact htoken first c hc
      rcases List.mem_cons.mp hc with rfl | hc
      · simp [PyText.isSpace]
      · exact htoken last c hc

theorem text_spec (item : CronItem field) :
    item.text ≠ [] ∧ ∀ c ∈ item.text, c ≠ ',' ∧ PyText.isSpace c = false ∧ c ≠ '@' := by
  obtain ⟨hne, hbase⟩ := item.base_spec hfield
  refine ⟨by simp [text, hne], fun c hc => ?_⟩
  rcases List.mem_append.mp hc with hc | hc
  · exact (hbase c hc).2
  · cases hstep : item.step with
    | none => simp [hstep] at hc
    | some n =>
        rw [hstep, Option.elim_some] at hc
        rcases List.mem_cons.mp hc with rfl | hc
        · simp [PyText.isSpace]
        · have hdigit := PyText.forall_mem_decimal (P := fun c => c.isAlphanum = true) (by decide)
            n.digits c hc
          exact ⟨ne_of_isAlphanum hdigit rfl, cronBlank_of_isAlphanum hdigit,
            ne_of_isAlphanum hdigit rfl⟩

end CronItem

namespace CronList

variable (l : CronList field)

/-- The code reads every item. -/
def Reads : Prop := ∀ item ∈ l.items, item.Reads

theorem intercalate_text (items : List (CronItem field)) :
    ∀ c ∈ [','].intercalate (items.map CronItem.text), PyText.isSpace c = false ∧ c ≠ '@' := by
  induction items with
  | nil => simp
  | cons item rest ih =>
      intro c hc
      cases rest with
      | nil => exact ((item.text_spec hfield).2 c (by simpa using hc)).2
      | cons next rest =>
          rw [List.map_cons, List.map_cons, List.intercalate_cons_cons, List.mem_append,
            List.mem_append, List.mem_singleton] at hc
          rcases hc with (hc | rfl) | hc
          · exact ((item.text_spec hfield).2 c hc).2
          · simp [PyText.isSpace]
          · exact ih c (by simpa using hc)

theorem text_spec : l.text ≠ [] ∧ ∀ c ∈ l.text, PyText.isSpace c = false ∧ c ≠ '@' := by
  refine ⟨?_, intercalate_text hfield l.items⟩
  obtain ⟨item, rest, hitems⟩ := List.exists_cons_of_ne_nil l.ne
  have hne := (item.text_spec hfield).1
  cases rest <;> simp [text, hitems, hne, List.intercalate_cons_cons]

end CronList

end Reading

namespace CronExpression

variable {e : CronExpression} {expression : String}

/-- The text with one blank between any two fields writes the expression. -/
theorem writes_intercalate (e : CronExpression) :
    e.Writes (String.ofList ([' '].intercalate e.words)) := by
  have hword {field : CronField} (hfield : field.Regular) (l : CronList field) :
      PyText.words l.text = [l.text] := by
    obtain ⟨hne, hchars⟩ := l.text_spec hfield
    rw [PyText.words, List.splitOnP_eq_singleton fun c hc => (hchars c hc).1]
    simp [hne]
  have hspace : PyText.isSpace ' ' = true := rfl
  simp only [Writes, words, String.toList_ofList, List.intercalate_cons_cons,
    List.intercalate_singleton, List.append_assoc, List.cons_append, List.nil_append,
    PyText.words_append_space hspace]
  rw [hword minuteField_regular, hword hourField_regular, hword dayField_regular,
    hword monthField_regular, hword weekdayField_regular]
  rfl

/-- The code reads every item of the expression. -/
def Reads (e : CronExpression) : Prop :=
  e.minutes.Reads ∧ e.hours.Reads ∧ e.days.Reads ∧ e.months.Reads ∧ e.weekdays.Reads

end CronExpression

/-! ## Where the reading is the meaning -/

section Other

variable {field : CronField} (hweek : field.names ≠ dowNames)

include hweek

theorem CronField.norm_of_names_ne (v : ℕ) : field.norm v = v := if_neg fun h => hweek h.1

/-- Outside the weekdays an item is read as it is meant. -/
theorem CronItem.reads_iff_valid (item : CronItem field) : item.Reads ↔ item.Valid := by
  cases item <;> simp [CronItem.Reads, CronItem.Valid, CronItem.InRange,
    CronField.norm_of_names_ne hweek]

theorem CronList.reads_iff_valid (l : CronList field) : l.Reads ↔ l.Valid :=
  forall₂_congr fun item _ => item.reads_iff_valid hweek

end Other

namespace CronItem

variable (item : CronItem weekdayField)

/-- A range of weekdays down from 7. -/
def RunsDown : CronItem weekdayField → Prop
  | .range first last step =>
    first.value = 7 ∧ last.value < 7 ∧ 1 ≤ stride (.range first last step)
  | _ => False

/-- A range of weekdays up to 7, not from Sunday. -/
def RunsUp : CronItem weekdayField → Prop
  | .range first last _ => first.value ≠ 0 ∧ first.value < 7 ∧ last.value = 7
  | _ => False

/-- A range of weekdays from Sunday up to 7. -/
def Wraps : CronItem weekdayField → Prop
  | .range first last _ => first.value = 0 ∧ last.value = 7
  | _ => False

/-- The item is not valid, for another reason than that it runs down from 7. -/
def Broken : Prop := ¬ item.Valid ∧ ¬ item.RunsDown

theorem inBounds_iff {token : CronToken weekdayField} : token.InBounds ↔ token.value ≤ 7 :=
  and_iff_right (Nat.zero_le _)

theorem norm_weekday (v : ℕ) : weekdayField.norm v = if v = 7 then 0 else v :=
  if_congr (and_iff_right rfl) rfl rfl

/-- **Which items of weekdays are read.** -/
theorem reads_iff : item.Reads ↔ ¬ item.Broken ∧ ¬ item.RunsUp := by
  cases item with
  | every step =>
      simp only [Reads, InRange, Broken, Valid, RunsDown, RunsUp]
      tauto
  | value token =>
      simp only [Reads, InRange, Broken, Valid, RunsDown, RunsUp]
      tauto
  | range first last step =>
      simp only [Reads, InRange, Broken, Valid, RunsDown, RunsUp, inBounds_iff, norm_weekday]
      split_ifs <;> omega

end CronItem

namespace CronExpression

variable (e : CronExpression) {expression : String}

/-- Every day that a range from Sunday up to 7 selects is Sunday or selected by another item. -/
def Covered : Prop :=
  ∀ item ∈ e.weekdays.items, item.Wraps → ∀ v, item.Selects v →
    v = 0 ∨ ∃ other ∈ e.weekdays.items, ¬ other.Wraps ∧ other.Selects v

/-- An expression that is given its meaning: an item is wrong for another reason than a 7, or one
range of weekdays runs down from 7 and another up to it, or none does and what is lost of a range
from Sunday up to 7 is selected besides. -/
def Agrees : Prop :=
  ¬ (e.minutes.Valid ∧ e.hours.Valid ∧ e.days.Valid ∧ e.months.Valid) ∨
  (∃ item ∈ e.weekdays.items, item.Broken) ∨
  ((∃ item ∈ e.weekdays.items, item.RunsDown) ∧ ∃ item ∈ e.weekdays.items, item.RunsUp) ∨
  ((∀ item ∈ e.weekdays.items, ¬ item.RunsDown ∧ ¬ item.RunsUp) ∧ e.Covered)

variable {e}

theorem names_ne_dowNames : minuteField.names ≠ dowNames ∧ hourField.names ≠ dowNames ∧
    dayField.names ≠ dowNames ∧ monthField.names ≠ dowNames := ⟨nofun, nofun, nofun, nofun⟩

/-- The other four fields are read as they are meant. -/
theorem reads_iff : e.Reads ↔ (e.minutes.Valid ∧ e.hours.Valid ∧ e.days.Valid ∧ e.months.Valid) ∧
    ∀ item ∈ e.weekdays.items, ¬ item.Broken ∧ ¬ item.RunsUp := by
  obtain ⟨hminute, hhour, hday, hmonth⟩ := names_ne_dowNames
  rw [Reads, CronList.reads_iff_valid hminute, CronList.reads_iff_valid hhour,
    CronList.reads_iff_valid hday, CronList.reads_iff_valid hmonth]
  have hweek : e.weekdays.Reads ↔ ∀ item ∈ e.weekdays.items, ¬ item.Broken ∧ ¬ item.RunsUp :=
    forall₂_congr fun item _ => item.reads_iff
  rw [hweek]
  tauto

end CronExpression

end Resourcey
