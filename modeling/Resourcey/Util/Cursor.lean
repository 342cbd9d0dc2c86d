import Resourcey.Encryption.EncryptionService
import Resourcey.Logic.UuidText

/-!
# Cursors

A cursor holds the sort, the sort key and the identifier of a row. The two values are tagged by
their type: a cascade of `isinstance` tests picks the tag, and the tag picks how the value is read
back. What comes back need not be the same object, as an enumeration of texts comes back as a text,
but it has to compare as the object does (`Alike`). `readsBack_iff` says for which objects it does,
and `cursor_roundTrips_iff` for which cursors.

The types of numbers and times that come from Python's library are parameters, with the texts they
are read back from.
-/

namespace Resourcey

/-! ## Objects -/

/-- The types that are not modelled here: some of Python's library, and all others. -/
structure PythonTypes where
  Float : Type
  Datetime : Type
  Date : Type
  Time : Type
  Decimal : Type
  Other : Type

variable {P : PythonTypes}

/-- A value of one of the types that have a tag. -/
inductive TaggedValue (P : PythonTypes) where
  | bool (b : Bool)
  | int (i : ℤ)
  | float (x : P.Float)
  | str (s : String)
  | datetime (t : P.Datetime)
  | date (d : P.Date)
  | time (t : P.Time)
  | uuid (u : Uuid)
  | decimal (d : P.Decimal)

/-- A Python object: `None`, a value of a type that has a tag or of a class derived from one, as an
enumeration with such a type mixed in, or something else. What is derived has a `str` of its own. -/
inductive PyObject (P : PythonTypes) where
  | none
  | plain (v : TaggedValue P)
  | derived (v : TaggedValue P) (text : String)
  | other (w : P.Other)

/-- The value that an object is. -/
def PyObject.value? : PyObject P → Option (TaggedValue P)
  | .plain v | .derived v _ => some v
  | .none | .other _ => Option.none

/-- The types that the cascade asks for. -/
inductive PyClass where
  | bool
  | int
  | float
  | str
  | datetime
  | date
  | time
  | uuid
  | decimal
  deriving DecidableEq

/-- The types that a value is an instance of. A boolean is an integer, and a datetime a date. -/
def TaggedValue.classes : TaggedValue P → List PyClass
  | .bool _ => [.bool, .int]
  | .int _ => [.int]
  | .float _ => [.float]
  | .str _ => [.str]
  | .datetime _ => [.datetime, .date]
  | .date _ => [.date]
  | .time _ => [.time]
  | .uuid _ => [.uuid]
  | .decimal _ => [.decimal]

/-- `isinstance`. -/
def PyObject.isInstance (o : PyObject P) (c : PyClass) : Bool :=
  match o.value? with
  | some v => c ∈ v.classes
  | Option.none => false

/-- How Python compares. A comparison that raises has no result. -/
structure PyComparison (P : PythonTypes) where
  eq : TaggedValue P → TaggedValue P → Bool
  lt : TaggedValue P → TaggedValue P → Option Bool
  otherEq : P.Other → P.Other → Bool
  otherLt : P.Other → P.Other → Option Bool
  otherEq_self : ∀ w, otherEq w w = true

namespace PyComparison

variable (C : PyComparison P)

/-- `a == b`. A derived value compares as its value, and something else only with its like. -/
def pyEq : PyObject P → PyObject P → Bool
  | .none, .none => true
  | .other w, .other w' => C.otherEq w w'
  | a, b =>
    match a.value?, b.value? with
    | some v, some v' => C.eq v v'
    | _, _ => false

/-- `a < b`. -/
def pyLt : PyObject P → PyObject P → Option Bool
  | .other w, .other w' => C.otherLt w w'
  | a, b =>
    match a.value?, b.value? with
    | some v, some v' => C.lt v v'
    | _, _ => Option.none

/-- The objects compare alike with every object. -/
def Alike (a b : PyObject P) : Prop :=
  ∀ x, C.pyEq a x = C.pyEq b x ∧ C.pyLt a x = C.pyLt b x ∧ C.pyLt x a = C.pyLt x b

variable {C} in
theorem Alike.symm {a b : PyObject P} (h : C.Alike a b) : C.Alike b a := by
  intro x
  obtain ⟨heq, hlt, hgt⟩ := h x
  exact ⟨heq.symm, hlt.symm, hgt.symm⟩

variable {C} in
theorem Alike.trans {a b c : PyObject P} (h : C.Alike a b) (h' : C.Alike b c) : C.Alike a c := by
  intro x
  obtain ⟨heq, hlt, hgt⟩ := h x
  obtain ⟨heq', hlt', hgt'⟩ := h' x
  exact ⟨heq.trans heq', hlt.trans hlt', hgt.trans hgt'⟩

/-- Objects of one value compare alike. -/
theorem alike_of_value {a b : PyObject P} {v : TaggedValue P} (ha : a.value? = some v)
    (hb : b.value? = some v) : C.Alike a b := by
  intro x
  cases a <;> cases b <;> cases x <;> simp_all [PyObject.value?, pyEq, pyLt]

theorem not_alike_other {a : PyObject P} {v : TaggedValue P} {w : P.Other} (ha : a.value? = some v) :
    ¬ C.Alike a (.other w) := by
  intro h
  have heq := (h (.other w)).1
  rw [show C.pyEq (.other w) (.other w) = true from C.otherEq_self w] at heq
  cases a <;> simp [PyObject.value?, pyEq] at ha heq

end PyComparison

/-! ## The codec -/

/-- The tag of a value, by its text in a cursor. -/
inductive CursorTag where
  | n
  | b
  | i
  | f
  | s
  | dt
  | d
  | t
  | u
  | dec
  deriving DecidableEq

/-- A value that JSON has. -/
inductive JsonAtom (P : PythonTypes) where
  | null
  | bool (b : Bool)
  | int (i : ℤ)
  | float (x : P.Float)
  | str (s : String)

/-- What a cursor holds before it is made a text. -/
structure CursorPayload (P : PythonTypes) where
  s : Option String
  a : Bool
  k : CursorTag × JsonAtom P
  id : CursorTag × JsonAtom P

/-- What the codec uses of Python and its libraries: texts of values and how they are read back,
JSON, and the encryption of a text with a nonce. -/
structure CursorRuntime (P : PythonTypes) (υ κ : Type) where
  str : TaggedValue P → String
  otherStr : P.Other → String
  isoformat : TaggedValue P → String
  datetimeFromIso : String → Option P.Datetime
  dateFromIso : String → Option P.Date
  timeFromIso : String → Option P.Time
  decimalOf : String → Option P.Decimal
  dumps : CursorPayload P → υ
  loads : υ → Option (CursorPayload P)
  encryptValue : ℕ → υ → κ
  decryptValue : κ → Option υ
  str_uuid : ∀ u, str (.uuid u) = u.text
  datetimeFromIso_isoformat : ∀ t, datetimeFromIso (isoformat (.datetime t)) = some t
  dateFromIso_isoformat : ∀ d, dateFromIso (isoformat (.date d)) = some d
  timeFromIso_isoformat : ∀ t, timeFromIso (isoformat (.time t)) = some t
  decimalOf_str : ∀ d, decimalOf (str (.decimal d)) = some d
  loads_dumps : ∀ p, loads (dumps p) = some p
  decrypt_encrypt : ∀ nonce x, decryptValue (encryptValue nonce x) = some x

namespace CursorRuntime

variable {υ κ : Type} (R : CursorRuntime P υ κ)

/-- `str(o)`. -/
def objectStr : PyObject P → String
  | .none => "None"
  | .plain v => R.str v
  | .derived _ text => text
  | .other w => R.otherStr w

/-- `o.isoformat()`, of a datetime, a date or a time. -/
def objectIso (o : PyObject P) : String := (o.value?.map R.isoformat).getD ""

/-- How JSON writes an object, `str` being the default. -/
def toJson (o : PyObject P) : JsonAtom P :=
  match o, o.value? with
  | .none, _ => .null
  | _, some (.bool b) => .bool b
  | _, some (.int i) => .int i
  | _, some (.float x) => .float x
  | _, some (.str s) => .str s
  | o, _ => .str (R.objectStr o)

/-- `_serialize`. -/
def serialize (o : PyObject P) : CursorTag × JsonAtom P :=
  if o matches .none then (.n, .null)
  else if o.isInstance .bool then (.b, R.toJson o)
  else if o.isInstance .int then (.i, R.toJson o)
  else if o.isInstance .float then (.f, R.toJson o)
  else if o.isInstance .str then (.s, R.toJson o)
  else if o.isInstance .datetime then (.dt, .str (R.objectIso o))
  else if o.isInstance .date then (.d, .str (R.objectIso o))
  else if o.isInstance .time then (.t, .str (R.objectIso o))
  else if o.isInstance .uuid then (.u, .str (R.objectStr o))
  else if o.isInstance .decimal then (.dec, .str (R.objectStr o))
  else (.s, .str (R.objectStr o))

/-- `_deserialize`, of the pairs that are written. -/
def deserialize : CursorTag × JsonAtom P → Option (PyObject P)
  | (.n, _) => some .none
  | (.b, .bool b) => some (.plain (.bool b))
  | (.i, .int i) => some (.plain (.int i))
  | (.f, .float x) => some (.plain (.float x))
  | (.s, .str s) => some (.plain (.str s))
  | (.dt, .str s) => (R.datetimeFromIso s).map fun t => .plain (.datetime t)
  | (.d, .str s) => (R.dateFromIso s).map fun d => .plain (.date d)
  | (.t, .str s) => (R.timeFromIso s).map fun t => .plain (.time t)
  | (.u, .str s) => (Uuid.ofText s).map fun u => .plain (.uuid u)
  | (.dec, .str s) => (R.decimalOf s).map fun d => .plain (.decimal d)
  | _ => none

/-- `encode_cursor`. -/
def encodeCursor (nonce : ℕ) (sortField : Option String) (ascending : Bool)
    (sortKey idValue : PyObject P) : κ :=
  R.encryptValue nonce (R.dumps
    { s := sortField
      a := ascending
      k := R.serialize sortKey
      id := R.serialize idValue })

/-- `decode_cursor`. -/
def decodeCursor (cursor : κ) : Option (Option String × Bool × PyObject P × PyObject P) := do
  let payload ← R.loads (← R.decryptValue cursor)
  let key ← R.deserialize payload.k
  let id ← R.deserialize payload.id
  return (payload.s, payload.a, key, id)

/-! ## Round trips -/

/-- The object is read back as one that compares alike. -/
def ReadsBack (C : PyComparison P) (o : PyObject P) : Prop :=
  ∃ o', R.deserialize (R.serialize o) = some o' ∧ C.Alike o' o

/-- **The types that a cursor carries.** The object is `None` or an instance of one of the types
that have a tag. If it is a UUID or a decimal of a class with a `str` of its own, this is the text
of a value that compares alike. -/
def Carries (C : PyComparison P) : PyObject P → Prop
  | .none | .plain _ => True
  | .derived (.uuid u) text =>
    ∃ u', Uuid.ofText text = some u' ∧ C.Alike (.plain (.uuid u')) (.plain (.uuid u))
  | .derived (.decimal d) text =>
    ∃ d', R.decimalOf text = some d' ∧ C.Alike (.plain (.decimal d')) (.plain (.decimal d))
  | .derived _ _ => True
  | .other _ => False

variable {R} {C : PyComparison P}

theorem readsBack_of_value {o : PyObject P} {v : TaggedValue P} (hvalue : o.value? = some v)
    (h : R.deserialize (R.serialize o) = some (.plain v)) : R.ReadsBack C o :=
  ⟨_, h, C.alike_of_value rfl hvalue⟩

/-- A value of a type that has a tag is read back. -/
theorem readsBack_plain (v : TaggedValue P) : R.ReadsBack C (.plain v) := by
  refine readsBack_of_value rfl ?_
  cases v with
  | bool _ => rfl
  | int _ => rfl
  | float _ => rfl
  | str _ => rfl
  | datetime t => exact congrArg (Option.map _) (R.datetimeFromIso_isoformat t)
  | date d => exact congrArg (Option.map _) (R.dateFromIso_isoformat d)
  | time t => exact congrArg (Option.map _) (R.timeFromIso_isoformat t)
  | uuid u =>
      have hread : Uuid.ofText (R.str (.uuid u)) = some u := by
        rw [R.str_uuid, Uuid.ofText_text]
      exact congrArg (Option.map _) hread
  | decimal d => exact congrArg (Option.map _) (R.decimalOf_str d)

/-- An object that is written as a text is read back by what the text is read as. -/
theorem readsBack_iff_text {o : PyObject P} {α : Type} {read : Option α} {wrap : α → TaggedValue P}
    {v : TaggedValue P} (hvalue : o.value? = some v)
    (h : R.deserialize (R.serialize o) = read.map fun a => .plain (wrap a)) :
    R.ReadsBack C o ↔ ∃ a, read = some a ∧ C.Alike (.plain (wrap a)) (.plain v) := by
  have hplain : C.Alike o (.plain v) := C.alike_of_value hvalue rfl
  rw [ReadsBack, h]
  constructor
  · rintro ⟨o', ho', halike⟩
    obtain ⟨a, ha, rfl⟩ := Option.map_eq_some_iff.mp ho'
    exact ⟨a, ha, halike.trans hplain⟩
  · rintro ⟨a, ha, halike⟩
    exact ⟨.plain (wrap a), by rw [ha]; rfl, halike.trans hplain.symm⟩

/-- What is derived is read back by its value or, where that is a UUID or a decimal, by its text. -/
theorem readsBack_derived_iff (v : TaggedValue P) (text : String) :
    R.ReadsBack C (.derived v text) ↔ R.Carries C (.derived v text) := by
  have hvalue : (PyObject.derived v text).value? = some v := rfl
  cases v with
  | bool _ => exact iff_of_true (readsBack_of_value hvalue rfl) trivial
  | int _ => exact iff_of_true (readsBack_of_value hvalue rfl) trivial
  | float _ => exact iff_of_true (readsBack_of_value hvalue rfl) trivial
  | str _ => exact iff_of_true (readsBack_of_value hvalue rfl) trivial
  | datetime t =>
      have hread := congrArg (Option.map fun t => PyObject.plain (.datetime t))
        (R.datetimeFromIso_isoformat t)
      exact iff_of_true (readsBack_of_value hvalue hread) trivial
  | date d =>
      have hread := congrArg (Option.map fun d => PyObject.plain (.date d))
        (R.dateFromIso_isoformat d)
      exact iff_of_true (readsBack_of_value hvalue hread) trivial
  | time t =>
      have hread := congrArg (Option.map fun t => PyObject.plain (.time t))
        (R.timeFromIso_isoformat t)
      exact iff_of_true (readsBack_of_value hvalue hread) trivial
  | uuid u => exact readsBack_iff_text hvalue rfl
  | decimal d => exact readsBack_iff_text hvalue rfl

/-- **Which objects are read back**: those of the types that a cursor carries. -/
theorem readsBack_iff (o : PyObject P) : R.ReadsBack C o ↔ R.Carries C o := by
  cases o with
  | none => exact iff_of_true ⟨.none, rfl, fun _ => ⟨rfl, rfl, rfl⟩⟩ trivial
  | plain v => exact iff_of_true (readsBack_plain v) trivial
  | derived v text => exact readsBack_derived_iff v text
  | other w =>
      -- The fallback writes a text, and a text is what comes back.
      refine iff_of_false ?_ id
      rintro ⟨o', ho', halike⟩
      cases ho'
      exact C.not_alike_other rfl halike

variable (R) (C)

/-- The cursor gives back the sort, and a key and an identifier that compare as those it was made
of. -/
def RoundTrips (nonce : ℕ) (sortField : Option String) (ascending : Bool)
    (sortKey idValue : PyObject P) : Prop :=
  ∃ key id, R.decodeCursor (R.encodeCursor nonce sortField ascending sortKey idValue) =
      some (sortField, ascending, key, id) ∧ C.Alike key sortKey ∧ C.Alike id idValue

variable {R} {C} {nonce : ℕ} {sortField : Option String} {ascending : Bool}
  {sortKey idValue : PyObject P}

theorem roundTrips_iff_readsBack : R.RoundTrips C nonce sortField ascending sortKey idValue ↔
    R.ReadsBack C sortKey ∧ R.ReadsBack C idValue := by
  have hdecode : R.decodeCursor (R.encodeCursor nonce sortField ascending sortKey idValue) = do
      let key ← R.deserialize (R.serialize sortKey)
      let id ← R.deserialize (R.serialize idValue)
      return (sortField, ascending, key, id) := by
    simp only [decodeCursor, encodeCursor, R.decrypt_encrypt, R.loads_dumps, Option.bind_eq_bind,
      Option.bind_some]
  rw [RoundTrips, hdecode]
  constructor
  · rintro ⟨key, id, h, hkey, hid⟩
    obtain ⟨key', hkey', h⟩ := Option.bind_eq_some_iff.mp h
    obtain ⟨id', hid', h⟩ := Option.bind_eq_some_iff.mp h
    cases h
    exact ⟨⟨key, hkey', hkey⟩, id, hid', hid⟩
  · rintro ⟨⟨key, hkey', hkey⟩, id, hid', hid⟩
    refine ⟨key, id, ?_, hkey, hid⟩
    rw [hkey', hid']
    rfl

/-- **Which cursors round-trip.** In either direction, with a sort field or without, a cursor gives
back its four components if and only if it carries the types of the sort key and the identifier. -/
theorem cursor_roundTrips_iff : R.RoundTrips C nonce sortField ascending sortKey idValue ↔
    R.Carries C sortKey ∧ R.Carries C idValue :=
  roundTrips_iff_readsBack.trans (and_congr (readsBack_iff sortKey) (readsBack_iff idValue))

/-- The codec with the tokens of a service that opens its own. -/
def sealed {σ τ : Type} [DecidableEq σ] (R : CursorRuntime P String κ) (e : EncryptionService σ τ)
    (hopens : Opens e.deriveKey e.config.decryptionKeys e.config.encryptionKey) :
    CursorRuntime P String τ :=
  { R with
    encryptValue := e.encryptValue
    decryptValue := fun token => (e.decryptValue token).toOption
    decrypt_encrypt := fun nonce x => by
      have hdecrypt : e.decryptValue (e.encryptValue nonce x) = .ok x :=
        (e.decryptValue_encryptValue_iff e.config nonce x).mpr hopens
      rw [hdecrypt]
      rfl }

end CursorRuntime

/-! ## A duration -/

/-- Values by their texts, and durations in seconds. -/
def textTypes : PythonTypes where
  Float := String
  Datetime := String
  Date := String
  Time := String
  Decimal := String
  Other := ℕ

/-- Two digits. -/
def twoDigits (n : ℕ) : String := toString (n / 10) ++ toString (n % 10)

/-- `str` of a duration of less than a day. -/
def durationStr (seconds : ℕ) : String :=
  toString (seconds / 3600) ++ ":" ++ twoDigits (seconds / 60 % 60) ++ ":" ++
    twoDigits (seconds % 60)

/-- The codec over these types, with cursors in clear. -/
def textRuntime : CursorRuntime textTypes (CursorPayload textTypes) (CursorPayload textTypes) where
  str := fun
    | .bool b => if b then "True" else "False"
    | .int i => toString i
    | .float x => x
    | .str s => s
    | .datetime t => t
    | .date d => d
    | .time t => t
    | .uuid u => u.text
    | .decimal d => d
  otherStr := durationStr
  isoformat := fun
    | .datetime t => t
    | .date d => d
    | .time t => t
    | _ => ""
  datetimeFromIso := some
  dateFromIso := some
  timeFromIso := some
  decimalOf := some
  dumps := id
  loads := some
  encryptValue := fun _ => id
  decryptValue := some
  str_uuid := fun _ => rfl
  datetimeFromIso_isoformat := fun _ => rfl
  dateFromIso_isoformat := fun _ => rfl
  timeFromIso_isoformat := fun _ => rfl
  decimalOf_str := fun _ => rfl
  loads_dumps := fun _ => rfl
  decrypt_encrypt := fun _ _ => rfl

/-- Whole numbers, texts and durations, each compared with its like. -/
def textComparison : PyComparison textTypes where
  eq := fun
    | .int i, .int j => decide (i = j)
    | .str s, .str t => decide (s = t)
    | _, _ => false
  lt := fun
    | .int i, .int j => some (decide (i < j))
    | .str s, .str t => some (decide (s < t))
    | _, _ => none
  otherEq := Nat.beq
  otherLt := fun m n => some (Nat.blt m n)
  otherEq_self := Nat.beq_refl

/-- A cursor of a row that is sorted by a duration gives back the duration's text. -/
theorem not_cursor_roundTrips_duration :
    let duration : PyObject textTypes := .other (90 : ℕ)
    let cursor := textRuntime.encodeCursor 0 (some "duration") true duration (.plain (.int 1))
    textRuntime.decodeCursor cursor =
        some (some "duration", true, .plain (.str "0:01:30"), .plain (.int 1)) ∧
      ¬ textRuntime.RoundTrips textComparison 0 (some "duration") true duration
        (.plain (.int 1)) := by
  refine ⟨rfl, fun h => ?_⟩
  exact (CursorRuntime.readsBack_iff _).mp (CursorRuntime.roundTrips_iff_readsBack.mp h).1

end Resourcey
