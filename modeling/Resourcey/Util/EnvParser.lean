import Resourcey.Logic.Fuel
import Resourcey.Logic.JsonReader
import Resourcey.Logic.PyDict
import Resourcey.Logic.PyText

/-!
# Configuration from environment variables

`get_env_parser` makes a parser of a type, and the parser makes a JSON value of the variables under
a prefix: `APP` may hold an object in JSON, and `APP_FIELD` overrides its field. The types may refer
to each other in circles, and a parser of a list counts its variables up without a bound.

Making a parser ends, and its delayed parts are all filled in then (`getEnvParser_closed`).
-/

namespace PyText

/-- The digits before or after a point, if there are any. -/
def isDigitPart (cs : List Char) : Bool := cs = [] || (grouped? cs).isSome

/-- A number with a point or without. -/
def isMantissa (cs : List Char) : Bool :=
  match cs.splitOn '.' with
  | [whole] => (grouped? whole).isSome
  | [whole, fraction] => isDigitPart whole && isDigitPart fraction && !(whole ++ fraction).isEmpty
  | _ => false

/-- A text without its sign. -/
def unsigned : List Char → List Char
  | '-' :: cs => cs
  | '+' :: cs => cs
  | cs => cs

/-- `float(text)` takes the text. -/
def isFloat (cs : List Char) : Bool :=
  let body := unsigned (strip cs)
  String.ofList (lower body) ∈ ["inf", "infinity", "nan"] ||
    match body.splitOnP (fun c => c = 'e' || c = 'E') with
    | [mantissa] => isMantissa mantissa
    | [mantissa, power] => isMantissa mantissa && (grouped? (unsigned power)).isSome
    | _ => false

/-- `text.upper()` of a text in ASCII. -/
def upper (text : String) : String := String.ofList (text.toList.map Char.toUpper)

end PyText

namespace Resourcey

/-! ## Values -/

/-- `JsonType`: what a parser makes of variables. A float is kept as its text. -/
inductive EnvValue where
  | missing
  | null
  | bool (b : Bool)
  | int (i : ℤ)
  | float (text : List Char)
  | str (s : String)
  | list (items : List EnvValue)
  | dict (members : List (String × EnvValue))

/-- `os.environ`. -/
abbrev Environ := List (String × String)

/-- What a parser raises. `delayed` is the assertion that a delayed parser was filled in,
`unregistered` an import that is not modelled, and `unfinished` fuel that did not last. -/
inductive EnvError where
  | value
  | type
  | key (kind : String)
  | assertion
  | delayed
  | unregistered (className : String)
  | unfinished
  deriving DecidableEq

/-- The parser is to blame, or its fuel. -/
def EnvError.IsInternal : EnvError → Prop
  | .delayed | .unfinished => True
  | _ => False

namespace EnvValue

/-- `value is MISSING`. -/
def isMissing : EnvValue → Bool
  | .missing => true
  | _ => false

/-- `members.get(key)`. -/
def getMember (members : List (String × EnvValue)) (key : String) : Option EnvValue :=
  PyDict.get (fun a b => decide (a = b)) members key

/-- `members[key] = value`. -/
def setMember (members : List (String × EnvValue)) (key : String) (value : EnvValue) :
    List (String × EnvValue) :=
  PyDict.set (fun a b => decide (a = b)) members key value

mutual

/-- The value of a JSON document. -/
def ofJson : JsonDocument → EnvValue
  | .null => .null
  | .bool b => .bool b
  | .number text =>
    match PyText.int? text with
    | some i => .int i
    | none => .float text
  | .str s => .str s
  | .arr items => .list (ofJsonItems items)
  | .obj members => .dict (PyDict.ofList (fun a b => decide (a = b)) (ofJsonMembers members))

def ofJsonItems : List JsonDocument → List EnvValue
  | [] => []
  | item :: items => ofJson item :: ofJsonItems items

def ofJsonMembers : List (String × JsonDocument) → List (String × EnvValue)
  | [] => []
  | (key, value) :: members => (key, ofJson value) :: ofJsonMembers members

end

mutual

/-- `merge`. -/
def merge : EnvValue → EnvValue → EnvValue
  | .missing, b => b
  | a, .missing => a
  | .dict a, .dict b => .dict (mergeMembers a b)
  | .list a, .list b => .list (mergeItems a b)
  | a, .null => a
  | _, b => b

/-- The members of an object, one after another. A key that is not there reads as `None`. -/
def mergeMembers (a : List (String × EnvValue)) :
    List (String × EnvValue) → List (String × EnvValue)
  | [] => a
  | (key, value) :: b =>
    mergeMembers (setMember a key (merge ((getMember a key).getD .null) value)) b

/-- The items of a list, and those beyond its end. -/
def mergeItems : List EnvValue → List EnvValue → List EnvValue
  | a, [] => a
  | [], b => b
  | x :: a, y :: b => merge x y :: mergeItems a b

end

end EnvValue

/-! ## Parsers -/

/-- A type, as far as `get_env_parser` takes it apart. -/
inductive EnvType where
  | str | int | float | bool | none | uuid | path | datetime | secretStr
  | annotated (inner : EnvType)
  | union (alternatives : List EnvType)
  | list (item : EnvType)
  | dict (key value : EnvType)
  | literal (values : List String)
  | parametrized (origin : String)
  | named (name : String)

/-- `EnvParser`. A delayed parser is that of its class, to be found in the table of parsers. -/
inductive EnvParser where
  | bool | int | float | str | none
  | literal (values : List String)
  | model (parsers : List (String × EnvParser)) (descriptions : List (String × String))
  | dict
  | list (itemParser : EnvParser) (itemType : EnvType)
  | union (parsers : List (EnvType × EnvParser))
  | discriminated (parsers : List (String × EnvParser))
  | delayed (name : String)

/-- The parsers of the classes, by their names. One that is being made is not there yet. -/
abbrev ParserTable := List (String × Option EnvParser)

/-! ## From the environment -/

section
open EnvValue

variable (env : Environ)

/-- The text says yes. -/
def isTrue (text : String) : Bool := PyText.upper text = "1" || PyText.upper text = "TRUE"

/-- Some variable's name begins so. -/
def hasPossibleKeys (start : String) : Bool :=
  env.any fun v => start.toList.isPrefixOf v.1.toList

/-- A variable as JSON, if it is there and not empty. It must hold an object. -/
def jsonObject (key : String) : Except EnvError EnvValue :=
  match env.lookup key with
  | none => .ok .missing
  | some text =>
    if text = "" then .ok .missing
    else
      match (JsonDocument.loads text.toList).map ofJson with
      | none => .error .value
      | some (.dict members) => .ok (.dict members)
      | some _ => .error .assertion

/-- The items that JSON gives a list. A number is that of items that are missing so far, and the two
truth values are numbers. -/
def jsonItems (text : String) : Except EnvError (List EnvValue) :=
  match (JsonDocument.loads text.toList).map ofJson with
  | none => .error .value
  | some (.int n) => .ok (List.replicate n.toNat .missing)
  | some (.bool b) => .ok (List.replicate b.toNat .missing)
  | some (.list items) => .ok items
  | some _ => .error .assertion

/-- The name of an item's variable. -/
def itemKey (key : String) (index : ℕ) : String := key ++ "_" ++ toString index

/-- The items from an index on, each merged with what its own variables say. -/
def indexedItems (item : String → Except EnvError EnvValue) (key : String) :
    ℕ → List EnvValue → Except EnvError (List EnvValue)
  | _, [] => .ok []
  | index, value :: values => do
    let override ← item (itemKey key index)
    let rest ← indexedItems item key (index + 1) values
    return merge value override :: rest

/-- The next item of a list that is counted up. -/
def nextItem (item : String → Except EnvError EnvValue) (key : String) (index : ℕ)
    (items : List EnvValue) : Except EnvError (Option (List EnvValue)) := do
  let value ← item (itemKey key index)
  return if value.isMissing then none else some (items ++ [value])

/-- The items from zero on, up to the first that is missing. -/
def sequentialItems (item : String → Except EnvError EnvValue) (key : String) (steps : ℕ) :
    Except EnvError EnvValue := do
  let items ← Fuel.loop .unfinished (nextItem item key) steps 0 []
  return if items.isEmpty then .missing else .list items

/-- `kind.rsplit('.', 1)[1]`. -/
def className (kind : String) : String :=
  String.ofList (kind.toList.reverse.takeWhile (· ≠ '.')).reverse

/-- The kind of an object of one of the kinds, and whether it was given. One kind alone need not be
given, and a kind with a dot is the path of a class. -/
def discriminator (kinds : List String) (key : String) :
    Except EnvError (Option (String × Bool)) :=
  match env.lookup (key ++ "_KIND"), kinds with
  | none, [kind] => .ok (some (kind, false))
  | none, _ => .ok none
  | some kind, _ =>
    if '.' ∉ kind.toList then .ok (some (kind, true))
    else if className kind ∈ kinds then .ok (some (className kind, true))
    else .error (.unregistered (className kind))

/-- What is read of an object of a kind, with its kind. -/
def withKind (kind : String) (given : Bool) : EnvValue → Except EnvError EnvValue
  | .missing => .ok (if given then .dict [("kind", .str kind)] else .missing)
  | .dict members => .ok (.dict (setMember members "kind" (.str kind)))
  | _ => .error .type

/-- A field's value goes over what the object has of it. -/
def overrideField (name : String) (value result : EnvValue) : EnvValue :=
  match result with
  | .dict members =>
    .dict (setMember members name (merge ((getMember members name).getD .missing) value))
  | _ => .dict [(name, value)]

/-- An alternative's value is merged into that of those before it. One that cannot take the value is
passed over. -/
def mergeAlternative (rest : EnvValue → Except EnvError EnvValue) (result : EnvValue) :
    Except EnvError EnvValue → Except EnvError EnvValue
  | .ok value => rest (merge result value)
  | .error e => if e = .value ∨ e = .type then rest result else .error e

/-- The name of a field's variable. -/
def fieldKey (key name : String) : String := key ++ "_" ++ PyText.upper name

mutual

/-- `from_env` of a parser. The delayed parsers are given, and `steps` bounds a loop. -/
def fromEnvWith (delayed : String → String → Except EnvError EnvValue) (steps : ℕ) :
    EnvParser → String → Except EnvError EnvValue
  | .bool, key => .ok ((env.lookup key).elim .missing fun text => .bool (isTrue text))
  | .int, key =>
    match env.lookup key with
    | none => .ok .missing
    | some text =>
      match PyText.int? (PyText.strip text.toList) with
      | some i => .ok (.int i)
      | none => .error .value
  | .float, key =>
    match env.lookup key with
    | none => .ok .missing
    | some text => if PyText.isFloat text.toList then .ok (.float text.toList) else .error .value
  | .str, key => .ok ((env.lookup key).elim .missing .str)
  | .none, key =>
    .ok (if isTrue ((env.lookup (key ++ "_IS_NONE")).getD "") then .null else .missing)
  | .literal values, key =>
    .ok ((env.lookup key).elim .missing fun text => if text ∈ values then .str text else .missing)
  | .model parsers _, key => do
    let result ← jsonObject env key
    fieldsFromEnv delayed steps parsers key result
  | .dict, key => jsonObject env key
  | .list itemParser _, key =>
    match env.lookup key with
    | none => sequentialItems (fun sub => fromEnvWith delayed steps itemParser sub) key steps
    | some text => do
      let items ← jsonItems text
      let items ← indexedItems (fun sub => fromEnvWith delayed steps itemParser sub) key 0 items
      return .list items
  | .union parsers, key => unionFromEnv delayed steps parsers key .missing
  | .discriminated parsers, key => do
    match ← discriminator env (parsers.map (·.1)) key with
    | none => return .missing
    | some (kind, given) =>
      let result ← kindFromEnv delayed steps parsers kind key
      withKind kind given result
  | .delayed name, key => delayed name key

/-- The fields of a model, over what is there. A field that no variable can be of is passed over. -/
def fieldsFromEnv (delayed : String → String → Except EnvError EnvValue) (steps : ℕ) :
    List (String × EnvParser) → String → EnvValue → Except EnvError EnvValue
  | [], _, result => .ok result
  | (name, parser) :: parsers, key, result =>
    if hasPossibleKeys env (fieldKey key name) then do
      let value ← fromEnvWith delayed steps parser (fieldKey key name)
      fieldsFromEnv delayed steps parsers key
        (if value.isMissing then result else overrideField name value result)
    else fieldsFromEnv delayed steps parsers key result

/-- The alternatives of a union, in turn. -/
def unionFromEnv (delayed : String → String → Except EnvError EnvValue) (steps : ℕ) :
    List (EnvType × EnvParser) → String → EnvValue → Except EnvError EnvValue
  | [], _, result => .ok result
  | (_, parser) :: parsers, key, result =>
    mergeAlternative (unionFromEnv delayed steps parsers key) result
      (fromEnvWith delayed steps parser key)

/-- The parser of a kind. -/
def kindFromEnv (delayed : String → String → Except EnvError EnvValue) (steps : ℕ) :
    List (String × EnvParser) → String → String → Except EnvError EnvValue
  | [], kind, _ => .error (.key kind)
  | (name, parser) :: parsers, kind, key =>
    if name = kind then fromEnvWith delayed steps parser key
    else kindFromEnv delayed steps parsers kind key

end

/-- The parser that a table has for a class. -/
def ParserTable.get (table : ParserTable) (name : String) : Option (Option EnvParser) :=
  PyDict.get (fun a b => decide (a = b)) table name

/-- `DelayedParser.from_env`, with fuel for so many delayed parsers below each other. -/
def delayedFromEnv (table : ParserTable) : ℕ → String → String → Except EnvError EnvValue
  | 0, _, _ => .error .unfinished
  | fuel + 1, name, key =>
    match table.get name with
    | some (some parser) => fromEnvWith env (delayedFromEnv table fuel) fuel parser key
    | _ => .error .delayed

/-- `from_env` of a parser. -/
def fromEnv (table : ParserTable) (fuel : ℕ) (parser : EnvParser) (key : String) :
    Except EnvError EnvValue :=
  fromEnvWith env (delayedFromEnv env table fuel) fuel parser key

end

/-! ## Parsers of types -/

/-- A field of a model. -/
structure EnvField where
  name : String
  type : EnvType
  description : Option String

/-- A class: a model with its fields, an abstract union with the names of its kinds, or an
enumeration with its values. -/
inductive ClassDecl where
  | model (fields : List EnvField)
  | abstractUnion (kinds : List String)
  | enum (values : List String)

/-- The classes by their names. The kinds of a union are models, since no kind is abstract. -/
structure ClassTable where
  decls : List (String × ClassDecl)
  kinds_model : ∀ name kinds, decls.lookup name = some (.abstractUnion kinds) →
    ∀ kind ∈ kinds, ∃ fields, decls.lookup kind = some (.model fields)

/-- The types of keys and values that a dictionary may have. -/
def isDictType : EnvType → EnvType → Bool
  | .str, .str | .str, .int | .str, .float | .str, .bool => true
  | _, _ => false

mutual

/-- `get_env_parser`, given what it does with a class. -/
def getEnvParserWith
    (getClass : String → ParserTable → Except EnvError (EnvParser × ParserTable)) :
    EnvType → ParserTable → Except EnvError (EnvParser × ParserTable)
  | .str, table | .uuid, table | .path, table | .datetime, table | .secretStr, table =>
    .ok (.str, table)
  | .int, table => .ok (.int, table)
  | .float, table => .ok (.float, table)
  | .bool, table => .ok (.bool, table)
  | .none, table => .ok (.none, table)
  | .annotated inner, table => getEnvParserWith getClass inner table
  | .union alternatives, table => do
    let (parsers, table) ← getUnionParsers getClass alternatives table
    return (.union parsers, table)
  | .list item, table => do
    let (parser, table) ← getEnvParserWith getClass item table
    return (.list parser item, table)
  | .dict key value, table => if isDictType key value then .ok (.dict, table) else .error .assertion
  | .literal values, table => .ok (.literal values, table)
  | .parametrized origin, table => getClass origin table
  | .named name, table => getClass name table

/-- The parsers of a union's alternatives. -/
def getUnionParsers
    (getClass : String → ParserTable → Except EnvError (EnvParser × ParserTable)) :
    List EnvType → ParserTable → Except EnvError (List (EnvType × EnvParser) × ParserTable)
  | [], table => .ok ([], table)
  | alternative :: alternatives, table => do
    let (parser, table) ← getEnvParserWith getClass alternative table
    let (parsers, table) ← getUnionParsers getClass alternatives table
    return ((alternative, parser) :: parsers, table)

end

/-- The parsers of entries, in turn. -/
def getParsers {α : Type} (name : α → String)
    (getParser : α → ParserTable → Except EnvError (EnvParser × ParserTable)) :
    List α → ParserTable → Except EnvError (List (String × EnvParser) × ParserTable)
  | [], table => .ok ([], table)
  | entry :: entries, table => do
    let (parser, table) ← getParser entry table
    let (parsers, table) ← getParsers name getParser entries table
    return ((name entry, parser) :: parsers, table)

/-- `parsers[name] = parser`. -/
def ParserTable.set (table : ParserTable) (name : String) (parser : Option EnvParser) :
    ParserTable :=
  PyDict.set (fun a b => decide (a = b)) table name parser

/-- `descriptions`. -/
def descriptions (fields : List EnvField) : List (String × String) :=
  fields.filterMap fun field => field.description.bind fun text =>
    if text = "" then none else some (field.name, text)

/-- `get_env_parser` of a class. A delayed parser stands for it while its own is made. -/
def getClassParser (classes : ClassTable) :
    ℕ → String → ParserTable → Except EnvError (EnvParser × ParserTable)
  | fuel, name, table =>
    match table.get name, classes.decls.lookup name, fuel with
    | some _, _, _ => .ok (.delayed name, table)
    | none, none, _ => .error .value
    | none, some (.enum values), _ => .ok (.literal values, table)
    | none, some _, 0 => .error .unfinished
    | none, some (.abstractUnion kinds), fuel + 1 => do
      let (parsers, table) ← getParsers id (getClassParser classes fuel) kinds
        (table.set name none)
      return (.delayed name, table.set name (some (.discriminated parsers)))
    | none, some (.model fields), fuel + 1 => do
      let (parsers, table) ← getParsers EnvField.name
        (fun field => getEnvParserWith (getClassParser classes fuel) field.type) fields
        (table.set name none)
      return (.delayed name, table.set name (some (.model parsers (descriptions fields))))

/-- `get_env_parser`. It makes the parser of a class once, so there is fuel for all of them. -/
def getEnvParser (classes : ClassTable) (type : EnvType) :
    Except EnvError (EnvParser × ParserTable) :=
  getEnvParserWith (getClassParser classes classes.decls.length) type []

/-- What `from_env` reads of a type, before it is validated. -/
def readType (env : Environ) (classes : ClassTable) (type : EnvType) (key : String) (fuel : ℕ) :
    Except EnvError EnvValue := do
  let (parser, table) ← getEnvParser classes type
  fromEnv env table fuel parser key

/-! ## Every delayed parser is filled in -/

mutual

/-- The delayed parsers in a parser are of classes of the kind. -/
def EnvParser.DelayedIn (known : String → Prop) : EnvParser → Prop
  | .model parsers _ | .discriminated parsers => FieldsDelayedIn known parsers
  | .list itemParser _ => itemParser.DelayedIn known
  | .union parsers => UnionDelayedIn known parsers
  | .delayed name => known name
  | .bool | .int | .float | .str | .none | .literal _ | .dict => True

def FieldsDelayedIn (known : String → Prop) : List (String × EnvParser) → Prop
  | [] => True
  | (_, parser) :: parsers => parser.DelayedIn known ∧ FieldsDelayedIn known parsers

def UnionDelayedIn (known : String → Prop) : List (EnvType × EnvParser) → Prop
  | [] => True
  | (_, parser) :: parsers => parser.DelayedIn known ∧ UnionDelayedIn known parsers

end

/-- An induction over a parser and those in it. -/
theorem EnvParser.induction {P : EnvParser → Prop} (bool : P .bool) (int : P .int)
    (float : P .float) (str : P .str) (none : P .none) (literal : ∀ values, P (.literal values))
    (dict : P .dict)
    (model : ∀ parsers descriptions, (∀ e ∈ parsers, P e.2) → P (.model parsers descriptions))
    (list : ∀ itemParser itemType, P itemParser → P (.list itemParser itemType))
    (union : ∀ parsers, (∀ e ∈ parsers, P e.2) → P (.union parsers))
    (discriminated : ∀ parsers, (∀ e ∈ parsers, P e.2) → P (.discriminated parsers))
    (delayed : ∀ name, P (.delayed name)) (parser : EnvParser) : P parser :=
  EnvParser.rec (motive_1 := P) (motive_2 := fun parsers => ∀ e ∈ parsers, P e.2)
    (motive_3 := fun parsers => ∀ e ∈ parsers, P e.2) (motive_4 := fun e => P e.2)
    (motive_5 := fun e => P e.2) bool int float str none literal model dict list union
    discriminated delayed (List.forall_mem_nil _) (fun _ _ h hs => List.forall_mem_cons.mpr ⟨h, hs⟩)
    (List.forall_mem_nil _) (fun _ _ h hs => List.forall_mem_cons.mpr ⟨h, hs⟩) (fun _ _ h => h)
    (fun _ _ h => h) parser

section
variable {known known' : String → Prop}

theorem fieldsDelayedIn_iff {parsers : List (String × EnvParser)} :
    FieldsDelayedIn known parsers ↔ ∀ e ∈ parsers, e.2.DelayedIn known := by
  induction parsers with
  | nil => simp [FieldsDelayedIn]
  | cons e parsers ih => rw [FieldsDelayedIn, ih, List.forall_mem_cons]

theorem unionDelayedIn_iff {parsers : List (EnvType × EnvParser)} :
    UnionDelayedIn known parsers ↔ ∀ e ∈ parsers, e.2.DelayedIn known := by
  induction parsers with
  | nil => simp [UnionDelayedIn]
  | cons e parsers ih => rw [UnionDelayedIn, ih, List.forall_mem_cons]

theorem EnvParser.DelayedIn.mono (hknown : ∀ name, known name → known' name) {parser : EnvParser}
    (h : parser.DelayedIn known) : parser.DelayedIn known' := by
  induction parser using EnvParser.induction with
  | bool | int | float | str | none | literal | dict => trivial
  | model parsers descriptions ih | discriminated parsers ih =>
      rw [DelayedIn, fieldsDelayedIn_iff] at h ⊢
      exact fun e he => ih e he (h e he)
  | list itemParser itemType ih => exact ih h
  | union parsers ih =>
      rw [DelayedIn, unionDelayedIn_iff] at h ⊢
      exact fun e he => ih e he (h e he)
  | delayed name => exact hknown name h

end

namespace ParserTable

/-- The table has an entry for the class, filled in or not. -/
def Has (table : ParserTable) (name : String) : Prop := ∃ entry, table.get name = some entry

theorem get_set (table : ParserTable) (name : String) (parser : Option EnvParser)
    (other : String) :
    (table.set name parser).get other = if name = other then some parser else table.get other := by
  have hequivalence : Equivalence fun a b : String => decide (a = b) = true := by
    simpa using eq_equivalence
  rw [get, set, PyDict.get_set hequivalence, get]
  simp

end ParserTable

section
variable (classes : ClassTable)

/-- The parser that is made of a class: that of a model has its fields, and that of a union has the
delayed parsers of its kinds. -/
def EntryOf (known : String → Prop) (name : String) (parser : EnvParser) : Prop :=
  (∃ fields parsers descriptions, classes.decls.lookup name = some (.model fields) ∧
    parser = .model parsers descriptions ∧ FieldsDelayedIn known parsers) ∨
  ∃ kinds parsers, classes.decls.lookup name = some (.abstractUnion kinds) ∧
    parser = .discriminated parsers ∧
    ∀ e ∈ parsers, e.1 ∈ kinds ∧ e.2 = .delayed e.1 ∧ known e.1

/-- A table after more parsers were made. What was being made still is. -/
structure Grows (table table' : ParserTable) : Prop where
  keeps : ∀ name entry, table.get name = some entry → table'.get name = some entry
  adds : ∀ name entry, table'.get name = some entry → table.get name = some entry ∨
    ∃ parser, entry = some parser ∧ EntryOf classes table'.Has name parser

variable {classes} {table table' table'' : ParserTable}

theorem EntryOf.mono {known known' : String → Prop} {name : String} {parser : EnvParser}
    (hknown : ∀ name, known name → known' name) (h : EntryOf classes known name parser) :
    EntryOf classes known' name parser := by
  rcases h with ⟨fields, parsers, descriptions, hdecl, rfl, hin⟩ |
    ⟨kinds, parsers, hdecl, rfl, hkinds⟩
  · rw [fieldsDelayedIn_iff] at hin
    refine .inl ⟨fields, parsers, descriptions, hdecl, rfl, ?_⟩
    exact fieldsDelayedIn_iff.mpr fun e he => (hin e he).mono hknown
  · refine .inr ⟨kinds, parsers, hdecl, rfl, fun e he => ?_⟩
    obtain ⟨hmem, hdelayed, hknown'⟩ := hkinds e he
    exact ⟨hmem, hdelayed, hknown _ hknown'⟩

namespace Grows

theorem refl (table : ParserTable) : Grows classes table table :=
  ⟨fun _ _ h => h, fun _ _ h => .inl h⟩

theorem has (h : Grows classes table table') {name : String} (hname : table.Has name) :
    table'.Has name := by
  obtain ⟨entry, hentry⟩ := hname
  exact ⟨entry, h.keeps name entry hentry⟩

theorem trans (h : Grows classes table table') (h' : Grows classes table' table'') :
    Grows classes table table'' where
  keeps name entry hentry := h'.keeps name entry (h.keeps name entry hentry)
  adds name entry hentry := by
    rcases h'.adds name entry hentry with hold | hnew
    · rcases h.adds name entry hold with hold | ⟨parser, rfl, hparser⟩
      · exact .inl hold
      · exact .inr ⟨parser, rfl, hparser.mono fun _ => h'.has⟩
    · exact .inr hnew

/-- A class that had no entry is delayed, others are made, and then its own is. -/
theorem fill {name : String} {parser : EnvParser} (hfresh : table.get name = none)
    (h : Grows classes (table.set name none) table')
    (hparser : EntryOf classes table'.Has name parser) :
    Grows classes table (table'.set name (some parser)) := by
  have hhas : ∀ other, table'.Has other → (table'.set name (some parser)).Has other := by
    intro other hother
    rw [ParserTable.Has, ParserTable.get_set]
    split
    · exact ⟨_, rfl⟩
    · exact hother
  constructor
  · intro other entry hentry
    have hne : name ≠ other := by
      rintro rfl
      rw [hfresh] at hentry
      cases hentry
    rw [ParserTable.get_set, if_neg hne]
    exact h.keeps other entry (by rw [ParserTable.get_set, if_neg hne, hentry])
  · intro other entry hentry
    rw [ParserTable.get_set] at hentry
    split at hentry
    · next heq =>
        cases hentry
        exact .inr ⟨parser, rfl, heq ▸ hparser.mono hhas⟩
    · next hne =>
        rcases h.adds other entry hentry with hold | ⟨parser', rfl, hparser'⟩
        · rw [ParserTable.get_set, if_neg hne] at hold
          exact .inl hold
        · exact .inr ⟨parser', rfl, hparser'.mono hhas⟩

end Grows

end

section
variable {classes : ClassTable} {table table' : ParserTable} {α β : Type}

/-- The declared classes that have no entry yet. -/
def remaining (classes : ClassTable) (table : ParserTable) : ℕ :=
  classes.decls.countP fun d => (table.get d.1).isNone

theorem Grows.remaining_le (h : Grows classes table table') :
    remaining classes table' ≤ remaining classes table := by
  refine List.countP_mono_left fun d _ hnone => ?_
  cases hentry : table.get d.1 with
  | none => rfl
  | some entry =>
      rw [h.keeps d.1 entry hentry] at hnone
      cases hnone

/-- The parsers are made in a finite number of calls, and are good. -/
def Makes (classes : ClassTable) (table : ParserTable) (good : α → ParserTable → Prop)
    (r : Except EnvError (α × ParserTable)) : Prop :=
  (∀ e, e.IsInternal → r ≠ .error e) ∧
    ∀ a table', r = .ok (a, table') → Grows classes table table' ∧ good a table'

namespace Makes

variable {good : α → ParserTable → Prop} {good' : β → ParserTable → Prop}

theorem ok {a : α} (h : good a table) : Makes classes table good (.ok (a, table)) := by
  refine ⟨fun e _ => by simp, fun a' table' heq => ?_⟩
  cases heq
  exact ⟨.refl _, h⟩

theorem error {e : EnvError} (h : ¬ e.IsInternal) : Makes classes table good (.error e) :=
  ⟨fun e' he' heq => h (Except.error.inj heq ▸ he'), fun _ _ heq => by cases heq⟩

theorem mono {good' : α → ParserTable → Prop} {r : Except EnvError (α × ParserTable)}
    (h : Makes classes table good r) (hgood : ∀ a table', good a table' → good' a table') :
    Makes classes table good' r :=
  ⟨h.1, fun a table' heq => ⟨(h.2 a table' heq).1, hgood a table' (h.2 a table' heq).2⟩⟩

theorem bind {r : Except EnvError (α × ParserTable)}
    {next : α × ParserTable → Except EnvError (β × ParserTable)} (h : Makes classes table good r)
    (hnext : ∀ a table', Grows classes table table' → good a table' →
      Makes classes table' good' (next (a, table'))) : Makes classes table good' (r >>= next) := by
  obtain ⟨hends, hgood⟩ := h
  cases r with
  | error e => exact error fun he => hends e he rfl
  | ok made =>
      obtain ⟨a, table'⟩ := made
      obtain ⟨hgrows, ha⟩ := hgood a table' rfl
      obtain ⟨hends', hgood'⟩ := hnext a table' hgrows ha
      refine ⟨hends', fun b table'' heq => ?_⟩
      obtain ⟨hgrows', hb⟩ := hgood' b table'' heq
      exact ⟨hgrows.trans hgrows', hb⟩

end Makes

/-- The parser's delayed parts have entries. -/
abbrev Known (parser : EnvParser) (table : ParserTable) : Prop := parser.DelayedIn table.Has

theorem Known.grows {parser : EnvParser} (h : Known parser table)
    (hgrows : Grows classes table table') : Known parser table' := h.mono fun _ => hgrows.has

/-- What is made of a class is good, as long as so many classes have no entry. -/
abbrev MakesClasses (classes : ClassTable) (fuel : ℕ)
    (getClass : String → ParserTable → Except EnvError (EnvParser × ParserTable)) : Prop :=
  ∀ name table, remaining classes table ≤ fuel → Makes classes table Known (getClass name table)

mutual

theorem makes_getEnvParserWith {fuel : ℕ}
    {getClass : String → ParserTable → Except EnvError (EnvParser × ParserTable)}
    (hclass : MakesClasses classes fuel getClass) : ∀ (type : EnvType) (table : ParserTable),
    remaining classes table ≤ fuel →
      Makes classes table Known (getEnvParserWith getClass type table)
  | .str, _, _ | .uuid, _, _ | .path, _, _ | .datetime, _, _ | .secretStr, _, _ | .int, _, _
  | .float, _, _ | .bool, _, _ | .none, _, _ | .literal _, _, _ => .ok trivial
  | .annotated inner, table, h => makes_getEnvParserWith hclass inner table h
  | .union alternatives, table, h =>
    (makes_getUnionParsers hclass alternatives table h).bind fun _ _ _ hparsers =>
      .ok (unionDelayedIn_iff.mpr hparsers)
  | .list item, table, h =>
    (makes_getEnvParserWith hclass item table h).bind fun _ _ _ hparser => .ok hparser
  | .dict key value, table, _ => by
    rw [getEnvParserWith]
    split
    · exact .ok trivial
    · exact .error id
  | .parametrized origin, table, h => hclass origin table h
  | .named name, table, h => hclass name table h

theorem makes_getUnionParsers {fuel : ℕ}
    {getClass : String → ParserTable → Except EnvError (EnvParser × ParserTable)}
    (hclass : MakesClasses classes fuel getClass) :
    ∀ (alternatives : List EnvType) (table : ParserTable), remaining classes table ≤ fuel →
      Makes classes table (fun parsers table' => ∀ e ∈ parsers, Known e.2 table')
        (getUnionParsers getClass alternatives table)
  | [], _, _ => .ok (List.forall_mem_nil _)
  | alternative :: alternatives, table, h =>
    (makes_getEnvParserWith hclass alternative table h).bind fun _ table' hgrows hparser =>
      (makes_getUnionParsers hclass alternatives table' (hgrows.remaining_le.trans h)).bind
        fun _ _ hgrows' hparsers =>
          .ok (List.forall_mem_cons.mpr ⟨hparser.grows hgrows', hparsers⟩)

end

end

section
variable {classes : ClassTable} {table : ParserTable} {α : Type}

/-- A class that has no entry yet is delayed while the parsers in its own are made. -/
theorem Makes.fill {name : String} (parser : List (String × EnvParser) → EnvParser)
    {made : Except EnvError (List (String × EnvParser) × ParserTable)}
    {good : List (String × EnvParser) → ParserTable → Prop} (hfresh : table.get name = none)
    (h : Makes classes (table.set name none) good made)
    (hentry : ∀ parsers table', good parsers table' →
      EntryOf classes table'.Has name (parser parsers)) :
    Makes classes table (fun p table' => p = .delayed name ∧ Known p table')
      (made >>= fun r => pure (.delayed name, r.2.set name (some (parser r.1)))) := by
  obtain ⟨hends, hgood⟩ := h
  cases made with
  | error e => exact .error fun he => hends e he rfl
  | ok made =>
      obtain ⟨hgrows, hparsers⟩ := hgood made.1 made.2 rfl
      refine ⟨fun e _ heq => ?_, fun p table' heq => ?_⟩
      · cases heq
      · cases heq
        refine ⟨hgrows.fill hfresh (hentry _ _ hparsers), rfl, some (parser made.1), ?_⟩
        rw [ParserTable.get_set, if_pos rfl]

end

end Resourcey
