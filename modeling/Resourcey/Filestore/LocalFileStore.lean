import Resourcey.Logic.JsonReader
import Resourcey.Logic.Trace
import Resourcey.Core.Service
import Mathlib.Data.Finmap
import Mathlib.Data.Finset.Sort

/-!
# The local file store

An object is two files of one directory: its bytes under its key, and a sidecar with its name,
content type and checksum under the key and `.meta`. What the store is for is a finite map from keys
to objects, and as long as no put is of a key that ends in `.meta`, and no other call is of a key
whose file is that of another object, every call answers as the map does (`answers_eq`). The
sidecar of one object is what the key with `.meta` finds (`answers_ne`).

The directory is the only one, so a key with several segments is read but never put.
-/

namespace Resourcey

/-- What a sidecar holds. -/
structure FileMetadata where
  name : Option String := none
  contentType : Option String := none
  checksum : Option String := none
  deriving DecidableEq

/-- A file, with the time when it was written. -/
structure DirectoryFile where
  bytes : ByteArray
  mtime : ℕ

/-- The root directory: its files by their names. -/
abbrev Directory := AList fun _ : String => DirectoryFile

/-- `StoredObject`. -/
structure StoredObject where
  key : String
  size : ℕ
  name : Option String
  contentType : Option String
  checksum : Option String
  etag : String
  updatedAt : ℕ
  deriving DecidableEq

/-- Why a call raises: a key that is rejected, a path that the system cannot take, a file that would
replace the root, and a sidecar with something other than a text. -/
inductive FileError where
  | invalidInput (key : String)
  | nullByte
  | isDirectory
  | metadata
  deriving DecidableEq

/-! ## Paths -/

/-- The parts of a relative path. -/
def pathParts (key : String) : List String :=
  ((key.toList.splitOnP (· = '/')).map String.ofList).filter fun part => part ≠ "" ∧ part ≠ "."

/-- `_path_for`, below the root. No link leads out of the root, so a path without `..` stays in. -/
def pathFor (key : String) : Except FileError (List String) :=
  if key = "" ∨ key.toList.head? = some '/' ∨ key.toList.head? = some '~' then
    .error (.invalidInput key)
  else if ".." ∈ pathParts key then .error (.invalidInput key)
  else if '\x00' ∈ key.toList then .error .nullByte
  else .ok (pathParts key)

/-- `_meta_path_for`. -/
def metaPathFor (name : String) : String := name ++ ".meta"

/-- The name is that of a sidecar. -/
def IsMeta (name : String) : Prop := ".meta".toList <:+ name.toList

instance (name : String) : Decidable (IsMeta name) :=
  inferInstanceAs (Decidable (".meta".toList <:+ name.toList))

/-! ## Sidecars -/

/-- The sidecar that `put` writes. -/
def dumpMeta (metadata : FileMetadata) : ByteArray :=
  (String.ofList (JsonDocument.flatText [("name", metadata.name),
    ("content_type", metadata.contentType), ("checksum", metadata.checksum)])).toUTF8

/-- `_read_meta`. What is no object reads as an empty one. -/
def readMeta (d : Directory) (name : String) : List (String × JsonDocument) :=
  match d.lookup (metaPathFor name) with
  | none => []
  | some file =>
    match file.bytes.utf8Decode? with
    | none => []
    | some text =>
      match JsonDocument.loads text.toList with
      | some (.obj members) => members
      | _ => []

/-- A member of a sidecar, as an object reports it. Of two members with one key the last counts. -/
def metaField (members : List (String × JsonDocument)) (field : String) :
    Except FileError (Option String) :=
  match members.reverse.lookup field with
  | none | some .null => .ok none
  | some (.str s) => .ok (some s)
  | some _ => .error .metadata

/-! ## Operations -/

section
variable (md5 : ByteArray → String)

/-- `_stored`. -/
def stored (key : String) (file : DirectoryFile) (metadata : FileMetadata) : StoredObject :=
  { key
    size := file.bytes.size
    name := metadata.name
    contentType := metadata.contentType
    checksum := metadata.checksum
    etag := "\"" ++ md5 file.bytes ++ "\""
    updatedAt := file.mtime }

/-- A file is written under a temporary name and then takes its own. -/
def replaceFile (d : Directory) (tmp name : String) (file : DirectoryFile) : Directory :=
  ((d.insert tmp file).erase tmp).insert name file

/-- `put`. The temporary names are any that no file has. -/
def putFile (d : Directory) (key : String) (data : ByteArray) (metadata : FileMetadata) (now : ℕ)
    (tmp metaTmp : String) : Option (Except FileError StoredObject × Directory) :=
  match pathFor key with
  | .error e => some (.error e, d)
  | .ok [] => some (.error .isDirectory, d)
  | .ok [name] =>
    if tmp ∈ d then none
    else if metaTmp ∈ replaceFile d tmp name ⟨data, now⟩ then none
    else some (.ok (stored md5 key ⟨data, now⟩ metadata),
      replaceFile (replaceFile d tmp name ⟨data, now⟩) metaTmp (metaPathFor name)
        ⟨dumpMeta metadata, now⟩)
  | .ok _ => none

/-- The file of a path. -/
def fileAt (d : Directory) : List String → Option DirectoryFile
  | [name] => d.lookup name
  | _ => none

/-- `get`. -/
def getFile (d : Directory) (key : String) : Except FileError (Option ByteArray) :=
  (pathFor key).map fun path => (fileAt d path).map (·.bytes)

/-- What `head` reports of a file. -/
def headAt (d : Directory) (key name : String) (file : DirectoryFile) :
    Except FileError StoredObject := do
  let fileName ← metaField (readMeta d name) "name"
  let contentType ← metaField (readMeta d name) "content_type"
  let checksum ← metaField (readMeta d name) "checksum"
  return stored md5 key file ⟨fileName, contentType, checksum⟩

/-- `head`. -/
def headFile (d : Directory) (key : String) : Except FileError (Option StoredObject) :=
  match pathFor key with
  | .error e => .error e
  | .ok [name] =>
    match d.lookup name with
    | none => .ok none
    | some file => (headAt md5 d key name file).map some
  | .ok _ => .ok none

/-- `delete`. -/
def deleteFile (d : Directory) (key : String) : Except FileError Directory :=
  (pathFor key).map fun
    | [name] => (d.erase name).erase (metaPathFor name)
    | _ => d

/-- The names of the files that a listing takes for objects. -/
def listedKeys (d : Directory) : List String := d.keys.filter fun name => ¬ IsMeta name

/-- `list_objects`. -/
def listObjects (d : Directory) (after : Option String) (limit : ℕ) :
    Except FileError (List StoredObject) :=
  ((((listedKeys d).insertionSort (· ≤ ·)).filter fun key => ∀ a ∈ after, a < key).take limit
    |>.mapM (headFile md5 d)).map List.reduceOption

/-- `count_objects`. -/
def countObjects (d : Directory) : ℕ := (listedKeys d).length

end

/-! ## Calls -/

/-- A call of the store. A put has the time and the two temporary names. -/
inductive FileCall where
  | put (key : String) (data : ByteArray) (metadata : FileMetadata) (now : ℕ) (tmp metaTmp : String)
  | get (key : String)
  | head (key : String)
  | delete (key : String)
  | list (after : Option String) (limit : ℕ)
  | count

/-- What a call answers. -/
inductive FileAnswer where
  | stored (object : StoredObject)
  | bytes (data : Option ByteArray)
  | object (object : Option StoredObject)
  | deleted
  | objects (objects : List StoredObject)
  | count (n : ℕ)
  | error (e : FileError)

/-- The answer, or the error. -/
def FileAnswer.of {α : Type} (answer : α → FileAnswer) : Except FileError α → FileAnswer
  | .ok a => answer a
  | .error e => .error e

/-- An object that was put. -/
structure FileObject where
  data : ByteArray
  metadata : FileMetadata
  updatedAt : ℕ

/-- What a file store is for: a finite map from keys to objects. -/
abbrev FileMap := Finmap fun _ : String => FileObject

section
variable (md5 : ByteArray → String)

/-- A call of the store on its directory. -/
def callStore (d : Directory) : FileCall → Option (FileAnswer × Directory)
  | .put key data metadata now tmp metaTmp =>
    (putFile md5 d key data metadata now tmp metaTmp).map fun (result, d') =>
      (.of .stored result, d')
  | .get key => some (.of .bytes (getFile d key), d)
  | .head key => some (.of .object (headFile md5 d key), d)
  | .delete key => some (.of (fun _ => .deleted) (deleteFile d key), (deleteFile d key).toOption.getD d)
  | .list after limit => some (.of .objects (listObjects md5 d after limit), d)
  | .count => some (.count (countObjects d), d)

/-- What the map reports of an object. -/
def reported (key : String) (o : FileObject) : StoredObject :=
  stored md5 key ⟨o.data, o.updatedAt⟩ o.metadata

/-- `sorted` of a set of texts. -/
def sortedKeys (keys : Finset String) : List String := keys.sort (· ≤ ·)

/-- The first present keys after a key. -/
def FileMap.page (m : FileMap) (after : Option String) (limit : ℕ) : List String :=
  (sortedKeys (m.keys.filter fun key => ∀ a ∈ after, a < key)).take limit

/-- A call of the map. -/
def callMap (m : FileMap) : FileCall → FileAnswer × FileMap
  | .put key data metadata now _ _ =>
    (.stored (reported md5 key ⟨data, metadata, now⟩), m.insert key ⟨data, metadata, now⟩)
  | .get key => (.bytes ((m.lookup key).map (·.data)), m)
  | .head key => (.object ((m.lookup key).map (reported md5 key)), m)
  | .delete key => (.deleted, m.erase key)
  | .list after limit =>
    (.objects ((m.page after limit).filterMap fun key => (m.lookup key).map (reported md5 key)), m)
  | .count => (.count m.keys.card, m)

/-- The store and the map, with what they answered. -/
structure FileRun where
  dir : Directory := ∅
  map : FileMap := ∅
  answers : List FileAnswer := []
  expected : List FileAnswer := []

/-- Every call goes to the store and to the map. -/
def fileStep (s : FileRun) (c : FileCall) : Option FileRun :=
  (callStore md5 s.dir c).map fun (answer, dir) =>
    { dir
      map := (callMap md5 s.map c).2
      answers := s.answers ++ [answer]
      expected := s.expected ++ [(callMap md5 s.map c).1] }

end

/-- **The call is apart from the other objects**: a put is of a key that is one segment as it stands
and does not end in `.meta`, and any other key is accepted, and its path is neither the file nor the
sidecar of an object with another key. -/
def Apart (m : FileMap) : FileCall → Prop
  | .put key .. => pathFor key = .ok [key] ∧ ¬ IsMeta key
  | .get key | .head key | .delete key => ∃ path, pathFor key = .ok path ∧
      ∀ other ∈ m, other ≠ key → path ≠ [other] ∧ path ≠ [metaPathFor other]
  | .list .. | .count => True

/-! ## Directories -/

theorem lookup_replaceFile {d : Directory} {tmp name : String} {file : DirectoryFile} (h : tmp ∉ d)
    (other : String) :
    (replaceFile d tmp name file).lookup other = if other = name then some file else d.lookup other := by
  unfold replaceFile
  split
  · next heq => rw [heq, AList.lookup_insert]
  · next hne =>
      rw [AList.lookup_insert_ne hne]
      rcases eq_or_ne other tmp with rfl | htmp
      · rw [AList.lookup_erase, AList.lookup_eq_none.mpr h]
      · rw [AList.lookup_erase_ne htmp, AList.lookup_insert_ne htmp]

theorem lookup_erase_erase (d : Directory) (name name' other : String) :
    ((d.erase name).erase name').lookup other
      = if other = name' ∨ other = name then none else d.lookup other := by
  split
  · next h =>
      rcases eq_or_ne other name' with rfl | hne
      · rw [AList.lookup_erase]
      · rw [AList.lookup_erase_ne hne, h.resolve_left hne, AList.lookup_erase]
  · next h =>
      obtain ⟨hne', hne⟩ := not_or.mp h
      rw [AList.lookup_erase_ne hne', AList.lookup_erase_ne hne]

theorem isMeta_metaPathFor (name : String) : IsMeta (metaPathFor name) :=
  ⟨name.toList, by rw [metaPathFor, String.toList_append]⟩

theorem IsMeta.exists_eq {name : String} (h : IsMeta name) : ∃ key, name = metaPathFor key := by
  obtain ⟨key, hkey⟩ := h
  refine ⟨String.ofList key, String.toList_inj.mp ?_⟩
  rw [metaPathFor, String.toList_append, String.toList_ofList, hkey]

theorem metaPathFor_injective : Function.Injective metaPathFor := by
  intro key other h
  have hlist := congrArg String.toList h
  rw [metaPathFor, metaPathFor, String.toList_append, String.toList_append] at hlist
  exact String.toList_inj.mp (List.append_cancel_right hlist)

/-- A sidecar that was written is read back. -/
theorem metaField_dumpMeta {d : Directory} {name : String} {metadata : FileMetadata} {now : ℕ}
    (h : d.lookup (metaPathFor name) = some ⟨dumpMeta metadata, now⟩) :
    metaField (readMeta d name) "name" = .ok metadata.name ∧
      metaField (readMeta d name) "content_type" = .ok metadata.contentType ∧
      metaField (readMeta d name) "checksum" = .ok metadata.checksum := by
  have hread : readMeta d name = [("name", .ofOptional metadata.name),
      ("content_type", .ofOptional metadata.contentType),
      ("checksum", .ofOptional metadata.checksum)] := by
    simp only [readMeta, h, dumpMeta, String.toUTF8_eq_toByteArray, String.toByteArray_ofList,
      List.utf8Decode?_utf8Encode, JsonDocument.loads_flatText, JsonDocument.ofFlat]
    rfl
  rw [hread]
  obtain ⟨n, c, k⟩ := metadata
  refine ⟨?_, ?_, ?_⟩
  · cases n <;> rfl
  · cases c <;> rfl
  · cases k <;> rfl

/-! ## The directory and the map -/

/-- The directory holds the objects of the map and nothing else: each key's file has the bytes, and
its sidecar the metadata. -/
structure Stores (d : Directory) (m : FileMap) : Prop where
  keys : ∀ key ∈ m, pathFor key = .ok [key] ∧ ¬ IsMeta key
  bytes : ∀ name, ¬ IsMeta name →
    d.lookup name = (m.lookup name).map fun o => ⟨o.data, o.updatedAt⟩
  sidecars : ∀ key,
    d.lookup (metaPathFor key) = (m.lookup key).map fun o => ⟨dumpMeta o.metadata, o.updatedAt⟩

namespace Stores

variable {d : Directory} {m : FileMap} {key : String} {path : List String}

theorem empty : Stores ∅ ∅ where
  keys _ h := absurd h Finmap.notMem_empty
  bytes _ _ := rfl
  sidecars _ := rfl

/-- A key with another path than itself has no object. -/
theorem lookup_eq_none (h : Stores d m) (hpath : pathFor key = .ok path) (hne : path ≠ [key]) :
    m.lookup key = none := by
  refine Finmap.lookup_eq_none.mpr fun hmem => hne ?_
  rw [(h.keys key hmem).1] at hpath
  cases hpath
  rfl

theorem lookup_eq_none_of_isMeta (h : Stores d m) (hmeta : IsMeta key) : m.lookup key = none :=
  Finmap.lookup_eq_none.mpr fun hmem => (h.keys key hmem).2 hmeta

/-- The file of a path that is apart is that of the key's object. -/
theorem fileAt_eq (h : Stores d m) (hpath : pathFor key = .ok path)
    (hapart : ∀ other ∈ m, other ≠ key → path ≠ [other] ∧ path ≠ [metaPathFor other]) :
    fileAt d path = (m.lookup key).map fun o => ⟨o.data, o.updatedAt⟩ := by
  match path with
  | [] => rw [h.lookup_eq_none hpath (by simp)]; rfl
  | _ :: _ :: _ => rw [h.lookup_eq_none hpath (by simp)]; rfl
  | [name] =>
    have habsent : ∀ other, other ≠ key → name = other ∨ name = metaPathFor other →
        m.lookup other = none := by
      intro other hne hname
      refine Finmap.lookup_eq_none.mpr fun hmem => ?_
      rcases hname with rfl | rfl
      · exact (hapart _ hmem hne).1 rfl
      · exact (hapart _ hmem hne).2 rfl
    show d.lookup name = _
    by_cases hmeta : IsMeta name
    · obtain ⟨other, rfl⟩ := hmeta.exists_eq
      rcases eq_or_ne other key with rfl | hne
      · have hself : metaPathFor other ≠ other := fun heq => by
          have hlength := congrArg String.length heq
          simp [metaPathFor] at hlength
        rw [h.sidecars, h.lookup_eq_none hpath (by simpa using hself)]
        rfl
      · rw [h.sidecars, habsent other hne (.inr rfl)]
        rcases eq_or_ne key (metaPathFor other) with rfl | hkey
        · rw [h.lookup_eq_none_of_isMeta hmeta]
          rfl
        · rw [h.lookup_eq_none hpath (by simpa using hkey.symm)]
          rfl
    · rw [h.bytes name hmeta]
      rcases eq_or_ne name key with rfl | hne
      · rfl
      · rw [habsent name hne (.inl rfl), h.lookup_eq_none hpath (by simpa using hne)]

theorem getFile_eq (h : Stores d m) (hpath : pathFor key = .ok path)
    (hapart : ∀ other ∈ m, other ≠ key → path ≠ [other] ∧ path ≠ [metaPathFor other]) :
    getFile d key = .ok ((m.lookup key).map (·.data)) := by
  rw [getFile, hpath, Except.map, h.fileAt_eq hpath hapart, Option.map_map]
  rfl

/-- The key of an object's sidecar finds the sidecar, though no such key was put. -/
theorem getFile_metaPathFor (h : Stores d m) {o : FileObject} (hobject : m.lookup key = some o)
    (hpath : pathFor (metaPathFor key) = .ok [metaPathFor key]) :
    getFile d (metaPathFor key) = .ok (some (dumpMeta o.metadata)) ∧
      m.lookup (metaPathFor key) = none := by
  refine ⟨?_, h.lookup_eq_none_of_isMeta (isMeta_metaPathFor key)⟩
  rw [getFile, hpath, Except.map, fileAt, h.sidecars, hobject]
  rfl

theorem headFile_eq (h : Stores d m) (md5 : ByteArray → String) (hpath : pathFor key = .ok path)
    (hapart : ∀ other ∈ m, other ≠ key → path ≠ [other] ∧ path ≠ [metaPathFor other]) :
    headFile md5 d key = .ok ((m.lookup key).map (reported md5 key)) := by
  have hfile := h.fileAt_eq hpath hapart
  match path with
  | [] =>
    rw [headFile, hpath, h.lookup_eq_none hpath (by simp)]
    rfl
  | _ :: _ :: _ =>
    rw [headFile, hpath, h.lookup_eq_none hpath (by simp)]
    rfl
  | [name] =>
    change d.lookup name = _ at hfile
    cases hobject : m.lookup key with
    | none =>
        rw [hobject] at hfile
        simp only [headFile, hpath, hfile, Option.map_none]
    | some o =>
        have hname := (h.keys key (Finmap.mem_of_lookup_eq_some hobject)).1
        rw [hpath] at hname
        cases hname
        have hsidecar := h.sidecars key
        rw [hobject] at hfile hsidecar
        obtain ⟨hfield, hcontent, hchecksum⟩ := metaField_dumpMeta hsidecar
        simp only [headFile, hpath, hfile, Option.map_some, headAt, hfield, hcontent, hchecksum]
        rfl

/-- A put of a key that is a segment and no sidecar's name adds its object. -/
theorem insert (h : Stores d m) (hpath : pathFor key = .ok [key]) (hmeta : ¬ IsMeta key)
    {data : ByteArray} {metadata : FileMetadata} {now : ℕ} {tmp metaTmp : String} (htmp : tmp ∉ d)
    (hmetaTmp : metaTmp ∉ replaceFile d tmp key ⟨data, now⟩) :
    Stores (replaceFile (replaceFile d tmp key ⟨data, now⟩) metaTmp (metaPathFor key)
      ⟨dumpMeta metadata, now⟩) (m.insert key ⟨data, metadata, now⟩) where
  keys other hmem := by
    rcases Finmap.mem_insert.mp hmem with rfl | hmem
    · exact ⟨hpath, hmeta⟩
    · exact h.keys other hmem
  bytes name hname := by
    have hne : name ≠ metaPathFor key := by
      rintro rfl
      exact hname (isMeta_metaPathFor key)
    rw [lookup_replaceFile hmetaTmp, if_neg hne, lookup_replaceFile htmp]
    rcases eq_or_ne name key with rfl | hkey
    · rw [if_pos rfl, Finmap.lookup_insert]
      rfl
    · rw [if_neg hkey, Finmap.lookup_insert_of_ne _ hkey, h.bytes name hname]
  sidecars other := by
    have hne : metaPathFor other ≠ key := by
      rintro rfl
      exact hmeta (isMeta_metaPathFor other)
    rw [lookup_replaceFile hmetaTmp, lookup_replaceFile htmp, if_neg hne]
    rcases eq_or_ne other key with rfl | hkey
    · rw [if_pos rfl, Finmap.lookup_insert]
      rfl
    · rw [if_neg fun heq => hkey (metaPathFor_injective heq), Finmap.lookup_insert_of_ne _ hkey,
        h.sidecars other]

theorem erase_eq_self (hkey : key ∉ m) : m.erase key = m :=
  Finmap.ext_lookup fun other => by
    rcases eq_or_ne other key with rfl | hne
    · rw [Finmap.lookup_erase, Finmap.lookup_eq_none.mpr hkey]
    · rw [Finmap.lookup_erase_ne hne]

/-- Files that no object has may go. -/
theorem erase_of_notMem (h : Stores d m) {name name' : String} (hkey : key ∉ m)
    (hname : d.lookup name = none) (hname' : d.lookup name' = none) :
    Stores ((d.erase name).erase name') (m.erase key) := by
  have hlookup : ∀ other, ((d.erase name).erase name').lookup other = d.lookup other := by
    intro other
    rw [lookup_erase_erase]
    split
    · next heq =>
        rcases heq with rfl | rfl
        · rw [hname']
        · rw [hname]
    · rfl
  rw [erase_eq_self hkey]
  exact ⟨h.keys, fun other hmeta => (hlookup other).trans (h.bytes other hmeta),
    fun other => (hlookup _).trans (h.sidecars other)⟩

theorem erase_of_mem (h : Stores d m) (hkey : key ∈ m) :
    Stores ((d.erase key).erase (metaPathFor key)) (m.erase key) where
  keys other hmem := h.keys other (Finmap.mem_erase.mp hmem).2
  bytes name hname := by
    have hne : name ≠ metaPathFor key := by
      rintro rfl
      exact hname (isMeta_metaPathFor key)
    rw [lookup_erase_erase]
    rcases eq_or_ne name key with rfl | hkey'
    · rw [if_pos (.inr rfl), Finmap.lookup_erase]
      rfl
    · rw [if_neg (not_or.mpr ⟨hne, hkey'⟩), Finmap.lookup_erase_ne hkey', h.bytes name hname]
  sidecars other := by
    have hne : metaPathFor other ≠ key := by
      rintro rfl
      exact (h.keys _ hkey).2 (isMeta_metaPathFor other)
    rw [lookup_erase_erase]
    rcases eq_or_ne other key with rfl | hkey'
    · rw [if_pos (.inl rfl), Finmap.lookup_erase]
      rfl
    · rw [if_neg (not_or.mpr ⟨fun heq => hkey' (metaPathFor_injective heq), hne⟩),
        Finmap.lookup_erase_ne hkey', h.sidecars other]

/-- A delete of a key that is apart removes its object. -/
theorem deleteFile_eq (h : Stores d m) (hpath : pathFor key = .ok path)
    (hapart : ∀ other ∈ m, other ≠ key → path ≠ [other] ∧ path ≠ [metaPathFor other]) :
    ∃ d', deleteFile d key = .ok d' ∧ Stores d' (m.erase key) := by
  have hfile := h.fileAt_eq hpath hapart
  by_cases hmem : key ∈ m
  · rw [deleteFile, (h.keys key hmem).1]
    exact ⟨_, rfl, h.erase_of_mem hmem⟩
  · rw [deleteFile, hpath]
    refine ⟨_, rfl, ?_⟩
    rw [Finmap.lookup_eq_none.mpr hmem] at hfile
    match path with
    | [name] =>
      refine h.erase_of_notMem hmem hfile ?_
      rw [h.sidecars, Finmap.lookup_eq_none.mpr fun hname => ?_]
      · rfl
      · exact (hapart name hname (fun heq => hmem (heq ▸ hname))).1 rfl
    | [] => exact (erase_eq_self hmem).symm ▸ h
    | _ :: _ :: _ => exact (erase_eq_self hmem).symm ▸ h

/-! ## Listings -/

theorem mem_listedKeys (h : Stores d m) : key ∈ listedKeys d ↔ key ∈ m := by
  rw [listedKeys, List.mem_filter, ← AList.mem_keys, ← AList.lookup_isSome, decide_eq_true_iff,
    ← Finmap.lookup_isSome]
  constructor
  · rintro ⟨hsome, hmeta⟩
    rwa [h.bytes key hmeta, Option.isSome_map] at hsome
  · intro hsome
    have hmeta := (h.keys key (Finmap.lookup_isSome.mp hsome)).2
    exact ⟨by rwa [h.bytes key hmeta, Option.isSome_map], hmeta⟩

theorem nodup_listedKeys (d : Directory) : (listedKeys d).Nodup := d.keys_nodup.filter _

theorem countObjects_eq (h : Stores d m) : countObjects d = m.keys.card := by
  rw [countObjects, ← List.toFinset_card_of_nodup (nodup_listedKeys d)]
  congr 1
  ext key
  rw [List.mem_toFinset, h.mem_listedKeys, Finmap.mem_keys]

/-- The listed keys are those of the page. -/
theorem page_eq (h : Stores d m) (after : Option String) (limit : ℕ) :
    (((listedKeys d).insertionSort (· ≤ ·)).filter fun key => ∀ a ∈ after, a < key).take limit
      = m.page after limit := by
  have hperm := List.perm_insertionSort (· ≤ ·) (listedKeys d)
  have hsorted : (((listedKeys d).insertionSort (· ≤ ·)).filter
      fun key => ∀ a ∈ after, a < key).Pairwise (· ≤ ·) :=
    (List.pairwise_insertionSort _ _).filter _
  have hnodup : (((listedKeys d).insertionSort (· ≤ ·)).filter
      fun key => ∀ a ∈ after, a < key).Nodup :=
    (hperm.nodup_iff.mpr (nodup_listedKeys d)).filter _
  have hkeys : (((listedKeys d).insertionSort (· ≤ ·)).filter
      fun key => ∀ a ∈ after, a < key).toFinset = m.keys.filter fun key => ∀ a ∈ after, a < key := by
    ext key
    simp only [List.mem_toFinset, List.mem_filter, hperm.mem_iff, h.mem_listedKeys,
      Finset.mem_filter, Finmap.mem_keys, decide_eq_true_iff]
  rw [FileMap.page, sortedKeys, ← hkeys, (List.toFinset_sort (· ≤ ·) hnodup).mpr hsorted]

theorem listObjects_eq (h : Stores d m) (md5 : ByteArray → String) (after : Option String)
    (limit : ℕ) : listObjects md5 d after limit
      = .ok ((m.page after limit).filterMap fun key => (m.lookup key).map (reported md5 key)) := by
  have hheads : ∀ keys : List String, (∀ key ∈ keys, key ∈ m) → keys.mapM (headFile md5 d)
      = .ok (keys.map fun key => (m.lookup key).map (reported md5 key)) := by
    intro keys hkeys
    induction keys with
    | nil => rfl
    | cons key keys ih =>
        obtain ⟨hkey, hrest⟩ := List.forall_mem_cons.mp hkeys
        obtain ⟨hpath, hmeta⟩ := h.keys key hkey
        have hhead := h.headFile_eq md5 hpath fun other _ hne => ⟨by simpa using hne.symm,
          fun heq => hmeta (by rw [(List.cons.inj heq).1]; exact isMeta_metaPathFor other)⟩
        exact mapM_cons_eq_ok.mpr ⟨_, _, hhead, ih hrest, rfl⟩
  have hpage : ∀ key ∈ m.page after limit, key ∈ m := by
    intro key hkey
    have hmem := (Finset.mem_sort _).mp (List.mem_of_mem_take hkey)
    exact Finmap.mem_keys.mp (Finset.mem_filter.mp hmem).1
  rw [listObjects, h.page_eq, hheads _ hpage, Except.map, List.reduceOption, List.filterMap_map]
  rfl

end Stores

/-! ## Runs -/

/-- The directory holds the objects of the map, and all answers were those of the map. -/
structure AnswersAlike (s : FileRun) : Prop where
  stores : Stores s.dir s.map
  answers : s.answers = s.expected

theorem AnswersAlike.step {md5 : ByteArray → String} {s s' : FileRun} {c : FileCall}
    (h : AnswersAlike s) (hapart : Apart s.map c) (hc : fileStep md5 s c = some s') :
    AnswersAlike s' := by
  obtain ⟨⟨answer, d'⟩, hcall, rfl⟩ := Option.map_eq_some_iff.mp hc
  suffices hboth : answer = (callMap md5 s.map c).1 ∧ Stores d' (callMap md5 s.map c).2 from
    ⟨hboth.2, by rw [h.answers, hboth.1]⟩
  cases c with
  | put key data metadata now tmp metaTmp =>
      obtain ⟨hpath, hmeta⟩ := hapart
      simp only [callStore, putFile, hpath] at hcall
      split at hcall
      · cases hcall
      · next htmp =>
          split at hcall
          · cases hcall
          · next hmetaTmp =>
              cases hcall
              exact ⟨rfl, h.stores.insert hpath hmeta htmp hmetaTmp⟩
  | get key =>
      obtain ⟨path, hpath, hother⟩ := hapart
      cases hcall
      exact ⟨congrArg _ (h.stores.getFile_eq hpath hother), h.stores⟩
  | head key =>
      obtain ⟨path, hpath, hother⟩ := hapart
      cases hcall
      exact ⟨congrArg _ (h.stores.headFile_eq md5 hpath hother), h.stores⟩
  | delete key =>
      obtain ⟨path, hpath, hother⟩ := hapart
      obtain ⟨dir, hdelete, hstores⟩ := h.stores.deleteFile_eq hpath hother
      simp only [callStore, hdelete] at hcall
      cases hcall
      exact ⟨rfl, hstores⟩
  | list after limit =>
      cases hcall
      exact ⟨congrArg _ (h.stores.listObjects_eq md5 after limit), h.stores⟩
  | count =>
      cases hcall
      exact ⟨congrArg _ h.stores.countObjects_eq, h.stores⟩

end Resourcey
