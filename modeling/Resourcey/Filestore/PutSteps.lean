import Resourcey.Filestore.LocalFileStore

/-!
# The steps of a put

A put makes a temporary file in the directory of the store, writes the bytes, and renames it to the
key's file; then it does the same with the sidecar. Any step may fail: the temporary file is
unlinked, if that does not fail too, and the put raises. Calls of other processes come between the
steps, and should answer as the directory before the put does or as the one after it.

The files stand in the directory that the calls read. A temporary file is listed and counted, between
the two renames new bytes are reported with the old sidecar, and a put that raises after the first
rename leaves the new bytes. With none of that in a run, every call in it answers as it should
(`FilePut.seen_atomic`).
-/

namespace Resourcey

/-! ## Calls that read -/

/-- A call that reads the store. -/
inductive FileReader where
  | get (key : String)
  | head (key : String)
  | list (after : Option String) (limit : ℕ)
  | count

/-- The keys of a listing. -/
def listPage (d : Directory) (after : Option String) (limit : ℕ) : List String :=
  (((listedKeys d).insertionSort (· ≤ ·)).filter fun key => ∀ a ∈ after, a < key).take limit

namespace FileReader

/-- What a call answers on a directory. -/
def answer (md5 : ByteArray → String) (d : Directory) : FileReader → FileAnswer
  | .get key => .of .bytes (getFile d key)
  | .head key => .of .object (headFile md5 d key)
  | .list after limit => .of .objects (listObjects md5 d after limit)
  | .count => .count (countObjects d)

/-- The keys that a call is about. -/
def keys (d : Directory) : FileReader → List String
  | .get key | .head key => [key]
  | .list after limit => listPage d after limit
  | .count => listedKeys d

/-- The call reports what sidecars hold. -/
def ReadsMeta : FileReader → Prop
  | .head _ | .list .. => True
  | .get _ | .count => False

end FileReader

/-- The root directory of a store: the name of a file has no separator. -/
structure RootDirectory where
  files : Directory
  names : ∀ name ∈ files, '/' ∉ name.toList

/-! ## Steps -/

/-- A call of `put` whose key is a single segment. What `mkstemp` gives is a plain name. -/
structure FilePut where
  key : String
  name : String
  data : ByteArray
  metadata : FileMetadata
  now : ℕ
  tmp : String
  metaTmp : String
  path : pathFor key = .ok [name]
  tmp_path : pathFor tmp = .ok [tmp]
  tmp_not_meta : ¬ IsMeta tmp
  metaTmp_path : pathFor metaTmp = .ok [metaTmp]
  metaTmp_not_meta : ¬ IsMeta metaTmp

/-- How far a put has come: before one of its two halves, with so many bytes in the temporary file,
after both, or at its end. The second half is that of the sidecar. -/
inductive PutPhase where
  | before (sidecar : Bool)
  | writing (sidecar : Bool) (written : ℕ)
  | stored
  | returned
  | raised
  deriving DecidableEq

/-- A step of the put, or a call by another process. A step that fails unlinks the temporary file,
or fails to. -/
inductive PutAction where
  | makeTemp
  | write (n : ℕ)
  | replace
  | report
  | fail (unlinked : Bool)
  | call (reader : FileReader)

/-- An answer, and whether the put had raised before. -/
structure SeenAnswer where
  raised : Bool
  reader : FileReader
  answer : FileAnswer

/-- The directory, the phase of the put, and what other processes have seen. -/
structure PutState where
  dir : Directory
  phase : PutPhase := .before false
  seen : List SeenAnswer := []

namespace FilePut

variable (md5 : ByteArray → String) (p : FilePut)

/-- The temporary file of a half. -/
def temp (sidecar : Bool) : String := if sidecar then p.metaTmp else p.tmp

/-- The file that a half is to write. -/
def target (sidecar : Bool) : String := if sidecar then metaPathFor p.name else p.name

/-- What a half is to write. -/
def contents (sidecar : Bool) : ByteArray := if sidecar then dumpMeta p.metadata else p.data

/-- The temporary file with so many bytes. -/
def partFile (sidecar : Bool) (n : ℕ) : DirectoryFile := ⟨(p.contents sidecar).extract 0 n, p.now⟩

/-- A step. -/
def step (s : PutState) : PutAction → Option PutState
  | .makeTemp =>
    match s.phase with
    | .before sidecar =>
      if p.temp sidecar ∈ s.dir then none
      else some { s with
        dir := s.dir.insert (p.temp sidecar) (p.partFile sidecar 0)
        phase := .writing sidecar 0 }
    | _ => none
  | .write n =>
    match s.phase with
    | .writing sidecar written =>
      if written ≤ n ∧ n ≤ (p.contents sidecar).size then some { s with
        dir := s.dir.insert (p.temp sidecar) (p.partFile sidecar n)
        phase := .writing sidecar n }
      else none
    | _ => none
  | .replace =>
    match s.phase with
    | .writing sidecar written =>
      if written = (p.contents sidecar).size then
        (s.dir.lookup (p.temp sidecar)).map fun file => { s with
          dir := (s.dir.erase (p.temp sidecar)).insert (p.target sidecar) file
          phase := if sidecar then .stored else .before true }
      else none
    | _ => none
  | .report =>
    match s.phase with
    | .stored => some { s with phase := .returned }
    | _ => none
  | .fail unlinked =>
    match s.phase with
    | .before _ | .stored => some { s with phase := .raised }
    | .writing sidecar _ => some { s with
        dir := if unlinked then s.dir.erase (p.temp sidecar) else s.dir
        phase := .raised }
    | .returned | .raised => none
  | .call reader => some { s with
      seen := s.seen ++ [⟨s.phase = .raised, reader, reader.answer md5 s.dir⟩] }

/-- The directory between the two renames. -/
def renamed (d : Directory) : Directory := d.insert p.name ⟨p.data, p.now⟩

/-- The directory after the put. -/
def after (d : Directory) : Directory :=
  (p.renamed d).insert (metaPathFor p.name) ⟨dumpMeta p.metadata, p.now⟩

/-- **What other processes should see**: the directory before the put or, if it has not raised, that
after it. -/
def Atomic (d : Directory) (seen : List SeenAnswer) : Prop :=
  ∀ e ∈ seen, e.answer = e.reader.answer md5 d ∨
    e.raised = false ∧ e.answer = e.reader.answer md5 (p.after d)

/-- The sidecar already reads as the one that is to be written. -/
def SidecarReads (d : Directory) : Prop :=
  metaField (readMeta d p.name) "name" = .ok p.metadata.name ∧
    metaField (readMeta d p.name) "content_type" = .ok p.metadata.contentType ∧
    metaField (readMeta d p.name) "checksum" = .ok p.metadata.checksum

/-- The call does not report the object with its old sidecar. -/
def SidecarUnread (d : Directory) (reader : FileReader) : Prop :=
  reader.ReadsMeta →
    (∀ key ∈ reader.keys d, pathFor key ≠ .ok [p.name]) ∨ p.SidecarReads d

/-- **Nothing unfinished is noticed**: a step fails only before the bytes are renamed, and then the
temporary file is unlinked; a call is not about a temporary file; and between the renames it does
not report the object, unless the sidecar reads as it will. -/
def Unnoticed (s : PutState) : PutAction → Prop
  | .fail unlinked =>
    match s.phase with
    | .before false => True
    | .writing false _ => unlinked = true
    | _ => False
  | .call reader =>
    match s.phase with
    | .before true => p.SidecarUnread s.dir reader
    | .writing sidecar _ => (∀ key ∈ reader.keys s.dir, pathFor key ≠ .ok [p.temp sidecar]) ∧
        (sidecar = true → p.SidecarUnread s.dir reader)
    | _ => True
  | _ => True

end FilePut

/-! ## Paths -/

/-- The pieces of a split have no separator. -/
theorem all_splitOnP {α : Type} (q : α → Bool) (l : List α) :
    ((l.splitOnP q).all fun piece => piece.all (!q ·)) = true := by
  induction l with
  | nil => rfl
  | cons a l ih =>
      rw [List.splitOnP_cons_eq_if_modifyHead]
      cases ha : q a with
      | true => simpa using ih
      | false =>
          cases hpieces : l.splitOnP q with
          | nil => exact absurd hpieces (List.splitOnP_ne_nil q l)
          | cons piece pieces => simpa [hpieces, ha] using ih

/-- The segments of a path have no separator. -/
theorem separator_not_mem {key name : String} (h : pathFor key = .ok [name]) :
    '/' ∉ name.toList := by
  have hparts : pathParts key = [name] := by
    unfold pathFor at h
    split at h
    · cases h
    · split at h
      · cases h
      · split at h
        · cases h
        · exact Except.ok.inj h
  have hmem : name ∈ pathParts key := hparts ▸ .head _
  obtain ⟨part, hpart, rfl⟩ := List.mem_map.mp (List.mem_filter.mp hmem).1
  rw [String.toList_ofList]
  intro hslash
  have hpieces := List.all_eq_true.mp (all_splitOnP (fun c => decide (c = '/')) key.toList)
  exact absurd (List.all_eq_true.mp (hpieces part hpart) _ hslash) (by decide)

/-- The path of a name without a separator is that name. -/
theorem eq_of_pathFor {key name : String} (hkey : '/' ∉ key.toList)
    (h : pathFor key = .ok [name]) : name = key := by
  have hsplit : key.toList.splitOnP (· = '/') = [key.toList] := by
    refine List.splitOnP_eq_singleton fun c hc => ?_
    have hne : c ≠ '/' := fun heq => hkey (heq ▸ hc)
    simpa using hne
  unfold pathFor pathParts at h
  rw [hsplit, List.map_singleton, String.ofList_toList] at h
  split at h
  · cases h
  · split at h
    · cases h
    · split at h
      · cases h
      · have hmem : name ∈ [key].filter fun part => part ≠ "" ∧ part ≠ "." :=
          Except.ok.inj h ▸ .head _
        exact List.mem_singleton.mp (List.mem_filter.mp hmem).1

/-! ## What a call depends on -/

section
variable {md5 : ByteArray → String} {d d' : Directory} {key t : String} {f : DirectoryFile}

theorem erase_insert (h : t ∉ d) : (d.insert t f).erase t = d := by
  refine AList.ext ?_
  show List.kerase t (d.insert t f).entries = d.entries
  rw [AList.entries_insert_of_notMem h]
  exact List.kerase_cons_eq rfl

theorem readMeta_congr {name : String}
    (h : d.lookup (metaPathFor name) = d'.lookup (metaPathFor name)) :
    readMeta d name = readMeta d' name := by
  rw [readMeta, readMeta, h]

theorem getFile_congr (h : ∀ name, pathFor key = .ok [name] → d.lookup name = d'.lookup name) :
    getFile d key = getFile d' key := by
  unfold getFile
  match hpath : pathFor key with
  | .error e => rfl
  | .ok [] => rfl
  | .ok [name] => simp only [Except.map, fileAt, h name hpath]
  | .ok (_ :: _ :: _) => rfl

theorem headFile_congr (h : ∀ name, pathFor key = .ok [name] → d.lookup name = d'.lookup name ∧
    ∀ file, headAt md5 d key name file = headAt md5 d' key name file) :
    headFile md5 d key = headFile md5 d' key := by
  unfold headFile
  match hpath : pathFor key with
  | .error e => rfl
  | .ok [] => rfl
  | .ok [name] => simp only [(h name hpath).1, (h name hpath).2]
  | .ok (_ :: _ :: _) => rfl

theorem headAt_congr {name : String} (file : DirectoryFile)
    (h : d.lookup (metaPathFor name) = d'.lookup (metaPathFor name)) :
    headAt md5 d key name file = headAt md5 d' key name file := by
  rw [headAt, headAt, readMeta_congr h]

theorem listObjects_congr {after : Option String} {limit : ℕ}
    (hpage : listPage d after limit = listPage d' after limit)
    (h : ∀ key ∈ listPage d after limit, headFile md5 d key = headFile md5 d' key) :
    listObjects md5 d after limit = listObjects md5 d' after limit := by
  change ((listPage d after limit).mapM (headFile md5 d)).map List.reduceOption
    = ((listPage d' after limit).mapM (headFile md5 d')).map List.reduceOption
  rw [← hpage]
  congr 1
  generalize listPage d after limit = keys at h
  induction keys with
  | nil => rfl
  | cons key keys ih =>
      obtain ⟨hkey, hrest⟩ := List.forall_mem_cons.mp h
      rw [List.mapM_cons, List.mapM_cons, hkey, ih hrest]

theorem perm_listedKeys (h : ∀ name, ¬ IsMeta name → (name ∈ d ↔ name ∈ d')) :
    (listedKeys d).Perm (listedKeys d') := by
  refine (List.perm_ext_iff_of_nodup (Stores.nodup_listedKeys d)
    (Stores.nodup_listedKeys d')).mpr fun name => ?_
  rw [listedKeys, listedKeys, List.mem_filter, List.mem_filter, ← AList.mem_keys, ← AList.mem_keys,
    decide_eq_true_iff]
  exact and_congr_left fun hmeta => h name hmeta

theorem listPage_congr (h : ∀ name, ¬ IsMeta name → (name ∈ d ↔ name ∈ d'))
    (after : Option String) (limit : ℕ) : listPage d after limit = listPage d' after limit := by
  have hsort : (listedKeys d).insertionSort (· ≤ ·) = (listedKeys d').insertionSort (· ≤ ·) :=
    (((List.perm_insertionSort _ _).trans (perm_listedKeys h)).trans
      (List.perm_insertionSort _ _).symm).eq_of_pairwise' (List.pairwise_insertionSort _ _)
        (List.pairwise_insertionSort _ _)
  rw [listPage, listPage, hsort]

theorem countObjects_congr (h : ∀ name, ¬ IsMeta name → (name ∈ d ↔ name ∈ d')) :
    countObjects d = countObjects d' := (perm_listedKeys h).length_eq

/-- What is inserted past the end of a page does not change it. -/
theorem take_filter_orderedInsert {q : String → Bool} {l : List String} {n : ℕ}
    (h : t ∉ ((l.orderedInsert (· ≤ ·) t).filter q).take n) :
    ((l.orderedInsert (· ≤ ·) t).filter q).take n = (l.filter q).take n := by
  have hfirst (l : List String) (n : ℕ) (h : t ∉ ((t :: l).filter q).take n) :
      ((t :: l).filter q).take n = (l.filter q).take n := by
    rw [List.filter_cons] at h ⊢
    split at h
    · next hq =>
        cases n with
        | zero => rfl
        | succ n => exact absurd (.head _) h
    · next hq => rw [if_neg hq]
  induction l generalizing n with
  | nil => exact hfirst [] n h
  | cons b l ih =>
      rw [List.orderedInsert_cons] at h ⊢
      split
      · next hle =>
          rw [if_pos hle] at h
          exact hfirst _ n h
      · next hle =>
          rw [if_neg hle, List.filter_cons] at h
          rw [List.filter_cons, List.filter_cons]
          split
          · next hb =>
              rw [if_pos hb] at h
              cases n with
              | zero => rfl
              | succ n => exact congrArg (b :: ·) (ih fun hmem => h (.tail _ hmem))
          · next hb =>
              rw [if_neg hb] at h
              exact ih h

theorem listedKeys_insert (ht : t ∉ d) (hmeta : ¬ IsMeta t) :
    listedKeys (d.insert t f) = t :: listedKeys d := by
  rw [listedKeys, AList.keys_insert, List.erase_of_not_mem (AList.mem_keys.not.mpr ht),
    List.filter_cons_of_pos (by simpa using hmeta), listedKeys]

variable (md5) in
/-- **A call that is not about a new file does not notice it.** -/
theorem FileReader.answer_insert {r : FileReader} (ht : t ∉ d) (hmeta : ¬ IsMeta t)
    (hpath : pathFor t = .ok [t])
    (h : ∀ key ∈ r.keys (d.insert t f), pathFor key ≠ .ok [t]) :
    r.answer md5 (d.insert t f) = r.answer md5 d ∧ r.keys (d.insert t f) = r.keys d := by
  have hlookup {key name : String} (hne : pathFor key ≠ .ok [t]) (hname : pathFor key = .ok [name]) :
      (d.insert t f).lookup name = d.lookup name :=
    AList.lookup_insert_ne fun heq => hne (heq ▸ hname)
  have hhead {key : String} (hne : pathFor key ≠ .ok [t]) :
      headFile md5 (d.insert t f) key = headFile md5 d key := by
    refine headFile_congr fun name hname => ⟨hlookup hne hname, fun file => headAt_congr file ?_⟩
    exact AList.lookup_insert_ne fun heq => hmeta (heq ▸ isMeta_metaPathFor name)
  cases r with
  | get key => exact ⟨congrArg (FileAnswer.of .bytes) (getFile_congr fun name => hlookup (h key (.head _))), rfl⟩
  | head key => exact ⟨congrArg (FileAnswer.of .object) (hhead (h key (.head _))), rfl⟩
  | list after limit =>
      have hpage : listPage (d.insert t f) after limit = listPage d after limit := by
        have hnot : t ∉ listPage (d.insert t f) after limit := fun hmem => h t hmem hpath
        unfold listPage at hnot ⊢
        rw [listedKeys_insert ht hmeta] at hnot ⊢
        exact take_filter_orderedInsert hnot
      exact ⟨congrArg (FileAnswer.of .objects)
        (listObjects_congr hpage fun key hkey => hhead (h key hkey)), hpage⟩
  | count =>
      have hmem : t ∈ listedKeys (d.insert t f) := listedKeys_insert ht hmeta ▸ .head _
      exact absurd hpath (h t hmem)

end

namespace FilePut

variable {md5 : ByteArray → String} {p : FilePut} {d : Directory} {r : FileReader}

/-! ## Between the renames -/

theorem metaPathFor_ne_self (name : String) : metaPathFor name ≠ name := fun h => by
  have hlength := congrArg String.length h
  simp [metaPathFor] at hlength

theorem metaPathFor_metaPathFor_ne (name : String) : metaPathFor (metaPathFor name) ≠ name :=
  fun h => by
    have hlength := congrArg String.length h
    have hmeta : ".meta".length = 5 := rfl
    simp only [metaPathFor, String.length_append] at hlength
    omega

theorem lookup_after_of_ne {name : String} (h : name ≠ metaPathFor p.name) :
    (p.after d).lookup name = (p.renamed d).lookup name := AList.lookup_insert_ne h

theorem lookup_renamed_of_ne {name : String} (h : name ≠ p.name) :
    (p.renamed d).lookup name = d.lookup name := AList.lookup_insert_ne h

/-- The sidecar reads as what was put. -/
theorem sidecarReads_after : p.SidecarReads (p.after d) := by
  have hlookup : (p.after d).lookup (metaPathFor p.name) = some ⟨dumpMeta p.metadata, p.now⟩ :=
    AList.lookup_insert _
  exact metaField_dumpMeta hlookup

/-- With the sidecar as it will be, the object is reported as it will be. -/
theorem headAt_renamed (h : p.SidecarReads (p.renamed d)) (key : String) (file : DirectoryFile) :
    headAt md5 (p.renamed d) key p.name file = headAt md5 (p.after d) key p.name file := by
  obtain ⟨hname, hcontent, hchecksum⟩ := h
  obtain ⟨hname', hcontent', hchecksum'⟩ := sidecarReads_after (p := p) (d := d)
  simp only [headAt, hname, hcontent, hchecksum, hname', hcontent', hchecksum']

/-- An object other than a sidecar of the key is reported as after the put, unless it is the key's
with another sidecar. -/
theorem headFile_renamed {key : String}
    (hunread : pathFor key ≠ .ok [p.name] ∨ p.SidecarReads (p.renamed d))
    (hmeta : pathFor key ≠ .ok [metaPathFor p.name]) :
    headFile md5 (p.renamed d) key = headFile md5 (p.after d) key := by
  refine headFile_congr fun name hname => ?_
  have hne : name ≠ metaPathFor p.name := fun heq => hmeta (heq ▸ hname)
  refine ⟨(lookup_after_of_ne hne).symm, fun file => ?_⟩
  rcases eq_or_ne name p.name with rfl | hother
  · exact headAt_renamed (hunread.resolve_left fun hneq => hneq hname) key file
  · exact headAt_congr file
      (lookup_after_of_ne fun heq => hother (metaPathFor_injective heq)).symm

/-- A file that is no sidecar is there between the renames if it is after them. -/
theorem mem_renamed_iff {name : String} (h : ¬ IsMeta name) :
    name ∈ p.renamed d ↔ name ∈ p.after d := by
  rw [← AList.lookup_isSome, ← AList.lookup_isSome, lookup_after_of_ne]
  exact fun heq => h (heq ▸ isMeta_metaPathFor _)

/-- **Between the renames a call answers as before or after the put**, if it does not report the
object with the old sidecar. -/
theorem answer_renamed {d : RootDirectory} (h : p.SidecarUnread (p.renamed d.files) r) :
    r.answer md5 (p.renamed d.files) = r.answer md5 d.files ∨
      r.answer md5 (p.renamed d.files) = r.answer md5 (p.after d.files) := by
  cases r with
  | get key =>
      by_cases hmeta : pathFor key = .ok [metaPathFor p.name]
      · refine .inl (congrArg (FileAnswer.of .bytes) (getFile_congr fun name hname => ?_))
        rw [hmeta] at hname
        cases hname
        exact lookup_renamed_of_ne (metaPathFor_ne_self _)
      · refine .inr (congrArg (FileAnswer.of .bytes) (getFile_congr fun name hname => ?_))
        exact (lookup_after_of_ne fun heq => hmeta (heq ▸ hname)).symm
  | head key =>
      by_cases hmeta : pathFor key = .ok [metaPathFor p.name]
      · refine .inl (congrArg (FileAnswer.of .object) (headFile_congr fun name hname => ?_))
        rw [hmeta] at hname
        cases hname
        exact ⟨lookup_renamed_of_ne (metaPathFor_ne_self _), fun file =>
          headAt_congr file (lookup_renamed_of_ne (metaPathFor_metaPathFor_ne _))⟩
      · have hunread := (h trivial).imp_left fun hall => hall key (.head _)
        exact .inr (congrArg (FileAnswer.of .object) (headFile_renamed hunread hmeta))
  | list after limit =>
      have hpage := listPage_congr (fun _ => mem_renamed_iff (p := p) (d := d.files)) after limit
      refine .inr (congrArg (FileAnswer.of .objects) (listObjects_congr hpage fun key hkey => ?_))
      have hlisted : key ∈ listedKeys (p.renamed d.files) :=
        (List.mem_insertionSort (· ≤ ·)).mp (List.mem_of_mem_filter (List.mem_of_mem_take hkey))
      obtain ⟨hmem, hmeta⟩ := List.mem_filter.mp hlisted
      have hsegment : '/' ∉ key.toList := by
        rcases (AList.mem_insert d.files).mp (AList.mem_keys.mpr hmem) with rfl | hmem
        · exact separator_not_mem p.path
        · exact d.names key hmem
      refine headFile_renamed ((h trivial).imp_left fun hall => hall key hkey) fun hpath => ?_
      rw [← eq_of_pathFor hsegment hpath] at hmeta
      exact absurd (isMeta_metaPathFor p.name) (of_decide_eq_true hmeta)
  | count => exact .inr (congrArg FileAnswer.count (countObjects_congr fun _ => mem_renamed_iff))

/-! ## Runs -/

/-- The directory of each phase, if what failed left nothing. -/
def Shows (p : FilePut) (d : Directory) : PutPhase → Directory → Prop
  | .before false, dir => dir = d
  | .writing false n, dir => p.tmp ∉ d ∧ dir = d.insert p.tmp (p.partFile false n)
  | .before true, dir => dir = p.renamed d
  | .writing true n, dir =>
    p.metaTmp ∉ p.renamed d ∧ dir = (p.renamed d).insert p.metaTmp (p.partFile true n)
  | .stored, dir | .returned, dir => dir = p.after d
  | .raised, dir => dir = d

/-- The directory is that of the phase, and other processes have seen what they should. -/
structure Unfolds (md5 : ByteArray → String) (p : FilePut) (d : Directory) (s : PutState) :
    Prop where
  shows : p.Shows d s.phase s.dir
  seen : p.Atomic md5 d s.seen

/-- The whole temporary file. -/
theorem partFile_size (sidecar : Bool) :
    p.partFile sidecar (p.contents sidecar).size = ⟨p.contents sidecar, p.now⟩ := by
  rw [partFile, ByteArray.extract_zero_size]

/-- The second temporary file is no sidecar, so it hides none. -/
theorem SidecarUnread.of_insert {f : DirectoryFile}
    (hkeys : r.keys (d.insert p.metaTmp f) = r.keys d)
    (h : p.SidecarUnread (d.insert p.metaTmp f) r) : p.SidecarUnread d r := by
  have hne : metaPathFor p.name ≠ p.metaTmp := fun heq =>
    p.metaTmp_not_meta (heq ▸ isMeta_metaPathFor p.name)
  have hsidecar : readMeta (d.insert p.metaTmp f) p.name = readMeta d p.name :=
    readMeta_congr (AList.lookup_insert_ne hne)
  rwa [SidecarUnread, SidecarReads, hkeys, hsidecar] at h

/-- What a call sees in a phase of the put. -/
theorem Shows.answer {d : RootDirectory} {phase : PutPhase} {dir : Directory}
    {seen : List SeenAnswer} (h : p.Shows d.files phase dir)
    (hok : p.Unnoticed ⟨dir, phase, seen⟩ (.call r)) : r.answer md5 dir = r.answer md5 d.files ∨
      decide (phase = .raised) = false ∧ r.answer md5 dir = r.answer md5 (p.after d.files) := by
  cases phase with
  | before sidecar =>
      cases sidecar with
      | false => exact .inl (congrArg (r.answer md5 ·) h)
      | true =>
          subst h
          exact (answer_renamed hok).imp_right fun hanswer => ⟨rfl, hanswer⟩
  | writing sidecar n =>
      obtain ⟨hkeys, hunread⟩ := hok
      cases sidecar with
      | false =>
          obtain ⟨htmp, rfl⟩ := h
          exact .inl (FileReader.answer_insert md5 htmp p.tmp_not_meta p.tmp_path hkeys).1
      | true =>
          obtain ⟨htmp, rfl⟩ := h
          obtain ⟨hanswer, hsame⟩ :=
            FileReader.answer_insert md5 htmp p.metaTmp_not_meta p.metaTmp_path hkeys
          rw [hanswer]
          exact (answer_renamed (.of_insert hsame (hunread rfl))).imp_right
            fun hafter => ⟨rfl, hafter⟩
  | stored => exact .inr ⟨rfl, congrArg (r.answer md5 ·) h⟩
  | returned => exact .inr ⟨rfl, congrArg (r.answer md5 ·) h⟩
  | raised => exact .inl (congrArg (r.answer md5 ·) h)

/-- The steps of the put go from the directory of a phase to that of the next one. -/
theorem Shows.step {s s' : PutState} {a : PutAction} (h : p.Shows d s.phase s.dir)
    (hok : p.Unnoticed s a) (ha : p.step md5 s a = some s') : p.Shows d s'.phase s'.dir := by
  obtain ⟨dir, phase, seen⟩ := s
  cases a with
  | call r =>
      cases ha
      exact h
  | makeTemp =>
      cases phase with
      | before sidecar =>
          simp only [FilePut.step] at ha
          split at ha
          · cases ha
          · next htemp =>
              cases ha
              cases sidecar with
              | false =>
                  cases h
                  exact ⟨htemp, rfl⟩
              | true =>
                  cases h
                  exact ⟨htemp, rfl⟩
      | _ => cases ha
  | write n =>
      cases phase with
      | writing sidecar written =>
          simp only [FilePut.step] at ha
          split at ha
          · cases ha
            cases sidecar with
            | false =>
                obtain ⟨htemp, rfl⟩ := h
                exact ⟨htemp, AList.insert_insert _⟩
            | true =>
                obtain ⟨htemp, rfl⟩ := h
                exact ⟨htemp, AList.insert_insert _⟩
          · cases ha
      | _ => cases ha
  | replace =>
      cases phase with
      | writing sidecar written =>
          simp only [FilePut.step] at ha
          split at ha
          · next hsize =>
              obtain ⟨file, hfile, rfl⟩ := Option.map_eq_some_iff.mp ha
              cases sidecar with
              | false =>
                  obtain ⟨htemp, rfl⟩ := h
                  cases (AList.lookup_insert _).symm.trans hfile
                  rw [hsize, partFile_size]
                  exact congrArg (AList.insert p.name _) (erase_insert htemp)
              | true =>
                  obtain ⟨htemp, rfl⟩ := h
                  cases (AList.lookup_insert _).symm.trans hfile
                  rw [hsize, partFile_size]
                  exact congrArg (AList.insert (metaPathFor p.name) _) (erase_insert htemp)
          · cases ha
      | _ => cases ha
  | report =>
      cases phase with
      | stored =>
          cases ha
          exact h
      | _ => cases ha
  | fail unlinked =>
      cases phase with
      | before sidecar =>
          cases ha
          cases sidecar with
          | false => exact h
          | true => exact hok.elim
      | writing sidecar written =>
          cases ha
          cases sidecar with
          | false =>
              obtain ⟨htemp, rfl⟩ := h
              rw [show unlinked = true from hok]
              exact erase_insert htemp
          | true => exact hok.elim
      | stored => exact hok.elim
      | _ => cases ha

/-- Only calls are seen by other processes. -/
theorem seen_eq {s s' : PutState} {a : PutAction} (hcall : ∀ r, a ≠ .call r)
    (ha : p.step md5 s a = some s') : s'.seen = s.seen := by
  obtain ⟨dir, phase, seen⟩ := s
  cases a with
  | call r => exact absurd rfl (hcall r)
  | _ => cases phase <;> simp only [FilePut.step] at ha <;> grind [Option.map_eq_some_iff]

theorem Unfolds.step {d : RootDirectory} {s s' : PutState} {a : PutAction}
    (h : Unfolds md5 p d.files s) (hok : p.Unnoticed s a) (ha : p.step md5 s a = some s') :
    Unfolds md5 p d.files s' := by
  refine ⟨h.shows.step hok ha, ?_⟩
  cases a with
  | call r =>
      cases ha
      intro e he
      rcases List.mem_append.mp he with he | he
      · exact h.seen e he
      · cases List.mem_singleton.mp he
        exact h.shows.answer hok
  | makeTemp | write | replace | report | fail =>
      have hseen : s'.seen = s.seen := seen_eq (fun _ heq => by cases heq) ha
      rw [hseen]
      exact h.seen

/-- A put of which no step fails leaves the directory that `putFile` does. -/
theorem putFile_eq (htmp : p.tmp ∉ d) (hmetaTmp : p.metaTmp ∉ p.renamed d) :
    putFile md5 d p.key p.data p.metadata p.now p.tmp p.metaTmp
      = some (.ok (stored md5 p.key ⟨p.data, p.now⟩ p.metadata), p.after d) := by
  have hrenamed : replaceFile d p.tmp p.name ⟨p.data, p.now⟩ = p.renamed d := by
    rw [replaceFile, erase_insert htmp, renamed]
  have hafter : replaceFile (p.renamed d) p.metaTmp (metaPathFor p.name)
      ⟨dumpMeta p.metadata, p.now⟩ = p.after d := by
    rw [replaceFile, erase_insert hmetaTmp, after]
  simp only [putFile, p.path, if_neg htmp, hrenamed, if_neg hmetaTmp, hafter]

/-- **Other processes see the store before the put or after it**, and only before it once the put
has raised, in every run in which nothing unfinished is noticed. -/
theorem seen_atomic {d : RootDirectory} {acts : List PutAction} {s : PutState}
    (hrun : Trace.Run (p.step md5) p.Unnoticed { dir := d.files } acts s) :
    p.Atomic md5 d.files s.seen :=
  (hrun.invariant (Unfolds md5 p d.files) (fun h hok ha => h.step hok ha) ⟨rfl, nofun⟩).seen

/-- A put of an empty object. -/
def putA : FilePut where
  key := "a"
  name := "a"
  data := .empty
  metadata := {}
  now := 1
  tmp := "tmp0"
  metaTmp := "tmp1"
  path := by decide
  tmp_path := by decide
  tmp_not_meta := by decide
  metaTmp_path := by decide
  metaTmp_not_meta := by decide

/-- The object before it is put again. -/
def rootA : RootDirectory where
  files := (∅ : Directory).insert "a" ⟨.empty, 0⟩
  names := by
    intro name hname
    rcases (AList.mem_insert _).mp hname with rfl | hname
    · decide
    · exact absurd hname (AList.notMem_empty _)

/-- The bytes are read before each step. -/
theorem seen_atomic_get : ∃ s, Trace.Run (putA.step fun _ => "") putA.Unnoticed
    { dir := rootA.files }
    [.call (.get "a"), .makeTemp, .call (.get "a"), .replace, .call (.get "a"), .makeTemp,
      .call (.get "a")] s ∧ putA.Atomic (fun _ => "") rootA.files s.seen := by
  have hrun : ∃ s, Trace.Run (putA.step fun _ => "") putA.Unnoticed { dir := rootA.files }
      [.call (.get "a"), .makeTemp, .call (.get "a"), .replace, .call (.get "a"), .makeTemp,
        .call (.get "a")] s := by
    have hget : ∀ t ≠ "a", ∀ key ∈ ["a"], pathFor key ≠ .ok [t] := by
      intro t ht key hkey
      cases List.mem_singleton.mp hkey
      rw [show pathFor "a" = .ok ["a"] by decide]
      simpa using ht.symm
    exact ⟨_, .cons trivial rfl (.cons trivial rfl (.cons ⟨hget "tmp0" (by decide), nofun⟩ rfl
      (.cons trivial rfl (.cons nofun rfl (.cons trivial rfl (.cons ⟨hget "tmp1" (by decide),
        fun _ => nofun⟩ rfl (.nil _)))))))⟩
  obtain ⟨s, hs⟩ := hrun
  exact ⟨s, hs, seen_atomic hs⟩

/-- The temporary file of a put is counted: two objects are there, of which one was and one will
be. -/
theorem not_seen_atomic_count : ∃ s, Trace.Run (putA.step fun _ => "") (fun _ _ => True)
    { dir := rootA.files } [.makeTemp, .call .count] s ∧
      ¬ putA.Atomic (fun _ => "") rootA.files s.seen := by
  refine ⟨_, .cons trivial rfl (.cons trivial rfl (.nil _)), fun hatomic => ?_⟩
  rcases hatomic _ (.head _) with hbefore | ⟨-, hafter⟩
  · exact absurd (FileAnswer.count.inj hbefore) (by decide)
  · exact absurd (FileAnswer.count.inj hafter) (by decide)

end FilePut

end Resourcey
