import Resourcey.Filestore.FileService
import Resourcey.Filestore.PutSteps
import Resourcey.Logic.Keyset
import Resourcey.Logic.UuidText

/-!
# Walks over files

The pages of the files are listings of a medium: `FileService` asks for one object more than the
limit, and goes on while it gets it. A directory and a table give as many objects as they are asked
for. A bucket gives at most a thousand at a time, so with a limit of a thousand or more the object
that would tell that others are left never comes, and the walk ends after its first page.
`walksRight_iff` says that this is all that goes wrong: all other walks return every file, each once
and in order, and as many as are counted.
-/

namespace Resourcey

open Keyset

/-! ## A bucket -/

/-- `prefix.strip('/')`. -/
def stripSlashes (text : String) : String :=
  String.ofList ((text.toList.dropWhile (· = '/')).reverse.dropWhile (· = '/')).reverse

/-- The prefix that a listing asks for. -/
def listingPrefix (storePrefix : String) : String :=
  if storePrefix = "" then "" else stripSlashes storePrefix ++ "/"

/-- `_object_key`. -/
def objectKey (storePrefix key : String) : String :=
  if storePrefix = "" then key else stripSlashes storePrefix ++ "/" ++ key

/-- What `ListObjectsV2` answers: keys, and where to go on if some are left. -/
structure BucketListing where
  contents : List String
  isTruncated : Bool
  nextContinuation : Option String

/-- The keys of a bucket that have a prefix and come after a key, in order. -/
def bucketKeys (bucket : FileMap) (keyPrefix : String) (after : Option String) : List String :=
  sortedKeys (bucket.keys.filter fun key => keyPrefix.toList <+: key.toList ∧ ∀ a ∈ after, a < key)

/-- `ListObjectsV2`: at most a thousand keys. It goes on after the last one, as after any key. -/
def listObjectsV2 (bucket : FileMap) (keyPrefix : String) (after : Option String) (maxKeys : ℕ) :
    BucketListing :=
  let keys := bucketKeys bucket keyPrefix after
  let contents := keys.take (min maxKeys 1000)
  let isTruncated := decide (min maxKeys 1000 < keys.length)
  { contents, isTruncated
    nextContinuation := if isTruncated then contents.getLast? else none }

section
variable (md5 : ByteArray → String)

/-- An object of a listing, which reports no metadata. -/
def listedObject (keyPrefix : String) (bucket : FileMap) (key : String) : Option StoredObject :=
  (bucket.lookup key).map fun o =>
    { key := String.ofList (key.toList.drop keyPrefix.toList.length)
      size := o.data.size
      name := none
      contentType := none
      checksum := none
      etag := "\"" ++ md5 o.data ++ "\""
      updatedAt := o.updatedAt }

/-- `S3FileStore.list_objects`. -/
def listBucket (storePrefix : String) (after : Option String) (limit : ℕ) (bucket : FileMap) :
    List StoredObject :=
  let response := listObjectsV2 bucket (listingPrefix storePrefix)
    (after.map (objectKey storePrefix)) limit
  response.contents.filterMap (listedObject md5 (listingPrefix storePrefix) bucket)

/-- `S3FileStore.count_objects`, with fuel for so many requests. A request that does not say how
many keys it wants is for a thousand. -/
def countBucket (bucket : FileMap) (keyPrefix : String) : ℕ → Option String → ℕ → Option ℕ
  | 0, _, _ => none
  | fuel + 1, continuation, total =>
    let response := listObjectsV2 bucket keyPrefix continuation 1000
    let total := total + response.contents.length
    if response.isTruncated then countBucket bucket keyPrefix fuel response.nextContinuation total
    else some total

end

/-! ## Media -/

/-- `FileStore`, as a page of files uses it. A count may need several requests, and has fuel. -/
structure FileListing (σ : Type) where
  listObjects : Option String → ℕ → σ → Except ServiceFailure (List StoredObject)
  countObjects : ℕ → σ → Option ℕ

/-- An error of a directory, as the service raises it. -/
def FileError.failure : FileError → ServiceFailure
  | .invalidInput key => .raised (.invalidInput ("Invalid file key '" ++ key ++ "'"))
  | .nullByte => .raised (.service "embedded null byte")
  | .isDirectory => .raised (.service "Is a directory")
  | .metadata => .raised (.service "1 validation error for StoredObject")

/-- The media. -/
inductive FileMedium where
  | localFiles
  | sqlFiles
  | s3Files (storePrefix : String)

namespace FileMedium

/-- What a medium holds: a directory, the rows of a table by their keys, or the objects of a bucket
by theirs. -/
abbrev Store : FileMedium → Type
  | .localFiles => Directory
  | .sqlFiles | .s3Files _ => FileMap

/-- A store with nothing in it. -/
def empty : (medium : FileMedium) → medium.Store
  | .localFiles => (∅ : Directory)
  | .sqlFiles | .s3Files _ => (∅ : FileMap)

variable (md5 : ByteArray → String)

/-- A put, with the time and names for temporary files. -/
def put : (medium : FileMedium) → String → ByteArray → FileMetadata → ℕ → String → String →
    medium.Store → Option medium.Store
  | .localFiles, key, data, metadata, now, tmp, metaTmp, d =>
    (putFile md5 d key data metadata now tmp metaTmp).map (·.2)
  | .sqlFiles, key, data, metadata, now, _, _, store =>
    some (Finmap.insert key ⟨data, metadata, now⟩ store)
  | .s3Files storePrefix, key, data, metadata, now, _, _, bucket =>
    some (Finmap.insert (objectKey storePrefix key) ⟨data, metadata, now⟩ bucket)

/-- A deletion. -/
def delete : (medium : FileMedium) → String → medium.Store → medium.Store
  | .localFiles, key, d => (deleteFile d key).toOption.getD d
  | .sqlFiles, key, store => Finmap.erase key store
  | .s3Files storePrefix, key, bucket => Finmap.erase (objectKey storePrefix key) bucket

/-- `list_objects` and `count_objects`. -/
def listing : (medium : FileMedium) → FileListing medium.Store
  | .localFiles =>
    { listObjects := fun after limit d =>
        (listObjects md5 d after limit).mapError FileError.failure
      countObjects := fun _ d => some (countObjects d) }
  | .sqlFiles =>
    { listObjects := fun after limit store =>
        .ok ((FileMap.page store after limit).filterMap fun key =>
          (Finmap.lookup key store).map (reported md5 key))
      countObjects := fun _ store => some (Finmap.keys store).card }
  | .s3Files storePrefix =>
    { listObjects := fun after limit bucket => .ok (listBucket md5 storePrefix after limit bucket)
      countObjects := fun fuel bucket =>
        countBucket bucket (listingPrefix storePrefix) fuel none 0 }

end FileMedium

/-! ## Pages -/

section
variable {σ κ : Type} [TextRules]

/-- `FileService.search`, of a medium. -/
def FileListing.search (listing : FileListing σ) (codec : CursorCodec κ) (cursor : Option κ)
    (limit : ℕ) (s : σ) : Except ServiceFailure (Page FileDto κ) := do
  let after ← FileResource.afterKey codec cursor
  let found ← listing.listObjects after (limit + 1) s
  let page := Page.ofFound limit (FileResource.encodeCursor codec) found
  return { page with items := page.items.map StoredObject.searchDto }

/-- It is the search of the service without a filter. -/
theorem FileResource.search_none (f : FileResource σ) (codec : CursorCodec κ) (cursor : Option κ)
    (limit : ℕ) (s : σ) (countObjects : ℕ → σ → Option ℕ) :
    f.search codec none cursor limit s =
      (FileListing.mk f.store.listObjects countObjects).search codec cursor limit s := rfl

end

/-! ## Walks -/

section
variable {κ : Type} [TextRules] (md5 : ByteArray → String) (medium : FileMedium)
  (codec : CursorCodec κ) (limit : ℕ)

/-- The request at a time answers with objects of the keys, and hands on a cursor or none. -/
def FilePage (states : ℕ → medium.Store) (t : ℕ) (cursor : Option κ) (keys : List String)
    (next : Option κ) : Prop :=
  ∃ items, (medium.listing md5).search codec cursor limit (states t) = .ok ⟨items, limit, next⟩ ∧
    items.map (·.id) = keys

/-- `uuid4().hex`. -/
def hexKey (u : Uuid) : String := String.ofList (Uuid.hexDigits 32 u)

/-- The states of a medium that the service leaves, with the objects that were put there. Files are
created under generated keys. -/
inductive FileStates : medium.Store → FileMap → Prop
  | empty : FileStates medium.empty ∅
  | create {s s' m} (u : Uuid) (data : ByteArray) (metadata : FileMetadata) (now : ℕ)
      (tmp metaTmp : String) : FileStates s m →
      medium.put md5 (hexKey u) data metadata now tmp metaTmp s = some s' →
      FileStates s' (m.insert (hexKey u) ⟨data, metadata, now⟩)
  | delete {s m} (u : Uuid) : FileStates s m →
      FileStates (medium.delete (hexKey u) s) (m.erase (hexKey u))

/-- **What walks should do**, from a state with these objects. If nothing changes, a walk ends,
returns the present keys in order, and as many as are counted. And whatever is created and deleted
between its requests, a walk that ends returns a file that is present throughout exactly once. -/
structure WalksRight (s : medium.Store) (m : FileMap) : Prop where
  ends : ∃ pages, Walk (FilePage md5 medium codec limit fun _ => s) 0 none pages
  complete : ∀ pages, Walk (FilePage md5 medium codec limit fun _ => s) 0 none pages →
    pages.flatten = m.keys.sort (· ≤ ·) ∧ ∃ enough, ∀ fuel ≥ enough,
      (medium.listing md5).countObjects fuel s = some pages.flatten.length
  present : ∀ (states : ℕ → medium.Store) (maps : ℕ → FileMap), states 0 = s → maps 0 = m →
    (∀ t, FileStates md5 medium (states t) (maps t)) →
    ∀ pages, Walk (FilePage md5 medium codec limit states) 0 none pages →
      ∀ key, (∀ t, key ∈ maps t) → pages.flatten.count key = 1

/-- The medium gives one object more than the limit, or all there are. -/
def FileMedium.Fits (m : FileMap) : FileMedium → Prop
  | .s3Files _ => limit < 1000 ∨ m.keys.card ≤ 1000
  | .localFiles | .sqlFiles => True

end

/-! ## Keys -/

theorem objectKey_eq (storePrefix key : String) :
    objectKey storePrefix key = listingPrefix storePrefix ++ key := by
  rcases eq_or_ne storePrefix "" with rfl | hne
  · simp [objectKey, listingPrefix]
  · rw [objectKey, listingPrefix, if_neg hne, if_neg hne]

theorem append_lt_append_iff {p a b : String} : p ++ a < p ++ b ↔ a < b := by
  simp only [String.lt_iff_toList_lt, String.toList_append]
  induction p.toList with
  | nil => rfl
  | cons c cs ih => rw [List.cons_append, List.cons_append, List.cons_lt_cons_self, ih]

theorem append_right_inj' {p a b : String} : p ++ a = p ++ b ↔ a = b := by
  rw [← String.toList_inj, String.toList_append, String.toList_append, List.append_cancel_left_eq,
    String.toList_inj]

/-- The digits of a hexadecimal number. -/
theorem exists_digitChar_of_mem {k n : ℕ} {c : Char} (h : c ∈ Uuid.hexDigits k n) :
    ∃ d < 16, c = Nat.digitChar d := by
  induction k generalizing n with
  | zero => cases h
  | succ k ih =>
      rcases List.mem_append.mp h with h | h
      · exact ih h
      · exact ⟨n % 16, Nat.mod_lt _ (by omega), List.mem_singleton.mp h⟩

theorem mem_hexKey_ne {u : Uuid} {c : Char} (h : c ∈ (hexKey u).toList) :
    c ≠ '/' ∧ c ≠ '.' ∧ c ≠ '~' ∧ c ≠ '\x00' := by
  rw [hexKey, String.toList_ofList] at h
  obtain ⟨d, hd, rfl⟩ := exists_digitChar_of_mem h
  have hdigits : ∀ d < 16, Nat.digitChar d ≠ '/' ∧ Nat.digitChar d ≠ '.' ∧
      Nat.digitChar d ≠ '~' ∧ Nat.digitChar d ≠ '\x00' := by decide
  exact hdigits d hd

theorem length_hexKey (u : Uuid) : (hexKey u).toList.length = 32 := by
  rw [hexKey, String.toList_ofList, Uuid.length_hexDigits]

/-- A generated key is the name of its file, and no sidecar's. -/
theorem pathFor_hexKey (u : Uuid) : pathFor (hexKey u) = .ok [hexKey u] ∧ ¬ IsMeta (hexKey u) := by
  have hlength := length_hexKey u
  have hempty : hexKey u ≠ "" := by
    rintro h
    rw [h] at hlength
    cases hlength
  have hdot : hexKey u ≠ "." := by
    rintro h
    rw [h] at hlength
    cases hlength
  have hhead : ∀ c, (hexKey u).toList.head? = some c → c ≠ '/' ∧ c ≠ '~' := by
    intro c hc
    have hne := mem_hexKey_ne (List.mem_of_mem_head? hc)
    exact ⟨hne.1, hne.2.2.1⟩
  have hsplit : (hexKey u).toList.splitOnP (· = '/') = [(hexKey u).toList] := by
    refine List.splitOnP_eq_singleton fun c hc => ?_
    simpa using (mem_hexKey_ne hc).1
  have hparts : pathParts (hexKey u) = [hexKey u] := by
    rw [pathParts, hsplit, List.map_singleton, String.ofList_toList]
    simp [hempty, hdot]
  have hdots : ".." ∉ [hexKey u] := by
    intro h
    rw [← List.mem_singleton.mp h] at hlength
    cases hlength
  refine ⟨?_, ?_⟩
  · rw [pathFor, if_neg, if_neg, if_neg, hparts]
    · intro h
      exact (mem_hexKey_ne h).2.2.2 rfl
    · rw [hparts]
      exact hdots
    · rintro (h | h | h)
      · exact hempty h
      · exact (hhead _ h).1 rfl
      · exact (hhead _ h).2 rfl
  · intro h
    have hmem : '.' ∈ (hexKey u).toList := h.subset (by decide)
    exact (mem_hexKey_ne hmem).2.1 rfl

/-! ## What a medium lists -/

/-- The medium holds the objects. -/
def FileMedium.Holds : (medium : FileMedium) → medium.Store → FileMap → Prop
  | .localFiles, d, m => Stores d m
  | .sqlFiles, store, m => store = m
  | .s3Files storePrefix, bucket, m =>
    ∀ key, bucket.lookup (listingPrefix storePrefix ++ key) = m.lookup key

/-- The objects that a medium gives at most, of so many that are asked for. -/
def FileMedium.cap (n : ℕ) : FileMedium → ℕ
  | .s3Files _ => min n 1000
  | .localFiles | .sqlFiles => n

/-- The present keys after a key, in order. -/
def keysAfter (m : FileMap) (after : Option String) : List String :=
  sortedKeys (m.keys.filter fun key => ∀ a ∈ after, a < key)

section
variable {md5 : ByteArray → String} {medium : FileMedium} {s : medium.Store} {m : FileMap}

theorem mem_keysAfter {after : Option String} {key : String} :
    key ∈ keysAfter m after ↔ key ∈ m ∧ ∀ a ∈ after, a < key := by
  rw [keysAfter, sortedKeys, Finset.mem_sort, Finset.mem_filter, Finmap.mem_keys]

theorem pairwise_lt_keysAfter (m : FileMap) (after : Option String) :
    (keysAfter m after).Pairwise (· < ·) :=
  (Finset.sortedLT_sort _).pairwise

theorem keysAfter_none : keysAfter m none = m.keys.sort (· ≤ ·) := by
  rw [keysAfter, sortedKeys, Finset.filter_true_of_mem]
  simp

theorem FileStates.holds (h : FileStates md5 medium s m) : medium.Holds s m := by
  induction h with
  | empty =>
      cases medium with
      | localFiles => exact Stores.empty
      | sqlFiles => rfl
      | s3Files storePrefix => exact fun _ => rfl
  | create u data metadata now tmp metaTmp _ hput ih =>
      cases medium with
      | localFiles =>
          obtain ⟨hpath, hmeta⟩ := pathFor_hexKey u
          simp only [FileMedium.put, putFile, hpath] at hput
          split at hput
          · cases hput
          · next htmp =>
              split at hput
              · cases hput
              · next hmetaTmp =>
                  cases hput
                  exact Stores.insert ih hpath hmeta htmp hmetaTmp
      | sqlFiles =>
          cases hput
          exact congrArg (Finmap.insert (hexKey u) ⟨data, metadata, now⟩) ih
      | s3Files storePrefix =>
          cases hput
          intro key
          rw [objectKey_eq]
          rcases eq_or_ne key (hexKey u) with rfl | hne
          · rw [Finmap.lookup_insert, Finmap.lookup_insert]
          · have hne' : listingPrefix storePrefix ++ key ≠ listingPrefix storePrefix ++ hexKey u :=
              fun heq => hne (append_right_inj'.mp heq)
            rw [Finmap.lookup_insert_of_ne _ hne', Finmap.lookup_insert_of_ne _ hne]
            exact ih key
  | delete u _ ih =>
      cases medium with
      | localFiles =>
          obtain ⟨hpath, hmeta⟩ := pathFor_hexKey u
          have hapart : ∀ other : String, other ≠ hexKey u →
              [hexKey u] ≠ [other] ∧ [hexKey u] ≠ [metaPathFor other] := by
            intro other hne
            refine ⟨by simpa using hne.symm, fun heq => hmeta ?_⟩
            rw [(List.cons.inj heq).1]
            exact isMeta_metaPathFor other
          obtain ⟨d', hdelete, hstores⟩ :=
            Stores.deleteFile_eq ih hpath fun other _ hne => hapart other hne
          simp only [FileMedium.delete, hdelete]
          exact hstores
      | sqlFiles => exact congrArg (Finmap.erase (hexKey u)) ih
      | s3Files storePrefix =>
          intro key
          simp only [FileMedium.delete, objectKey_eq]
          rcases eq_or_ne key (hexKey u) with rfl | hne
          · rw [Finmap.lookup_erase, Finmap.lookup_erase]
          · have hne' : listingPrefix storePrefix ++ key ≠ listingPrefix storePrefix ++ hexKey u :=
              fun heq => hne (append_right_inj'.mp heq)
            rw [Finmap.lookup_erase_ne hne', Finmap.lookup_erase_ne hne]
            exact ih key

/-- Objects that are all present are reported under their keys. -/
theorem map_key_filterMap {report : String → FileObject → StoredObject}
    (hreport : ∀ key o, (report key o).key = key) {keys : List String}
    (hkeys : ∀ key ∈ keys, key ∈ m) :
    (keys.filterMap fun key => (m.lookup key).map (report key)).map (·.key) = keys := by
  induction keys with
  | nil => rfl
  | cons key keys ih =>
      obtain ⟨hkey, hrest⟩ := List.forall_mem_cons.mp hkeys
      obtain ⟨o, ho⟩ := Option.isSome_iff_exists.mp (Finmap.lookup_isSome.mpr hkey)
      rw [List.filterMap_cons_some (by rw [ho]; rfl), List.map_cons, hreport, ih hrest]

theorem append_le_append_iff {p a b : String} : p ++ a ≤ p ++ b ↔ a ≤ b := by
  rw [← not_lt, ← not_lt, append_lt_append_iff]

/-- The keys of a bucket are those of the objects, after the prefix. -/
theorem bucketKeys_eq {storePrefix : String} {bucket : FileMap}
    (h : (FileMedium.s3Files storePrefix).Holds bucket m) (after : Option String) :
    bucketKeys bucket (listingPrefix storePrefix) (after.map (listingPrefix storePrefix ++ ·)) =
      (keysAfter m after).map (listingPrefix storePrefix ++ ·) := by
  have hmem : ∀ key, listingPrefix storePrefix ++ key ∈ bucket ↔ key ∈ m := by
    intro key
    rw [← Finmap.lookup_isSome, ← Finmap.lookup_isSome, h key]
  have hnodup : ((keysAfter m after).map (listingPrefix storePrefix ++ ·)).Nodup :=
    (Finset.sort_nodup _ _).map fun a b heq => append_right_inj'.mp heq
  have hsorted : ((keysAfter m after).map (listingPrefix storePrefix ++ ·)).Pairwise (· ≤ ·) :=
    List.pairwise_map.mpr ((Finset.pairwise_sort _ _).imp append_le_append_iff.mpr)
  rw [← (List.toFinset_sort (· ≤ ·) hnodup).mpr hsorted, bucketKeys, sortedKeys]
  congr 1
  ext key
  rw [Finset.mem_filter, List.mem_toFinset, List.mem_map, Finmap.mem_keys]
  constructor
  · rintro ⟨hkey, ⟨rest, hrest⟩, hafter⟩
    have heq : listingPrefix storePrefix ++ String.ofList rest = key := by
      rw [← String.toList_inj, String.toList_append, String.toList_ofList, hrest]
    subst heq
    refine ⟨String.ofList rest, mem_keysAfter.mpr ⟨(hmem _).mp hkey, fun a ha => ?_⟩, rfl⟩
    exact append_lt_append_iff.mp (hafter _ (Option.mem_map_of_mem _ ha))
  · rintro ⟨rest, hrest, rfl⟩
    obtain ⟨hkey, hafter⟩ := mem_keysAfter.mp hrest
    refine ⟨(hmem rest).mpr hkey, ?_, fun a ha => ?_⟩
    · rw [String.toList_append]
      exact List.prefix_append _ _
    · obtain ⟨b, hb, rfl⟩ := Option.mem_map.mp ha
      exact append_lt_append_iff.mpr (hafter b hb)

/-- **What a medium lists**: the first present keys after a key, as many as are asked for or as it
gives at most. -/
theorem FileMedium.Holds.listObjects (h : medium.Holds s m) (after : Option String) (n : ℕ) :
    ∃ found, (medium.listing md5).listObjects after n s = .ok found ∧
      found.map (·.key) = (keysAfter m after).take (medium.cap n) := by
  have hpresent : ∀ k, ∀ key ∈ (keysAfter m after).take k, key ∈ m :=
    fun k key hkey => (mem_keysAfter.mp (List.mem_of_mem_take hkey)).1
  cases medium with
  | localFiles =>
      have hlist := Stores.listObjects_eq h md5 after n
      refine ⟨_, by simp only [listing, hlist]; rfl, ?_⟩
      exact map_key_filterMap (fun _ _ => rfl) (hpresent n)
  | sqlFiles =>
      obtain rfl : s = m := h
      exact ⟨_, rfl, map_key_filterMap (fun _ _ => rfl) (hpresent n)⟩
  | s3Files storePrefix =>
      refine ⟨_, rfl, ?_⟩
      have hafter : after.map (objectKey storePrefix) =
          after.map (listingPrefix storePrefix ++ ·) :=
        Option.map_congr fun a _ => objectKey_eq storePrefix a
      let report : String → FileObject → StoredObject := fun key o =>
        { reported md5 key o with
          name := none
          contentType := none
          checksum := none }
      have hlisted : listedObject md5 (listingPrefix storePrefix) s ∘
          (listingPrefix storePrefix ++ ·) = fun key => (m.lookup key).map (report key) := by
        funext key
        have hkey : String.ofList ((listingPrefix storePrefix ++ key).toList.drop
            (listingPrefix storePrefix).toList.length) = key := by
          rw [String.toList_append, List.drop_left, String.ofList_toList]
        rw [Function.comp_apply, listedObject, hkey, h key]
        rfl
      rw [listBucket, listObjectsV2, hafter, bucketKeys_eq h, ← List.map_take, List.filterMap_map,
        hlisted]
      exact map_key_filterMap (fun _ _ => rfl) (hpresent _)

/-! ## Counts -/

/-- The requests of a count, each with the token that the one before handed on. -/
def CountPage (bucket : FileMap) (keyPrefix : String) (_t : ℕ) (continuation : Option String)
    (keys : List String) (next : Option String) : Prop :=
  keys = (listObjectsV2 bucket keyPrefix continuation 1000).contents ∧
    next = (listObjectsV2 bucket keyPrefix continuation 1000).nextContinuation

/-- A request hands on a token if others are left. -/
theorem isTruncated_eq (bucket : FileMap) (keyPrefix : String) (continuation : Option String) :
    (listObjectsV2 bucket keyPrefix continuation 1000).isTruncated =
      (listObjectsV2 bucket keyPrefix continuation 1000).nextContinuation.isSome := by
  simp only [listObjectsV2, min_self]
  split
  · next h =>
      have hlt : 1000 < (bucketKeys bucket keyPrefix continuation).length := of_decide_eq_true h
      have hne : (bucketKeys bucket keyPrefix continuation).take 1000 ≠ [] := by
        rw [Ne, List.take_eq_nil_iff, ← List.length_eq_zero_iff]
        omega
      rw [h, List.getLast?_eq_getLast_of_ne_nil hne]
      rfl
  · next h => simpa using h

theorem countBucket_eq {bucket : FileMap} {keyPrefix : String} {t : ℕ}
    {continuation : Option String} {pages : List (List String)}
    (h : Walk (CountPage bucket keyPrefix) t continuation pages) :
    ∃ enough, ∀ fuel ≥ enough, ∀ total,
      countBucket bucket keyPrefix fuel continuation total = some (total + pages.flatten.length) := by
  induction h with
  | @last t continuation keys hpage =>
      refine ⟨1, fun fuel hfuel total => ?_⟩
      obtain ⟨fuel, rfl⟩ := Nat.exists_eq_add_of_le' hfuel
      obtain ⟨rfl, hnext⟩ := hpage
      have htruncated := isTruncated_eq bucket keyPrefix continuation
      rw [← hnext] at htruncated
      simp [countBucket, htruncated]
  | @more t continuation keys next pages hpage _ ih =>
      obtain ⟨enough, henough⟩ := ih
      refine ⟨enough + 1, fun fuel hfuel total => ?_⟩
      obtain ⟨fuel, rfl⟩ : ∃ n, fuel = n + 1 := ⟨fuel - 1, by omega⟩
      obtain ⟨rfl, hnext⟩ := hpage
      have htruncated := isTruncated_eq bucket keyPrefix continuation
      rw [← hnext, Option.isSome_some] at htruncated
      rw [countBucket, if_pos htruncated, ← hnext, henough fuel (by omega), List.flatten_cons,
        List.length_append, Nat.add_assoc]

theorem pairwise_lt_bucketKeys (bucket : FileMap) (keyPrefix : String) (after : Option String) :
    (bucketKeys bucket keyPrefix after).Pairwise (· < ·) :=
  (Finset.sortedLT_sort _).pairwise

/-- The requests of a count are pages of the keys of the bucket. -/
theorem countPage_isPage {bucket : FileMap} {keyPrefix : String} {t : ℕ}
    {continuation next : Option String} {keys : List String}
    (h : CountPage bucket keyPrefix t continuation keys next) :
    IsPage (· < ·) id (bucketKeys bucket keyPrefix none) (continuation.map id) keys
      (next.map id) := by
  obtain ⟨rfl, rfl⟩ := h
  have hmem : ∀ key, key ∈ bucketKeys bucket keyPrefix continuation ↔
      key ∈ bucketKeys bucket keyPrefix none ∧ Past (· < ·) continuation (id key) := by
    intro key
    simp only [bucketKeys, sortedKeys, Finset.mem_sort, Finset.mem_filter]
    cases continuation <;> simp [Past, and_assoc]
  have hlimit : 1 ≤ 1000 := by omega
  have hpage := isPage_take (pairwise_lt_bucketKeys bucket keyPrefix continuation) hmem hlimit
  rw [Option.map_id'] at hpage
  simp only [listObjectsV2, min_self, decide_eq_true_eq, Option.map_id, id_eq]
  exact hpage

/-- **A count ends**, with the number of the keys. -/
theorem exists_countBucket (bucket : FileMap) (keyPrefix : String) : ∃ enough, ∀ fuel ≥ enough,
    countBucket bucket keyPrefix fuel none 0 = some (bucketKeys bucket keyPrefix none).length := by
  have hpage : ∀ t c keys next, CountPage bucket keyPrefix t c keys next →
      IsPage (· < ·) id (bucketKeys bucket keyPrefix none) (c.map id) keys (next.map id) :=
    fun _ _ _ _ h => countPage_isPage h
  obtain ⟨pages, hwalk⟩ := exists_walk (fun _ => True) hpage
    (fun _ _ _ => ⟨_, _, ⟨rfl, rfl⟩, fun _ _ => trivial⟩) 0 none (fun _ _ => trivial)
  obtain ⟨enough, henough⟩ := countBucket_eq hwalk
  have hflatten := Walk.flatten_eq hpage (pairwise_lt_bucketKeys bucket keyPrefix none)
    (fun _ => Iff.rfl) hwalk
  refine ⟨enough, fun fuel hfuel => ?_⟩
  rw [henough fuel hfuel, hflatten, Nat.zero_add]

/-- **A count is the number of the objects.** -/
theorem FileMedium.Holds.countObjects (h : medium.Holds s m) : ∃ enough, ∀ fuel ≥ enough,
    (medium.listing md5).countObjects fuel s = some m.keys.card := by
  cases medium with
  | localFiles => exact ⟨0, fun _ _ => congrArg some (Stores.countObjects_eq h)⟩
  | sqlFiles =>
      obtain rfl : s = m := h
      exact ⟨0, fun _ _ => rfl⟩
  | s3Files storePrefix =>
      obtain ⟨enough, henough⟩ := exists_countBucket s (listingPrefix storePrefix)
      refine ⟨enough, fun fuel hfuel => (henough fuel hfuel).trans ?_⟩
      have hkeys := bucketKeys_eq h none
      rw [Option.map_none] at hkeys
      rw [hkeys, List.length_map, keysAfter_none, Finset.length_sort]

variable {limit : ℕ}

/-- A medium that fits gives one object more than the limit, or all there are. -/
theorem FileMedium.fits_iff : medium.Fits limit m ↔ medium.cap (limit + 1) = limit + 1 ∨
    medium.cap (limit + 1) ≤ limit ∧ m.keys.card ≤ medium.cap (limit + 1) := by
  cases medium with
  | localFiles => exact iff_of_true trivial (.inl rfl)
  | sqlFiles => exact iff_of_true trivial (.inl rfl)
  | s3Files storePrefix =>
      simp only [Fits, cap]
      omega

theorem cap_or (medium : FileMedium) (limit : ℕ) :
    medium.cap (limit + 1) = limit + 1 ∨ medium.cap (limit + 1) ≤ limit := by
  cases medium with
  | localFiles => exact .inl rfl
  | sqlFiles => exact .inl rfl
  | s3Files storePrefix =>
      simp only [FileMedium.cap]
      omega

/-- A walk that returns the present keys returns as many as are counted. -/
theorem complete_of_flatten_eq (h : medium.Holds s m) {pages : List (List String)}
    (hflatten : pages.flatten = m.keys.sort (· ≤ ·)) :
    pages.flatten = m.keys.sort (· ≤ ·) ∧ ∃ enough, ∀ fuel ≥ enough,
      (medium.listing md5).countObjects fuel s = some pages.flatten.length := by
  rw [hflatten, Finset.length_sort]
  exact ⟨rfl, h.countObjects⟩

/-! ## Pages of files -/

variable {κ : Type} [TextRules] {codec : CursorCodec κ}

/-- The cursor of a file. -/
def fileCursor (codec : CursorCodec κ) (key : String) : κ :=
  codec.encode ⟨none, true, .scalar (.str key), .scalar (.str key)⟩

/-- The key that a cursor names. -/
def cursorKey (codec : CursorCodec κ) (cursor : κ) : String :=
  match codec.decode cursor with
  | .ok c => TextRules.str c.idValue
  | .error _ => ""

/-- The cursor is that of some file. -/
def FileCursor (codec : CursorCodec κ) (cursor : κ) : Prop := ∃ key, cursor = fileCursor codec key

theorem cursorKey_fileCursor (key : String) : cursorKey codec (fileCursor codec key) = key := by
  rw [cursorKey, fileCursor, codec.decode_encode]
  exact TextRules.str_str key

theorem afterKey_eq {cursor : Option κ} (h : ∀ c ∈ cursor, FileCursor codec c) :
    FileResource.afterKey codec cursor = .ok (cursor.map (cursorKey codec)) := by
  cases cursor with
  | none => rfl
  | some c =>
      obtain ⟨key, rfl⟩ := h c rfl
      rw [Option.map_some, cursorKey_fileCursor]
      simp [FileResource.afterKey, fileCursor, codec.decode_encode, TextRules.str_str]

/-- **What a page of files is**: the first keys of what the medium lists, and the cursor of the last
of them if the medium gave one more than the limit. -/
theorem filePage_iff {states : ℕ → medium.Store} {t : ℕ} (h : medium.Holds (states t) m)
    {cursor next : Option κ} (hcursor : ∀ c ∈ cursor, FileCursor codec c) {keys : List String} :
    FilePage md5 medium codec limit states t cursor keys next ↔
      keys = ((keysAfter m (cursor.map (cursorKey codec))).take (medium.cap (limit + 1))).take
          limit ∧
        next = if limit < ((keysAfter m (cursor.map (cursorKey codec))).take
            (medium.cap (limit + 1))).length then keys.getLast?.map (fileCursor codec)
          else none := by
  obtain ⟨found, hfound, hkeys⟩ : ∃ found,
      (medium.listing md5).listObjects (cursor.map (cursorKey codec)) (limit + 1) (states t) =
        .ok found ∧ found.map (·.key) =
          (keysAfter m (cursor.map (cursorKey codec))).take (medium.cap (limit + 1)) :=
    h.listObjects _ _
  have hsearch : (medium.listing md5).search codec cursor limit (states t) =
      .ok ⟨(found.take limit).map StoredObject.searchDto, limit,
        if limit < found.length then (found.take limit).getLast?.map fun o => fileCursor codec o.key
        else none⟩ := by
    rw [FileListing.search, afterKey_eq hcursor]
    simp only [bind, Except.bind, hfound]
    rfl
  have hids : ((found.take limit).map StoredObject.searchDto).map (·.id) =
      (found.map (·.key)).take limit := by
    rw [List.map_map, ← List.map_take]
    rfl
  have hlast : (found.take limit).getLast?.map (fun o => fileCursor codec o.key) =
      ((found.map (·.key)).take limit).getLast?.map (fileCursor codec) := by
    rw [← List.map_take, List.getLast?_map, Option.map_map]
    rfl
  have hlength : found.length = (found.map (·.key)).length := (List.length_map _).symm
  rw [← hkeys, ← hlength, FilePage, hsearch, ← hids]
  constructor
  · rintro ⟨items, hpage, rfl⟩
    cases hpage
    rw [hids, hlast]
    exact ⟨rfl, rfl⟩
  · rintro ⟨rfl, rfl⟩
    refine ⟨_, ?_, rfl⟩
    rw [hids, hlast]

/-- A medium that gives one object more than the limit answers with pages of its keys, and hands on
cursors of files. -/
theorem filePage_isPage (hlimit : 1 ≤ limit) (hcap : medium.cap (limit + 1) = limit + 1)
    {states : ℕ → medium.Store} {t : ℕ} (h : medium.Holds (states t) m) {cursor next : Option κ}
    (hcursor : ∀ c ∈ cursor, FileCursor codec c) {keys : List String}
    (hpage : FilePage md5 medium codec limit states t cursor keys next) :
    IsPage (· < ·) id (m.keys.sort (· ≤ ·)) (cursor.map (cursorKey codec)) keys
        (next.map (cursorKey codec)) ∧ ∀ c ∈ next, FileCursor codec c := by
  obtain ⟨rfl, rfl⟩ := (filePage_iff h hcursor).mp hpage
  have htake : ((keysAfter m (cursor.map (cursorKey codec))).take (limit + 1)).take limit =
      (keysAfter m (cursor.map (cursorKey codec))).take limit := by
    rw [List.take_take, Nat.min_eq_left (Nat.le_succ limit)]
  have hmore : limit < ((keysAfter m (cursor.map (cursorKey codec))).take (limit + 1)).length ↔
      limit < (keysAfter m (cursor.map (cursorKey codec))).length := by
    rw [List.length_take]
    omega
  have hmem : ∀ key, key ∈ keysAfter m (cursor.map (cursorKey codec)) ↔
      key ∈ m.keys.sort (· ≤ ·) ∧ Past (· < ·) (cursor.map (cursorKey codec)) key := by
    intro key
    rw [mem_keysAfter, Finset.mem_sort, Finmap.mem_keys]
    cases cursor <;> simp only [Option.map_none, Option.map_some, Past, Option.mem_def,
      Option.some.injEq, forall_eq', reduceCtorEq, false_implies, implies_true]
  rw [hcap, htake]
  simp only [hmore]
  exact isPage_take_cursor (pairwise_lt_keysAfter m _) hmem hlimit
    fun key _ => ⟨⟨key, rfl⟩, cursorKey_fileCursor key⟩

/-! ## Walks over files -/

/-- A medium that gives one object more than the limit answers every request of a walk. -/
theorem filePage_answers (hlimit : 1 ≤ limit) (hcap : medium.cap (limit + 1) = limit + 1)
    {states : ℕ → medium.Store} {maps : ℕ → FileMap} (h : ∀ t, medium.Holds (states t) (maps t)) :
    Answers (· < ·) id (cursorKey codec) (FilePage md5 medium codec limit states)
      (FileCursor codec) fun t => (maps t).keys.sort (· ≤ ·) where
  total t _ hcursor := ⟨_, _, (filePage_iff (h t) hcursor).mpr ⟨rfl, rfl⟩⟩
  isPage t _ _ _ hcursor hpage := (filePage_isPage hlimit hcap (h t) hcursor hpage).1
  good t _ _ _ hcursor hpage := (filePage_isPage hlimit hcap (h t) hcursor hpage).2

/-- A medium that gives no more objects than the limit ends every walk with its first page. -/
theorem walk_iff_of_cap (hcap : medium.cap (limit + 1) ≤ limit) {states : ℕ → medium.Store}
    (h : medium.Holds (states 0) m) {pages : List (List String)} :
    Walk (FilePage md5 medium codec limit states) 0 none pages ↔
      pages = [(keysAfter m none).take (medium.cap (limit + 1))] := by
  have htake : ((keysAfter m none).take (medium.cap (limit + 1))).take limit =
      (keysAfter m none).take (medium.cap (limit + 1)) := by
    rw [List.take_take, Nat.min_eq_right hcap]
  have hmore : ¬ limit < ((keysAfter m none).take (medium.cap (limit + 1))).length := by
    rw [List.length_take]
    omega
  have hpage : ∀ {keys : List String} {next : Option κ},
      FilePage md5 medium codec limit states 0 none keys next ↔
        keys = (keysAfter m none).take (medium.cap (limit + 1)) ∧ next = none := by
    intro keys next
    rw [filePage_iff h nofun, Option.map_none, htake, if_neg hmore]
  constructor
  · intro hwalk
    cases hwalk with
    | last hlast => rw [(hpage.mp hlast).1]
    | more hmore _ => nomatch (hpage.mp hmore).2
  · rintro rfl
    exact .last (hpage.mpr ⟨rfl, rfl⟩)

/-- **Walks are right over a medium that gives one object more than the limit.** -/
theorem walksRight_of_cap_eq (hlimit : 1 ≤ limit) (hcap : medium.cap (limit + 1) = limit + 1)
    (h : medium.Holds s m) : WalksRight md5 medium codec limit s m where
  ends := (filePage_answers hlimit hcap fun _ => h).exists_walk 0
  complete pages hwalk := complete_of_flatten_eq h
    ((filePage_answers hlimit hcap fun _ => h).flatten_eq (Finset.sortedLT_sort _).pairwise
      (fun _ => Iff.rfl) hwalk)
  present states maps _ _ hstates pages hwalk key hkey := by
    have hcount := (filePage_answers hlimit hcap fun t => (hstates t).holds).countP_eq_one
      (fun t => ⟨key, (Finset.mem_sort _).mpr (Finmap.mem_keys.mpr (hkey t)), rfl⟩) hwalk
    rw [← hcount, List.count]
    refine List.countP_congr fun a _ => ?_
    simp only [beq_iff_eq, decide_eq_true_eq, id_eq]

/-- Walks are right over a medium that gives all its objects at once. -/
theorem walksRight_of_card_le (hcap : medium.cap (limit + 1) ≤ limit)
    (hcard : m.keys.card ≤ medium.cap (limit + 1)) (h : medium.Holds s m) :
    WalksRight md5 medium codec limit s m := by
  have hall : (keysAfter m none).take (medium.cap (limit + 1)) = m.keys.sort (· ≤ ·) := by
    rw [keysAfter_none, List.take_of_length_le (by rw [Finset.length_sort]; exact hcard)]
  have hpages : ∀ {states : ℕ → medium.Store} {pages : List (List String)}, states 0 = s →
      Walk (FilePage md5 medium codec limit states) 0 none pages →
        pages.flatten = m.keys.sort (· ≤ ·) := by
    rintro states pages rfl hwalk
    rw [(walk_iff_of_cap hcap h).mp hwalk, List.flatten_singleton, hall]
  refine ⟨⟨_, (walk_iff_of_cap hcap h).mpr rfl⟩,
    fun pages hwalk => complete_of_flatten_eq h (hpages rfl hwalk), ?_⟩
  rintro states maps hstate rfl _ pages hwalk key hkey
  rw [hpages hstate hwalk]
  exact List.count_eq_one_of_mem (Finset.sort_nodup _ _)
    ((Finset.mem_sort _).mpr (Finmap.mem_keys.mpr (hkey 0)))

/-- Over a medium that gives no more objects than the limit, and not all of them, a walk misses
some. -/
theorem not_walksRight_of_cap_lt (hcap : medium.cap (limit + 1) ≤ limit)
    (hcard : medium.cap (limit + 1) < m.keys.card) (h : medium.Holds s m) :
    ¬ WalksRight md5 medium codec limit s m := by
  intro hright
  obtain ⟨hflatten, -⟩ := hright.complete _ ((walk_iff_of_cap hcap h).mpr rfl)
  have hlength := congrArg List.length hflatten
  rw [List.flatten_singleton, List.length_take, keysAfter_none, Finset.length_sort] at hlength
  omega

/-- **When walks return every file.** From any state that the service leaves, with any limit of at
least one, walks over the files are right if and only if the medium is no bucket, the limit is below
a thousand, or there are at most a thousand files. -/
theorem walksRight_iff (hlimit : 1 ≤ limit) (h : FileStates md5 medium s m) :
    WalksRight md5 medium codec limit s m ↔ medium.Fits limit m := by
  rw [FileMedium.fits_iff]
  constructor
  · intro hright
    rcases cap_or medium limit with hcap | hcap
    · exact .inl hcap
    · refine .inr ⟨hcap, not_lt.mp fun hcard => ?_⟩
      exact not_walksRight_of_cap_lt hcap hcard h.holds hright
  · rintro (hcap | ⟨hcap, hcard⟩)
    · exact walksRight_of_cap_eq hlimit hcap h.holds
    · exact walksRight_of_card_le hcap hcard h.holds

end

/-! ## A thousand files and one -/

theorem hexKey_injective : Function.Injective hexKey := by
  intro u v h
  have hdigits : Uuid.hexDigits 32 u = Uuid.hexDigits 32 v := String.ofList_injective h
  obtain ⟨values, hvalues, hu⟩ := Uuid.mapM_hexDigits 32 u
  obtain ⟨values', hvalues', hv⟩ := Uuid.mapM_hexDigits 32 v
  rw [hdigits, hvalues'] at hvalues
  cases hvalues
  have hmod : (u : ℕ) % 16 ^ 32 = v % 16 ^ 32 := hu.symm.trans hv
  have hlt : ∀ w : Uuid, (w : ℕ) < 16 ^ 32 := fun w => w.isLt
  rw [Nat.mod_eq_of_lt (hlt u), Nat.mod_eq_of_lt (hlt v)] at hmod
  exact Fin.ext hmod

/-- So many empty files, under the first keys. -/
def numberedFiles : ℕ → FileMap
  | 0 => ∅
  | n + 1 => (numberedFiles n).insert (hexKey (Fin.ofNat (2 ^ 128) n)) ⟨.empty, {}, 0⟩

theorem mem_numberedFiles {n : ℕ} {key : String} (h : key ∈ numberedFiles n) :
    ∃ i < n, key = hexKey (Fin.ofNat (2 ^ 128) i) := by
  induction n with
  | zero => exact absurd h Finmap.notMem_empty
  | succ n ih =>
      rcases Finmap.mem_insert.mp h with rfl | h
      · exact ⟨n, Nat.lt_succ_self n, rfl⟩
      · obtain ⟨i, hi, hkey⟩ := ih h
        exact ⟨i, Nat.lt_succ_of_lt hi, hkey⟩

theorem card_numberedFiles {n : ℕ} (hn : n ≤ 2 ^ 128) : (numberedFiles n).keys.card = n := by
  induction n with
  | zero => rfl
  | succ n ih =>
      have hnew : hexKey (Fin.ofNat (2 ^ 128) n) ∉ (numberedFiles n).keys := by
        intro h
        obtain ⟨i, hi, hkey⟩ := mem_numberedFiles (Finmap.mem_keys.mp h)
        have hval := congrArg Fin.val (hexKey_injective hkey)
        simp only [Fin.val_ofNat] at hval
        rw [Nat.mod_eq_of_lt (by omega), Nat.mod_eq_of_lt (by omega)] at hval
        omega
      have hkeys : (numberedFiles (n + 1)).keys =
          insert (hexKey (Fin.ofNat (2 ^ 128) n)) (numberedFiles n).keys := by
        ext key
        rw [Finset.mem_insert, Finmap.mem_keys, Finmap.mem_keys]
        exact Finmap.mem_insert
      rw [hkeys, Finset.card_insert_of_notMem hnew, ih (by omega)]

/-- The files are what the service leaves in a bucket without a prefix. -/
theorem fileStates_numberedFiles (md5 : ByteArray → String) (n : ℕ) :
    FileStates md5 (.s3Files "") (numberedFiles n) (numberedFiles n) := by
  induction n with
  | zero => exact .empty
  | succ n ih => exact .create (Fin.ofNat (2 ^ 128) n) .empty {} 0 "" "" ih rfl

/-- Three files of a bucket, two at a time. -/
theorem walksRight_numberedFiles :
    letI := TextRules.ascii
    WalksRight (fun _ => "d41d8cd98f00b204e9800998ecf8427e") (.s3Files "") CursorCodec.plain 2
      (numberedFiles 3) (numberedFiles 3) := by
  let _ := TextRules.ascii
  exact (walksRight_iff (by decide) (fileStates_numberedFiles _ 3)).mpr (.inl (by decide))

/-- Of a thousand files and one in a bucket, a walk with the limit a thousand returns a thousand. -/
theorem not_walksRight_bucket :
    letI := TextRules.ascii
    FileStates (fun _ => "d41d8cd98f00b204e9800998ecf8427e") (.s3Files "") (numberedFiles 1001)
        (numberedFiles 1001) ∧
      ¬ WalksRight (fun _ => "d41d8cd98f00b204e9800998ecf8427e") (.s3Files "") CursorCodec.plain
        1000 (numberedFiles 1001) (numberedFiles 1001) := by
  let _ := TextRules.ascii
  have hstates := fileStates_numberedFiles (fun _ => "d41d8cd98f00b204e9800998ecf8427e") 1001
  have hcard : (numberedFiles 1001).keys.card = 1001 := card_numberedFiles (by norm_num)
  refine ⟨hstates, not_walksRight_of_cap_lt (by decide) ?_ hstates.holds⟩
  rw [hcard]
  decide

end Resourcey
