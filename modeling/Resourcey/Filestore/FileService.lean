import Resourcey.Core.Interface
import Resourcey.Filestore.LocalFileStore

/-!
# The file service

`FileService` over a medium. There is no metadata table: whether a file exists is asked of the
medium, which can neither filter its listing nor condition a deletion, so a call with a filter or a
condition is refused, whatever the filter says.
-/

namespace Resourcey

/-- `FileStore`, as the service uses a medium. Whether a key is refused is settled by the key, not
by what the medium holds. -/
structure FileStore (σ : Type) where
  put : String → ByteArray → FileMetadata → σ → Except ServiceFailure StoredObject × σ
  head : String → σ → Except ServiceFailure (Option StoredObject)
  delete : String → σ → Except ServiceFailure Unit × σ
  listObjects : Option String → ℕ → σ → Except ServiceFailure (List StoredObject)
  countObjects : σ → ℕ
  head_isOk : ∀ key s t, (head key s).isOk = (head key t).isOk

/-- `FileDTO`. Absent fields are missing. -/
structure FileDto where
  id : String
  name : Option (Option String) := none
  contentType : Option (Option String) := none
  size : ℕ
  checksum : Option (Option String) := none
  etag : String
  updatedAt : ℕ
  deriving DecidableEq

/-- What an upload carries. -/
structure FileUpload where
  name : String
  contentType : Option String
  content : ByteArray

/-- `FileResource`: its medium, the cap on an upload and the checksum of what is uploaded. -/
structure FileResource (σ : Type) where
  store : FileStore σ
  typeName : String := "FileResource"
  maxSize : Option ℕ := none
  supported : List Action := [.read, .delete, .search, .count, .batchRead]
  sha256 : ByteArray → String

/-- `_full_dto`. -/
def StoredObject.fullDto (o : StoredObject) : FileDto where
  id := o.key
  name := some o.name
  contentType := some o.contentType
  size := o.size
  checksum := some o.checksum
  etag := o.etag
  updatedAt := o.updatedAt

/-- `_search_dto`. -/
def StoredObject.searchDto (o : StoredObject) : FileDto where
  id := o.key
  size := o.size
  etag := o.etag
  updatedAt := o.updatedAt

namespace FileResource

variable {σ κ : Type} (f : FileResource σ)

/-- `_reject_filter`. -/
def rejectFilter : Option SearchFilter → Except ServiceFailure Unit
  | none => .ok ()
  | some _ => .error (.raised (.unsupportedFilter (f.typeName ++
      " has no filter surface: a medium's listing call cannot filter by declared metadata")))

/-- `_reject_condition`. -/
def rejectCondition : Option SearchFilter → Except ServiceFailure Unit
  | none => .ok ()
  | some _ => .error (.raised (.unsupportedFilter (f.typeName ++ " has no filter surface: a " ++
      "conditional delete cannot be expressed against a medium's metadata")))

/-- `create`, with the key that was generated. -/
def create (key : String) (upload : FileUpload) (s : σ) : Except ServiceFailure FileDto × σ :=
  let put :=
    let (stored, s) := f.store.put key upload.content
      { name := upload.name
        contentType := match upload.contentType with
          | none | some "" => "application/octet-stream"
          | some contentType => contentType
        checksum := f.sha256 upload.content } s
    (stored.map StoredObject.fullDto, s)
  match f.maxSize with
  | none => put
  | some maxSize =>
    if maxSize < upload.content.size then
      (.error (.raised (.invalidInput ("Upload is " ++ toString upload.content.size ++
        " bytes, exceeding the " ++ toString maxSize ++ "-byte cap"))), s)
    else put

/-- `_after_key`. -/
def afterKey [TextRules] (codec : CursorCodec κ) :
    Option κ → Except ServiceFailure (Option String)
  | none => .ok none
  | some cursor =>
    match codec.decode cursor with
    | .error message => .error (.raised (.invalidInput ("Invalid or tampered cursor: " ++ message)))
    | .ok c =>
      if c.sortField ≠ none ∨ c.ascending = false then
        .error (.raised (.invalidInput ("Cursor was built for a different sort than the current " ++
          "request; start a new search without a cursor.")))
      else .ok (some (TextRules.str c.idValue))

/-- `_encode_cursor`. -/
def encodeCursor (codec : CursorCodec κ) (o : StoredObject) : κ :=
  codec.encode ⟨none, true, .scalar (.str o.key), .scalar (.str o.key)⟩

variable [TextRules]

/-- `read`. -/
def read (id : Value) (s : σ) : Except ServiceFailure FileDto := do
  match ← f.store.head (TextRules.str id) s with
  | none => throw (.raised (.notFound id))
  | some found => return found.fullDto

/-- A file is deleted if it is there. -/
def deleteFound (id : Value) (s : σ) : Except ServiceFailure Bool × σ :=
  match f.store.head (TextRules.str id) s with
  | .error e => (.error e, s)
  | .ok none => (.ok false, s)
  | .ok (some _) =>
    let (deleted, s) := f.store.delete (TextRules.str id) s
    (deleted.map fun _ => true, s)

/-- `delete`. -/
def delete (id : Value) (condition : Option SearchFilter) (s : σ) :
    Except ServiceFailure Bool × σ :=
  match f.rejectCondition condition with
  | .error e => (.error e, s)
  | .ok _ => f.deleteFound id s

/-- `search`. The listing is in the order of the keys, whatever sort is asked for. -/
def search (codec : CursorCodec κ) (searchFilter : Option SearchFilter) (cursor : Option κ)
    (limit : ℕ) (s : σ) : Except ServiceFailure (Page FileDto κ) := do
  f.rejectFilter searchFilter
  let after ← afterKey codec cursor
  let found ← f.store.listObjects after (limit + 1) s
  let page := Page.ofFound limit (encodeCursor codec) found
  return { page with items := page.items.map StoredObject.searchDto }

/-- `count`. -/
def count (searchFilter : Option SearchFilter) (s : σ) : Except ServiceFailure ℕ := do
  f.rejectFilter searchFilter
  return f.store.countObjects s

/-- `batch_read`. -/
def batchRead (ids : List Value) (s : σ) : Except ServiceFailure (List (Option FileDto)) :=
  ids.mapM fun id => (f.store.head (TextRules.str id) s).map (·.map StoredObject.fullDto)

/-- `apply_edits`. -/
def applyEdits : List (Edit FileUpload) → σ → Except ServiceFailure (List (Option FileDto)) × σ
  | [], s => (.ok [], s)
  | .create _ :: _, s => (.error (.raised (.invalidInput ("a batch cannot create a file: " ++
      "uploading requires multipart/form-data, which a JSON batch body cannot carry. POST to " ++
      "the resource directly."))), s)
  | .update _ _ :: _, s =>
    (.error (.raised (.invalidInput "a batch cannot update: files have no update action")), s)
  | .delete id condition :: edits, s =>
    if .delete ∉ f.supported then
      (.error (.raised (.invalidInput "a batch cannot delete: delete is not supported")), s)
    else
      match f.delete id condition s with
      | (.error e, s) => (.error e, s)
      | (.ok _, s) =>
        let (results, s) := applyEdits edits s
        (results.map (none :: ·), s)

/-- `FileService`. The environment of a creation is the key that is generated for it. -/
def service (codec : CursorCodec κ) : Service σ FileDto κ FileUpload String where
  call
    | .create key upload => f.create key upload
    | .read id => fun s => (f.read id s, s)
    | .delete id condition => f.delete id condition
    | .search searchFilter _ cursor limit => fun s =>
      (f.search codec searchFilter cursor limit s, s)
    | .count searchFilter => fun s => (f.count searchFilter s, s)
    | .batchRead ids => fun s => (f.batchRead ids s, s)
    | .applyEdits edits => f.applyEdits (edits.map Prod.snd)
    | .update _ _ _ | .authorize _ _ => fun s => (.error .notImplemented, s)

end FileResource

end Resourcey
