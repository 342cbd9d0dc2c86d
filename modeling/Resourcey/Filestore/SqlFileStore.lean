import Resourcey.Filestore.LocalFileStore

/-!
# The SQL file store

An object is one row of a table. A put reads the row of its key in a session, assigns to it, and
commits: a row that was not there is inserted, and of one that was there those columns are updated
whose value is not the one that was read. Other sessions may commit in between.

If no other session has, a put is atomic, and in any order of the steps of any number of sessions
every call answers as a finite map does (`blobs_answer_eq`). If one has, the put may raise, or leave
a row with columns of both, but the tag of a row is still that of its bytes (`blobs_tagged`). And
calls one after another are answered as the local store answers them (`media_answer_alike`).
-/

namespace Resourcey

/-! ## The table -/

/-- `FileBlob`: a row of the blob table. -/
structure FileBlob where
  key : String
  data : ByteArray
  name : Option String
  contentType : Option String
  checksum : Option String
  etag : String
  updatedAt : ℕ
  deriving DecidableEq

/-- The blob table. Its key is a primary key. -/
structure BlobTable where
  rows : List FileBlob
  nodup : (rows.map (·.key)).Nodup

/-- Why a commit raises: a row with the key is there by now, the row that was read is gone, or the
database does not take a value. -/
inductive BlobError where
  | integrity
  | staleData
  | data
  deriving DecidableEq

namespace BlobTable

/-- No rows. -/
def empty : BlobTable := ⟨[], List.nodup_nil⟩

/-- `session.get(FileBlob, key)`, in a new session. -/
def get (t : BlobTable) (key : String) : Option FileBlob := t.rows.find? fun row => row.key = key

theorem mem_of_get {t : BlobTable} {key : String} {row : FileBlob} (h : t.get key = some row) :
    row ∈ t.rows ∧ row.key = key :=
  ⟨List.mem_of_find?_eq_some h, by simpa using List.find?_some h⟩

theorem get_of_mem {t : BlobTable} {row : FileBlob} (h : row ∈ t.rows) :
    t.get row.key = some row := by
  cases hget : t.get row.key with
  | none =>
      have hnone := List.find?_eq_none.mp hget row h
      simp at hnone
  | some other =>
      obtain ⟨hother, hkey⟩ := mem_of_get hget
      rw [List.inj_on_of_nodup_map t.nodup hother h hkey]

theorem get_eq_none_iff {t : BlobTable} {key : String} :
    t.get key = none ↔ key ∉ t.rows.map (·.key) := by
  simp [get, List.find?_eq_none]

/-- `INSERT`. A row with the key makes it fail. -/
def insert (t : BlobTable) (row : FileBlob) : Except BlobError BlobTable :=
  if h : row.key ∈ t.rows.map (·.key) then .error .integrity
  else .ok ⟨t.rows ++ [row], by
    rw [List.map_append, List.map_singleton]
    exact t.nodup.append (List.nodup_singleton _) (List.disjoint_singleton.mpr h)⟩

/-- `UPDATE` of the row with the key. -/
def update (t : BlobTable) (key : String) (change : FileBlob → FileBlob)
    (hchange : ∀ row, (change row).key = row.key) : BlobTable where
  rows := t.rows.map fun row => if row.key = key then change row else row
  nodup := by
    have hkeys : (fun row : FileBlob => row.key) ∘
        (fun row => if row.key = key then change row else row) = fun row => row.key := by
      funext row
      rw [Function.comp]
      split
      · exact hchange row
      · rfl
    rw [List.map_map, hkeys]
    exact t.nodup

/-- `DELETE` of the row with the key. -/
def erase (t : BlobTable) (key : String) : BlobTable where
  rows := t.rows.filter fun row => row.key ≠ key
  nodup := t.nodup.sublist (List.filter_sublist.map _)

theorem get_insert {t t' : BlobTable} {row : FileBlob} (h : t.insert row = .ok t')
    (key : String) : t'.get key = if row.key = key then some row else t.get key := by
  rw [insert] at h
  split at h
  · cases h
  · next hfresh =>
      cases h
      rw [get, List.find?_append, ← get]
      split
      · next heq =>
          rw [← heq, get_eq_none_iff.mpr hfresh]
          simp
      · next hne => simp [hne]

theorem get_update (t : BlobTable) (key : String) (change : FileBlob → FileBlob)
    (hchange : ∀ row, (change row).key = row.key) (other : String) :
    (t.update key change hchange).get other =
      if other = key then (t.get other).map change else t.get other := by
  rw [get, update, get, List.find?_map]
  have hkeys : ∀ row : FileBlob, (if row.key = key then change row else row).key = row.key := by
    intro row
    split
    · exact hchange row
    · rfl
  have hfind : ((fun row : FileBlob => decide (row.key = other)) ∘
      fun row => if row.key = key then change row else row) = fun row => decide (row.key = other) :=
    funext fun row => by rw [Function.comp, hkeys]
  rw [hfind]
  split
  · next heq =>
      refine Option.map_congr fun row hrow => ?_
      rw [if_pos ((by simpa using List.find?_some hrow : row.key = other).trans heq)]
  · next hne =>
      refine (Option.map_congr (g := id) fun row hrow => ?_).trans Option.map_id_apply
      exact if_neg ((by simpa using List.find?_some hrow : row.key = other) ▸ hne)

theorem get_erase (t : BlobTable) (key other : String) :
    (t.erase key).get other = if other = key then none else t.get other := by
  rw [get, erase, List.find?_filter, get]
  split
  · next heq =>
      subst heq
      rw [List.find?_eq_none]
      simp
  · next hne =>
      congr 1
      funext row
      rcases eq_or_ne row.key other with heq | hrow
      · simp [heq, hne]
      · simp [hrow]

end BlobTable

/-! ## Sessions -/

/-- A put, with the time when it began. -/
structure BlobPut where
  key : String
  data : ByteArray
  metadata : FileMetadata
  now : ℕ

/-- The value of a column after the `UPDATE` of an object: a value that was read is not written. -/
def assigned {α : Type} [DecidableEq α] (loaded value current : α) : α :=
  if value = loaded then current else value

/-- The row after the `UPDATE` of an object that was loaded and assigned to. -/
def FileBlob.assign (loaded value row : FileBlob) : FileBlob where
  key := row.key
  data := assigned loaded.data value.data row.data
  name := assigned loaded.name value.name row.name
  contentType := assigned loaded.contentType value.contentType row.contentType
  checksum := assigned loaded.checksum value.checksum row.checksum
  etag := assigned loaded.etag value.etag row.etag
  updatedAt := assigned loaded.updatedAt value.updatedAt row.updatedAt

theorem FileBlob.key_assign (loaded value row : FileBlob) :
    (loaded.assign value row).key = row.key := rfl

/-- `_to_stored`. -/
def FileBlob.toStored (row : FileBlob) : StoredObject where
  key := row.key
  size := row.data.size
  name := row.name
  contentType := row.contentType
  checksum := row.checksum
  etag := row.etag
  updatedAt := row.updatedAt

section
variable (md5 : ByteArray → String)

/-- The values that a put assigns. -/
def BlobPut.blob (put : BlobPut) : FileBlob where
  key := put.key
  data := put.data
  name := put.metadata.name
  contentType := put.metadata.contentType
  checksum := put.metadata.checksum
  etag := "\"" ++ md5 put.data ++ "\""
  updatedAt := put.now

/-- `session.commit()` of a put that has found this row. The database takes a row or not. -/
def flush (accepts : FileBlob → Bool) (t : BlobTable) (existing : Option FileBlob)
    (value : FileBlob) : Except BlobError BlobTable :=
  match existing with
  | none => if accepts value then t.insert value else .error .data
  | some loaded =>
    if loaded = value then .ok t
    else if (t.get value.key).isNone then .error .staleData
    else if ¬ accepts value then .error .data
    else .ok (t.update value.key (loaded.assign value) (loaded.key_assign value))

/-- `list_objects`. -/
def BlobTable.listObjects (t : BlobTable) (after : Option String) (limit : ℕ) :
    List StoredObject :=
  let rows := (t.rows.filter fun row => ∀ a ∈ after, a < row.key).insertionSort (·.key ≤ ·.key)
  (rows.take limit).map FileBlob.toStored

/-- The calls that are one statement. -/
def callTable (t : BlobTable) : FileCall → Option (FileAnswer × BlobTable)
  | .put .. => none
  | .get key => some (.bytes ((t.get key).map (·.data)), t)
  | .head key => some (.object ((t.get key).map FileBlob.toStored), t)
  | .delete key => some (.deleted, t.erase key)
  | .list after limit => some (.objects (t.listObjects after limit), t)
  | .count => some (.count t.rows.length, t)

/-- A put between its two statements, and the row that it has found. -/
structure BlobSession where
  put : BlobPut
  existing : Option FileBlob

/-- What a session does next. -/
inductive BlobAction where
  | beginPut (id : ℕ) (put : BlobPut)
  | commitPut (id : ℕ)
  | abandonPut (id : ℕ)
  | call (c : FileCall)

/-- The table, the puts under way, and what was answered and raised. What the map answers to the
calls that were answered is kept beside. -/
structure BlobRun where
  table : BlobTable := .empty
  sessions : List (ℕ × BlobSession) := []
  map : FileMap := ∅
  answers : List FileAnswer := []
  expected : List FileAnswer := []
  raised : List (BlobPut × BlobError) := []

/-- A put, as a call of the map. -/
def BlobPut.toCall (put : BlobPut) : FileCall :=
  .put put.key put.data put.metadata put.now "" ""

namespace BlobRun

/-- The puts under way but one. -/
def close (s : BlobRun) (id : ℕ) : BlobRun :=
  { s with sessions := s.sessions.filter fun session => session.1 ≠ id }

/-- A call is answered, and the map is called too. -/
def answer (s : BlobRun) (c : FileCall) (answer : FileAnswer) (table : BlobTable) : BlobRun :=
  { s with
    table
    map := (callMap md5 s.map c).2
    answers := s.answers ++ [answer]
    expected := s.expected ++ [(callMap md5 s.map c).1] }

/-- A step of a session. -/
def step (accepts : FileBlob → Bool) (s : BlobRun) : BlobAction → Option BlobRun
  | .beginPut id put =>
    if (s.sessions.lookup id).isSome then none
    else some { s with sessions := (id, ⟨put, s.table.get put.key⟩) :: s.sessions }
  | .commitPut id =>
    (s.sessions.lookup id).map fun session =>
      match flush accepts s.table session.existing (session.put.blob md5) with
      | .ok table =>
        (s.close id).answer md5 session.put.toCall (.stored (session.put.blob md5).toStored) table
      | .error e => { s.close id with raised := s.raised ++ [(session.put, e)] }
  | .abandonPut id => if (s.sessions.lookup id).isSome then some (s.close id) else none
  | .call c => (callTable s.table c).map fun (answer, table) => s.answer md5 c answer table

/-- A put that commits finds the row as it has read it, and the database takes its values. -/
def Uncontended (accepts : FileBlob → Bool) (s : BlobRun) (a : BlobAction) : Prop :=
  ∀ id session, a = .commitPut id → s.sessions.lookup id = some session →
    s.table.get session.put.key = session.existing ∧ accepts (session.put.blob md5) = true

end BlobRun

end

/-! ## What a commit writes -/

section
variable {md5 : ByteArray → String} {accepts : FileBlob → Bool} {t t' : BlobTable} {m : FileMap}

@[simp]
theorem assigned_self {α : Type} [DecidableEq α] (loaded value : α) :
    assigned loaded value loaded = value := by
  rw [assigned]
  split
  · next h => exact h.symm
  · rfl

/-- An object that nobody else has written takes the values. -/
theorem FileBlob.assign_self {loaded value : FileBlob} (h : loaded.key = value.key) :
    loaded.assign value loaded = value := by
  simp only [assign, assigned_self, h]

/-- A put that finds the row as it has read it writes its own. -/
theorem flush_uncontended {value : FileBlob} (haccepts : accepts value = true) :
    ∃ t', flush accepts t (t.get value.key) value = .ok t' ∧
      ∀ key, t'.get key = if value.key = key then some value else t.get key := by
  cases hget : t.get value.key with
  | none =>
      have hfresh := BlobTable.get_eq_none_iff.mp hget
      obtain ⟨t', hinsert⟩ : ∃ t', t.insert value = .ok t' := ⟨_, dif_neg hfresh⟩
      refine ⟨t', ?_, BlobTable.get_insert hinsert⟩
      simp only [flush, if_pos haccepts, hinsert]
  | some loaded =>
      obtain ⟨hmem, hkey⟩ := BlobTable.mem_of_get hget
      rcases eq_or_ne loaded value with rfl | hne
      · refine ⟨t, if_pos rfl, fun key => ?_⟩
        split
        · next heq => rw [← heq, hget]
        · rfl
      · refine ⟨t.update value.key (loaded.assign value) (loaded.key_assign value), ?_, ?_⟩
        · rw [flush, if_neg hne, hget, if_neg (by simp), if_neg (by simp [haccepts])]
        · intro key
          rw [BlobTable.get_update]
          rcases eq_or_ne value.key key with rfl | hother
          · rw [if_pos rfl, if_pos rfl, hget, Option.map_some, FileBlob.assign_self hkey]
          · rw [if_neg hother, if_neg hother.symm]

/-! ## The table and the map -/

variable (md5) in
/-- The table holds the objects of the map and no others, each with the tag of its bytes. -/
def BlobTable.Holds (t : BlobTable) (m : FileMap) : Prop :=
  ∀ key, t.get key =
    (m.lookup key).map fun o => (BlobPut.mk key o.data o.metadata o.updatedAt).blob md5

namespace BlobTable.Holds

theorem empty : BlobTable.empty.Holds md5 ∅ := fun _ => rfl

theorem insert (h : t.Holds md5 m) (put : BlobPut)
    (hget : ∀ key, t'.get key = if put.key = key then some (put.blob md5) else t.get key) :
    t'.Holds md5 (m.insert put.key ⟨put.data, put.metadata, put.now⟩) := by
  intro key
  rw [hget]
  rcases eq_or_ne put.key key with rfl | hne
  · rw [if_pos rfl, Finmap.lookup_insert]
    rfl
  · rw [if_neg hne, Finmap.lookup_insert_of_ne _ hne.symm, h key]

theorem erase (h : t.Holds md5 m) (key : String) : (t.erase key).Holds md5 (m.erase key) := by
  intro other
  rw [BlobTable.get_erase]
  split
  · next heq =>
      rw [heq, Finmap.lookup_erase]
      rfl
  · next hne => rw [Finmap.lookup_erase_ne hne, h other]

theorem mem_keys_iff (h : t.Holds md5 m) {key : String} :
    key ∈ t.rows.map (·.key) ↔ key ∈ m := by
  rw [← not_iff_not, ← BlobTable.get_eq_none_iff, h key, Option.map_eq_none_iff,
    Finmap.lookup_eq_none]

theorem length_rows (h : t.Holds md5 m) : t.rows.length = m.keys.card := by
  rw [← List.length_map (·.key), ← List.toFinset_card_of_nodup t.nodup]
  congr 1
  ext key
  rw [List.mem_toFinset, h.mem_keys_iff, Finmap.mem_keys]

/-- What the table reports of a key. -/
theorem toStored_get (h : t.Holds md5 m) (key : String) :
    (t.get key).map FileBlob.toStored = (m.lookup key).map (reported md5 key) := by
  rw [h key, Option.map_map]
  rfl

/-- Rows are what the table has under their keys. -/
theorem filterMap_get {rows : List FileBlob} (hrows : ∀ row ∈ rows, row ∈ t.rows) :
    (rows.map (·.key)).filterMap (fun key => (t.get key).map FileBlob.toStored) =
      rows.map FileBlob.toStored := by
  induction rows with
  | nil => rfl
  | cons row rows ih =>
      obtain ⟨hrow, hrest⟩ := List.forall_mem_cons.mp hrows
      rw [List.map_cons, List.filterMap_cons, BlobTable.get_of_mem hrow, Option.map_some,
        List.map_cons, ih hrest]

theorem listObjects_eq (h : t.Holds md5 m) (after : Option String) (limit : ℕ) :
    t.listObjects after limit =
      (m.page after limit).filterMap fun key => (m.lookup key).map (reported md5 key) := by
  have hperm := List.perm_insertionSort (fun a b : FileBlob => a.key ≤ b.key)
    (t.rows.filter fun row => ∀ a ∈ after, a < row.key)
  have hsorted : (((t.rows.filter fun row => ∀ a ∈ after, a < row.key).insertionSort
      (·.key ≤ ·.key)).map (·.key)).Pairwise (· ≤ ·) := by
    rw [List.pairwise_map]
    exact List.pairwise_insertionSort _ _
  have hnodup : (((t.rows.filter fun row => ∀ a ∈ after, a < row.key).insertionSort
      (·.key ≤ ·.key)).map (·.key)).Nodup :=
    (hperm.map _).nodup_iff.mpr (t.nodup.sublist (List.filter_sublist.map _))
  have hkeys : (((t.rows.filter fun row => ∀ a ∈ after, a < row.key).insertionSort
      (·.key ≤ ·.key)).map (·.key)).toFinset = m.keys.filter fun key => ∀ a ∈ after, a < key := by
    ext key
    rw [List.mem_toFinset, (hperm.map _).mem_iff, Finset.mem_filter, Finmap.mem_keys,
      ← h.mem_keys_iff, List.mem_map, List.mem_map]
    constructor
    · rintro ⟨row, hrow, rfl⟩
      obtain ⟨hmem, hafter⟩ := List.mem_filter.mp hrow
      exact ⟨⟨row, hmem, rfl⟩, by simpa using hafter⟩
    · rintro ⟨⟨row, hrow, rfl⟩, hafter⟩
      exact ⟨row, List.mem_filter.mpr ⟨hrow, by simpa using hafter⟩, rfl⟩
  have hpage : (((t.rows.filter fun row => ∀ a ∈ after, a < row.key).insertionSort
      (·.key ≤ ·.key)).take limit).map (·.key) = m.page after limit := by
    rw [List.map_take, FileMap.page, sortedKeys, ← hkeys,
      (List.toFinset_sort (· ≤ ·) hnodup).mpr hsorted]
  have hrows : ∀ row ∈ ((t.rows.filter fun row => ∀ a ∈ after, a < row.key).insertionSort
      (·.key ≤ ·.key)).take limit, row ∈ t.rows := fun row hrow =>
    List.mem_of_mem_filter (hperm.mem_iff.mp (List.mem_of_mem_take hrow))
  rw [BlobTable.listObjects, ← filterMap_get hrows, hpage]
  simp only [h.toStored_get]

/-- A statement answers as the map does. -/
theorem callTable (h : t.Holds md5 m) {c : FileCall} {answer : FileAnswer}
    (hcall : callTable t c = some (answer, t')) :
    answer = (callMap md5 m c).1 ∧ t'.Holds md5 (callMap md5 m c).2 := by
  cases c with
  | put key data metadata now tmp metaTmp => cases hcall
  | get key =>
      cases hcall
      refine ⟨congrArg FileAnswer.bytes ?_, h⟩
      rw [h key, Option.map_map]
      rfl
  | head key =>
      cases hcall
      exact ⟨congrArg FileAnswer.object (h.toStored_get key), h⟩
  | delete key =>
      cases hcall
      exact ⟨rfl, h.erase key⟩
  | list after limit =>
      cases hcall
      exact ⟨congrArg FileAnswer.objects (h.listObjects_eq after limit), h⟩
  | count =>
      cases hcall
      exact ⟨congrArg FileAnswer.count h.length_rows, h⟩

end BlobTable.Holds

end

/-! ## Sessions that are not contended -/

namespace BlobRun

section
variable {md5 : ByteArray → String} {accepts : FileBlob → Bool}

variable (md5) in
/-- The table holds the objects of the map, all answers were those of the map, and no put raised. -/
structure AnswersAlike (s : BlobRun) : Prop where
  holds : s.table.Holds md5 s.map
  answers : s.answers = s.expected
  raised : s.raised = []

theorem AnswersAlike.step {s s' : BlobRun} {a : BlobAction} (h : AnswersAlike md5 s)
    (hquiet : s.Uncontended md5 accepts a) (ha : s.step md5 accepts a = some s') :
    AnswersAlike md5 s' := by
  cases a with
  | beginPut id put =>
      rw [BlobRun.step] at ha
      split at ha
      · cases ha
      · cases ha
        exact ⟨h.holds, h.answers, h.raised⟩
  | commitPut id =>
      obtain ⟨⟨put, existing⟩, hsession, rfl⟩ := Option.map_eq_some_iff.mp ha
      obtain ⟨hread, haccepts⟩ := hquiet id _ rfl hsession
      change s.table.get put.key = existing at hread
      subst hread
      obtain ⟨t', hflush, hget⟩ := flush_uncontended (t := s.table) haccepts
      have hflush : flush accepts s.table (s.table.get put.key) (put.blob md5) = .ok t' := hflush
      simp only [hflush]
      exact ⟨h.holds.insert put hget, congrArg (· ++ _) h.answers, h.raised⟩
  | abandonPut id =>
      rw [BlobRun.step] at ha
      split at ha
      · cases ha
        exact ⟨h.holds, h.answers, h.raised⟩
      · cases ha
  | call c =>
      obtain ⟨⟨answer, t'⟩, hcall, rfl⟩ := Option.map_eq_some_iff.mp ha
      obtain ⟨rfl, hholds⟩ := h.holds.callTable hcall
      exact ⟨hholds, congrArg (· ++ _) h.answers, h.raised⟩

/-- **Puts that are not contended are atomic.** In every order of the steps of any number of
sessions in which each put that commits finds the row of its key as it has read it, and the database
takes its values, no put raises, and all calls answer as the map does, in the order of the
commits. -/
theorem blobs_answer_eq {acts : List BlobAction} {s : BlobRun}
    (hrun : Trace.Run (step md5 accepts) (Uncontended md5 accepts) {} acts s) :
    s.answers = s.expected ∧ s.raised = [] ∧ s.table.Holds md5 s.map :=
  have halike := hrun.invariant (AnswersAlike md5) (fun h hquiet ha => h.step hquiet ha)
    ⟨.empty, rfl, rfl⟩
  ⟨halike.answers, halike.raised, halike.holds⟩

/-- Two puts of different keys overlap. -/
theorem blobs_answer_eq_overlap : ∃ s : BlobRun,
    Trace.Run (step (fun _ => "") fun _ => true) (Uncontended (fun _ => "") fun _ => true) {}
      [.beginPut 0 ⟨"a", .empty, {}, 0⟩, .beginPut 1 ⟨"b", .empty, {}, 1⟩, .commitPut 1,
        .commitPut 0, .call (.list none 5)] s ∧
      s.answers = s.expected ∧ s.raised = [] ∧ s.table.Holds (fun _ => "") s.map := by
  have hbegin : ∀ s id put, Uncontended (fun _ => "") (fun _ => true) s (.beginPut id put) := by
    intro s id put id' session h
    cases h
  have hcommit : ∀ (s : BlobRun) id session, s.sessions.lookup id = some session →
      s.table.get session.put.key = session.existing →
      Uncontended (fun _ => "") (fun _ => true) s (.commitPut id) := by
    intro s id session hsession hread id' session' h hsession'
    cases h
    rw [hsession] at hsession'
    cases hsession'
    exact ⟨hread, rfl⟩
  have hcall : ∀ s c, Uncontended (fun _ => "") (fun _ => true) s (.call c) := by
    intro s c id session h
    cases h
  have hrun : ∃ s : BlobRun,
      Trace.Run (step (fun _ => "") fun _ => true) (Uncontended (fun _ => "") fun _ => true) {}
        [.beginPut 0 ⟨"a", .empty, {}, 0⟩, .beginPut 1 ⟨"b", .empty, {}, 1⟩, .commitPut 1,
          .commitPut 0, .call (.list none 5)] s :=
    ⟨_, .cons (hbegin _ _ _) rfl (.cons (hbegin _ _ _) rfl (.cons (hcommit _ _ _ rfl rfl) rfl
      (.cons (hcommit _ _ _ rfl rfl) rfl (.cons (hcall _ _) rfl (.nil _)))))⟩
  obtain ⟨s, hs⟩ := hrun
  exact ⟨s, hs, blobs_answer_eq hs⟩

/-- A put of the bytes that it has read is answered, though another put of the key has landed in
between, and the bytes of that one stay. -/
theorem not_blobs_answer_eq : ∃ s : BlobRun,
    Trace.Run (step (fun data => toString data.size) fun _ => true) (fun _ _ => True) {}
      [.beginPut 0 ⟨"a", .empty, {}, 0⟩, .commitPut 0, .beginPut 1 ⟨"a", .empty, {}, 1⟩,
        .beginPut 2 ⟨"a", ⟨#[7]⟩, {}, 2⟩, .commitPut 2, .commitPut 1, .call (.get "a")] s ∧
      s.raised = [] ∧ s.answers.getLast? = some (.bytes (some ⟨#[7]⟩)) ∧
      s.expected.getLast? = some (.bytes (some .empty)) := by
  refine ⟨_, .cons trivial rfl (.cons trivial rfl (.cons trivial rfl (.cons trivial rfl
    (.cons trivial rfl (.cons trivial rfl (.cons trivial rfl (.nil _))))))), ?_, ?_, ?_⟩
  · rfl
  · rfl
  · rfl


/-! ## Sessions in any order -/

variable (md5) in
/-- Every column of the row is that of one of the puts of its key, and its bytes and its tag are
those of the same put. -/
structure Columns (puts : BlobPut → Prop) (row : FileBlob) : Prop where
  data : ∃ put, puts put ∧ put.key = row.key ∧ put.data = row.data ∧
    row.etag = "\"" ++ md5 put.data ++ "\""
  name : ∃ put, puts put ∧ put.key = row.key ∧ put.metadata.name = row.name
  contentType : ∃ put, puts put ∧ put.key = row.key ∧ put.metadata.contentType = row.contentType
  checksum : ∃ put, puts put ∧ put.key = row.key ∧ put.metadata.checksum = row.checksum
  updatedAt : ∃ put, puts put ∧ put.key = row.key ∧ put.now = row.updatedAt

variable {puts : BlobPut → Prop}

theorem columns_blob {put : BlobPut} (h : puts put) : Columns md5 puts (put.blob md5) :=
  ⟨⟨put, h, rfl, rfl, rfl⟩, ⟨put, h, rfl, rfl⟩, ⟨put, h, rfl, rfl⟩, ⟨put, h, rfl, rfl⟩,
    ⟨put, h, rfl, rfl⟩⟩

/-- A column that is assigned is the old one or the new one. -/
theorem assigned_of {α : Type} [DecidableEq α] {p : α → Prop} {loaded value current : α}
    (hvalue : p value) (hcurrent : p current) : p (assigned loaded value current) := by
  rw [assigned]
  split
  · exact hcurrent
  · exact hvalue

theorem tag_inj {x y : ByteArray} :
    "\"" ++ md5 x ++ "\"" = "\"" ++ md5 y ++ "\"" ↔ md5 x = md5 y := by
  rw [← String.toList_inj, ← String.toList_inj]
  simp [String.toList_append]

/-- The columns of an `UPDATE` are written together with their tag, where no two puts have different
bytes with one digest. -/
theorem Columns.assign
    (hmd5 : ∀ p q, puts p → puts q → md5 p.data = md5 q.data → p.data = q.data)
    {loaded value row : FileBlob} (hloaded : Columns md5 puts loaded)
    (hvalue : Columns md5 puts value) (hrow : Columns md5 puts row) (hkey : value.key = row.key) :
    Columns md5 puts (loaded.assign value row) where
  data := by
    obtain ⟨p, hp, hpkey, hpdata, hptag⟩ := hvalue.data
    obtain ⟨q, hq, hqkey, hqdata, hqtag⟩ := hrow.data
    obtain ⟨r, hr, hrkey, hrdata, hrtag⟩ := hloaded.data
    have htag : value.etag = loaded.etag ↔ value.data = loaded.data := by
      rw [hptag, hrtag, tag_inj, ← hpdata, ← hrdata]
      exact ⟨hmd5 p r hp hr, congrArg md5⟩
    by_cases hsame : value.data = loaded.data
    · refine ⟨q, hq, hqkey, ?_, ?_⟩
      · exact hqdata.trans (if_pos hsame).symm
      · exact (if_pos (htag.mpr hsame)).trans hqtag
    · refine ⟨p, hp, hpkey.trans hkey, ?_, ?_⟩
      · exact hpdata.trans (if_neg hsame).symm
      · exact (if_neg fun heq => hsame (htag.mp heq)).trans hptag
  name := assigned_of (p := fun x => ∃ put, puts put ∧ put.key = row.key ∧ put.metadata.name = x)
    (hkey ▸ hvalue.name) hrow.name
  contentType := assigned_of
    (p := fun x => ∃ put, puts put ∧ put.key = row.key ∧ put.metadata.contentType = x)
    (hkey ▸ hvalue.contentType) hrow.contentType
  checksum := assigned_of
    (p := fun x => ∃ put, puts put ∧ put.key = row.key ∧ put.metadata.checksum = x)
    (hkey ▸ hvalue.checksum) hrow.checksum
  updatedAt := assigned_of (p := fun x => ∃ put, puts put ∧ put.key = row.key ∧ put.now = x)
    (hkey ▸ hvalue.updatedAt) hrow.updatedAt

/-- What a commit leaves comes from the puts. -/
theorem columns_flush
    (hmd5 : ∀ p q, puts p → puts q → md5 p.data = md5 q.data → p.data = q.data)
    {t t' : BlobTable} {existing : Option FileBlob} {value : FileBlob}
    (htable : ∀ row ∈ t.rows, Columns md5 puts row)
    (hexisting : ∀ row ∈ existing, Columns md5 puts row) (hvalue : Columns md5 puts value)
    (h : flush accepts t existing value = .ok t') : ∀ row ∈ t'.rows, Columns md5 puts row := by
  cases existing with
  | none =>
      rw [flush] at h
      split at h
      · rw [BlobTable.insert] at h
        split at h
        · cases h
        · cases h
          intro row hrow
          rcases List.mem_append.mp hrow with hrow | hrow
          · exact htable row hrow
          · rw [List.mem_singleton.mp hrow]
            exact hvalue
      · cases h
  | some loaded =>
      have hloaded := hexisting loaded rfl
      rw [flush] at h
      split at h
      · cases h
        exact htable
      · split at h
        · cases h
        · split at h
          · cases h
          · cases h
            intro row hrow
            obtain ⟨old, hold, rfl⟩ := List.mem_map.mp hrow
            split
            · next hkey => exact hloaded.assign hmd5 hvalue (htable old hold) hkey.symm
            · exact htable old hold

variable (md5 puts) in
/-- The rows, and those that were read, come from the puts. -/
structure Sound (s : BlobRun) : Prop where
  table : ∀ row ∈ s.table.rows, Columns md5 puts row
  put : ∀ session ∈ s.sessions, puts session.2.put
  existing : ∀ session ∈ s.sessions, ∀ row ∈ session.2.existing, Columns md5 puts row

theorem Sound.close {s : BlobRun} (h : Sound md5 puts s) (id : ℕ) : Sound md5 puts (s.close id) :=
  ⟨h.table, fun session hsession => h.put session (List.mem_of_mem_filter hsession),
    fun session hsession => h.existing session (List.mem_of_mem_filter hsession)⟩

theorem Sound.step
    (hmd5 : ∀ p q, puts p → puts q → md5 p.data = md5 q.data → p.data = q.data)
    {s s' : BlobRun} {a : BlobAction} (h : Sound md5 puts s)
    (hputs : ∀ id put, a = .beginPut id put → puts put)
    (ha : s.step md5 accepts a = some s') : Sound md5 puts s' := by
  cases a with
  | beginPut id put =>
      rw [BlobRun.step] at ha
      split at ha
      · cases ha
      · cases ha
        refine ⟨h.table, List.forall_mem_cons.mpr ⟨hputs id put rfl, h.put⟩,
          List.forall_mem_cons.mpr ⟨fun row hrow => ?_, h.existing⟩⟩
        exact h.table row (BlobTable.mem_of_get hrow).1
  | commitPut id =>
      obtain ⟨session, hsession, rfl⟩ := Option.map_eq_some_iff.mp ha
      have hmem : (id, session) ∈ s.sessions := by
        obtain ⟨before, after, heq, -⟩ := List.lookup_eq_some_iff.mp hsession
        rw [heq]
        exact List.mem_append_right _ List.mem_cons_self
      split
      · next t' hflush =>
          have htable := columns_flush hmd5 h.table (h.existing _ hmem)
            (columns_blob (h.put _ hmem)) hflush
          exact ⟨htable, (h.close id).put, (h.close id).existing⟩
      · exact ⟨h.table, (h.close id).put, (h.close id).existing⟩
  | abandonPut id =>
      rw [BlobRun.step] at ha
      split at ha
      · cases ha
        exact h.close id
      · cases ha
  | call c =>
      obtain ⟨⟨answer, t'⟩, hcall, rfl⟩ := Option.map_eq_some_iff.mp ha
      have hrows : ∀ row ∈ t'.rows, row ∈ s.table.rows := by
        intro row hrow
        cases c with
        | put key data metadata now tmp metaTmp => cases hcall
        | delete key =>
            cases hcall
            exact List.mem_of_mem_filter hrow
        | get key | head key | list after limit | count =>
            cases hcall
            exact hrow
      exact ⟨fun row hrow => h.table row (hrows row hrow), h.put, h.existing⟩

/-- **A tag is that of its bytes.** In every order of the steps of any number of sessions, contended
or not, the bytes of a row are those of one of the puts of its key and its tag is that of these
bytes, and every other column is that of one of the puts of the key, where no two puts have
different bytes with one digest. -/
theorem blobs_tagged
    (hmd5 : ∀ p q, puts p → puts q → md5 p.data = md5 q.data → p.data = q.data)
    {acts : List BlobAction} {s : BlobRun}
    (hrun : Trace.Run (step md5 accepts) (fun _ a => ∀ id put, a = .beginPut id put → puts put) {}
      acts s) :
    ∀ row ∈ s.table.rows, Columns md5 puts row ∧ row.etag = "\"" ++ md5 row.data ++ "\"" := by
  have hsound := hrun.invariant (Sound md5 puts) (fun h hputs ha => h.step hmd5 hputs ha)
    ⟨by rintro row ⟨⟩, by rintro session ⟨⟩, by rintro session ⟨⟩⟩
  intro row hrow
  have hcolumns := hsound.table row hrow
  obtain ⟨put, -, -, hdata, htag⟩ := hcolumns.data
  exact ⟨hcolumns, hdata ▸ htag⟩

/-- A row has the bytes of one put and the time of another, with the tag of the bytes. -/
theorem blobs_tagged_contended : ∃ s : BlobRun,
    Trace.Run (step (fun data => toString data.size) fun _ => true)
      (fun _ a => ∀ id put, a = .beginPut id put → put.data = .empty ∨ put.data = ⟨#[7]⟩) {}
      [.beginPut 0 ⟨"a", .empty, {}, 0⟩, .commitPut 0, .beginPut 1 ⟨"a", .empty, {}, 1⟩,
        .beginPut 2 ⟨"a", ⟨#[7]⟩, {}, 2⟩, .commitPut 2, .commitPut 1] s ∧
      ∀ row ∈ s.table.rows, Columns (fun data => toString data.size)
          (fun put => put.data = .empty ∨ put.data = ⟨#[7]⟩) row ∧
        row.etag = "\"" ++ toString row.data.size ++ "\"" := by
  have hmd5 : ∀ p q : BlobPut, p.data = .empty ∨ p.data = ⟨#[7]⟩ →
      q.data = .empty ∨ q.data = ⟨#[7]⟩ → toString p.data.size = toString q.data.size →
      p.data = q.data := by
    intro p q hp hq h
    rcases hp with hp | hp <;> rcases hq with hq | hq <;> rw [hp, hq] at h ⊢
    · exact absurd h (by decide)
    · exact absurd h (by decide)
  have hbegin : ∀ id put, put.data = .empty ∨ put.data = ⟨#[7]⟩ →
      ∀ id' put', BlobAction.beginPut id put = .beginPut id' put' →
        put'.data = .empty ∨ put'.data = ⟨#[7]⟩ := by
    rintro id put hput id' put' ⟨⟩
    exact hput
  have hcommit : ∀ id id' put', BlobAction.commitPut id = .beginPut id' put' →
      put'.data = .empty ∨ put'.data = ⟨#[7]⟩ := by
    rintro id id' put' ⟨⟩
  have hrun : ∃ s : BlobRun, Trace.Run (step (fun data => toString data.size) fun _ => true)
      (fun _ a => ∀ id put, a = .beginPut id put → put.data = .empty ∨ put.data = ⟨#[7]⟩) {}
      [.beginPut 0 ⟨"a", .empty, {}, 0⟩, .commitPut 0, .beginPut 1 ⟨"a", .empty, {}, 1⟩,
        .beginPut 2 ⟨"a", ⟨#[7]⟩, {}, 2⟩, .commitPut 2, .commitPut 1] s :=
    ⟨_, .cons (hbegin _ _ (.inl rfl)) rfl (.cons (hcommit _) rfl (.cons (hbegin _ _ (.inl rfl)) rfl
      (.cons (hbegin _ _ (.inr rfl)) rfl (.cons (hcommit _) rfl (.cons (hcommit _) rfl
        (.nil _))))))⟩
  obtain ⟨s, hs⟩ := hrun
  exact ⟨s, hs, blobs_tagged hmd5 hs⟩

end

end BlobRun

/-! ## The media -/

section
variable (md5 : ByteArray → String) (accepts : FileBlob → Bool)

/-- A call of the store, with no other session. -/
def callBlobs (t : BlobTable) : FileCall → Except BlobError (FileAnswer × BlobTable)
  | .put key data metadata now _ _ =>
    (flush accepts t (t.get key) ((BlobPut.mk key data metadata now).blob md5)).map fun t' =>
      (.stored ((BlobPut.mk key data metadata now).blob md5).toStored, t')
  | .get key => .ok (.bytes ((t.get key).map (·.data)), t)
  | .head key => .ok (.object ((t.get key).map FileBlob.toStored), t)
  | .delete key => .ok (.deleted, t.erase key)
  | .list after limit => .ok (.objects (t.listObjects after limit), t)
  | .count => .ok (.count t.rows.length, t)

/-- Calls in turn. -/
def answerBlobs (t : BlobTable) : List FileCall → Except BlobError (List FileAnswer × BlobTable)
  | [] => .ok ([], t)
  | c :: calls => do
    let (answer, t) ← callBlobs md5 accepts t c
    let (answers, t) ← answerBlobs t calls
    return (answer :: answers, t)

/-- The database takes what is put. -/
def Accepted (accepts : FileBlob → Bool) : FileCall → Prop
  | .put key data metadata now _ _ => accepts ((BlobPut.mk key data metadata now).blob md5) = true
  | _ => True

variable {md5 accepts}

/-- A call is answered as the map answers it. -/
theorem callBlobs_eq {t : BlobTable} {m : FileMap} (h : t.Holds md5 m) {c : FileCall}
    (hc : Accepted md5 accepts c) :
    ∃ t', callBlobs md5 accepts t c = .ok ((callMap md5 m c).1, t') ∧
      t'.Holds md5 (callMap md5 m c).2 := by
  have hcall : ∀ {answer t'}, callTable t c = some (answer, t') →
      callBlobs md5 accepts t c = .ok (answer, t') → ∃ t',
        callBlobs md5 accepts t c = .ok ((callMap md5 m c).1, t') ∧
          t'.Holds md5 (callMap md5 m c).2 := by
    intro answer t' hcall hblobs
    obtain ⟨rfl, hholds⟩ := h.callTable hcall
    exact ⟨t', hblobs, hholds⟩
  cases c with
  | put key data metadata now tmp metaTmp =>
      obtain ⟨t', hflush, hget⟩ := flush_uncontended (t := t) hc
      have hflush : flush accepts t (t.get key) ((BlobPut.mk key data metadata now).blob md5) =
        .ok t' := hflush
      refine ⟨t', ?_, h.insert ⟨key, data, metadata, now⟩ hget⟩
      rw [callBlobs, hflush]
      rfl
  | get key | head key | delete key | list after limit | count => exact hcall rfl rfl

/-- What a call of the local store adds to its run. -/
theorem fileStep_answer {s s' : FileRun} {c : FileCall} (h : AnswersAlike s)
    (hapart : Apart s.map c) (hstep : fileStep md5 s c = some s') :
    s'.answers = s.answers ++ [(callMap md5 s.map c).1] ∧ s'.map = (callMap md5 s.map c).2 := by
  have halike := h.step hapart hstep
  obtain ⟨_, _, rfl⟩ := Option.map_eq_some_iff.mp hstep
  exact ⟨by rw [halike.answers, h.answers], rfl⟩

theorem answerBlobs_eq {calls : List FileCall} {s s' : FileRun}
    (hrun : Trace.Run (fileStep md5) (fun s c => Apart s.map c ∧ Accepted md5 accepts c) s calls s')
    (h : AnswersAlike s) {t : BlobTable} (ht : t.Holds md5 s.map) :
    ∃ answers t', answerBlobs md5 accepts t calls = .ok (answers, t') ∧
      s'.answers = s.answers ++ answers ∧ t'.Holds md5 s'.map := by
  induction hrun generalizing t with
  | nil s => exact ⟨[], t, rfl, (List.append_nil _).symm, ht⟩
  | @cons s c s₁ calls s' hok hstep _ ih =>
      obtain ⟨hapart, haccepted⟩ := hok
      obtain ⟨hanswer, hmap⟩ := fileStep_answer h hapart hstep
      obtain ⟨t₁, hblobs, ht₁⟩ := callBlobs_eq ht haccepted
      obtain ⟨answers, t', hanswers, heq, ht'⟩ := ih (h.step hapart hstep) (hmap ▸ ht₁)
      refine ⟨(callMap md5 s.map c).1 :: answers, t', ?_, ?_, ht'⟩
      · rw [answerBlobs, hblobs]
        change (answerBlobs md5 accepts t₁ _ >>= _) = _
        rw [hanswers]
        rfl
      · rw [heq, hanswer, List.append_assoc, List.singleton_append]

/-- **The table answers as the directory does.** Whatever calls the local store answers, one after
another and apart from the other objects, the SQL store answers in the same way, if the database
takes what is put, and it holds the same objects then. -/
theorem media_answer_alike {calls : List FileCall} {s : FileRun}
    (hrun : Trace.Run (fileStep md5) (fun s c => Apart s.map c ∧ Accepted md5 accepts c) {} calls
      s) :
    ∃ t, answerBlobs md5 accepts .empty calls = .ok (s.answers, t) ∧ t.Holds md5 s.map := by
  obtain ⟨answers, t, hanswers, heq, ht⟩ := answerBlobs_eq hrun ⟨.empty, rfl⟩ .empty
  exact ⟨t, heq ▸ hanswers, ht⟩

/-- An object is put, listed and counted. -/
theorem media_answer_alike_object : ∃ s : FileRun,
    Trace.Run (fileStep fun _ => "")
      (fun s c => Apart s.map c ∧ Accepted (fun _ => "") (fun _ => true) c) {}
      [.put "a" .empty { name := some "x" } 0 "tmp0" "tmp1", .list none 5, .count] s ∧
      ∃ t, answerBlobs (fun _ => "") (fun _ => true) .empty
          [.put "a" .empty { name := some "x" } 0 "tmp0" "tmp1", .list none 5, .count] =
        .ok (s.answers, t) ∧ t.Holds (fun _ => "") s.map := by
  have hrun : ∃ s : FileRun, Trace.Run (fileStep fun _ => "")
      (fun s c => Apart s.map c ∧ Accepted (fun _ => "") (fun _ => true) c) {}
      [.put "a" .empty { name := some "x" } 0 "tmp0" "tmp1", .list none 5, .count] s :=
    ⟨_, .cons ⟨⟨by decide, by decide⟩, rfl⟩ rfl (.cons ⟨trivial, trivial⟩ rfl
      (.cons ⟨trivial, trivial⟩ rfl (.nil _)))⟩
  obtain ⟨s, hs⟩ := hrun
  exact ⟨s, hs, media_answer_alike hs⟩

end

end Resourcey
