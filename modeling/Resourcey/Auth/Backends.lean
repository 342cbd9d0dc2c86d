import Resourcey.Auth.RowActions
import Resourcey.Filestore.FileService

/-!
# Authorization over the backends

The four services that a resource is built on, under policies that say yes or no. SQL, Mongo and list
services honour the two constants. A file service refuses every filter and every condition, also one
that restricts nothing, and an `AuthorizedService` passes one down with every search, count and
deletion. So over files the laws hold of exactly the sequences without such a call
(`Backend.authorizes_iff`).
-/

namespace Resourcey

/-- The services of the repository over their stores. What a medium raises when it is asked for a key
is not that nothing is there. -/
inductive Backend : Type → Type → Type → Type → Type → Type 1 where
  | sql {ρ κ π φ : Type} (r : SqlResource ρ π φ) (codec : CursorCodec κ) :
    Backend (List ρ) ρ κ π φ
  | mongo {ρ κ π φ : Type} (r : MongoResource ρ π φ) (codec : CursorCodec κ) :
    Backend (List ρ) ρ κ π φ
  | list {ρ κ π φ : Type} (l : ListResource ρ) (payloadId : π → Value) (codec : CursorCodec κ) :
    Backend (List ρ) ρ κ π φ
  | files {σ κ : Type} (f : FileResource σ) (payloadId : FileUpload → Value)
    (codec : CursorCodec κ) (refuses : ∀ key s e, f.store.head key s = .error e → ¬ e.OfStore) :
    Backend σ FileDto κ FileUpload String

namespace Backend

variable {σ α κ π φ : Type}

/-- The identifier that a payload names. -/
def payloadId : Backend σ α κ π φ → π → Value
  | .sql r _ => r.payloadId
  | .mongo r _ => r.payloadId
  | .list _ payloadId _ | .files _ payloadId _ _ => payloadId

/-- The backend is one of files. -/
def IsFiles : Backend σ α κ π φ → Prop
  | .files .. => True
  | _ => False

/-- The service of the backend. -/
def service [TextRules] : Backend σ α κ π φ → Service σ α κ π φ
  | .sql r codec => r.service codec
  | .mongo r codec => r.service codec
  | .list l _ codec => l.service codec
  | .files f _ codec _ => f.service codec

end Backend

section
variable [TextRules]

/-! ## Lists -/

namespace ListResource

variable {ρ κ π φ : Type} {l : ListResource ρ} {rows : List ρ} {filter : Option SearchFilter}

/-- Under `AllFilter` the same models match. -/
theorem matchingModels_all {models : List ρ} (h : l.matchingModels rows filter = .ok models) :
    l.matchingModels rows (some (combine .all filter)) = .ok models := by
  cases filter with
  | some f => exact comprehension_combine_all h
  | none =>
      cases h
      have hall (rows : List ρ) : comprehension
          (fun r => SearchFilter.all.matches (.object (l.model r))) rows = .ok rows := by
        induction rows with
        | nil => rfl
        | cons r rows ih =>
            rw [comprehension, ih]
            rfl
      exact hall rows

theorem matchingModels_noMatch (l : ListResource ρ) (rows : List ρ) :
    l.matchingModels rows (some .noMatch) = .ok [] :=
  comprehension_noMatch (fun r => .object (l.model r)) rows

omit [TextRules] in
/-- A cursor that is not taken is no failure of the store. -/
theorem afterCursor_error {codec : CursorCodec κ} {models : List ρ} {cursor : Option κ}
    {sort : Option SortOrder} {e : ResourceyError}
    (h : l.afterCursor codec models cursor sort = .error e) : ¬ e.OfStore := by
  cases cursor with
  | none => cases h
  | some c =>
      rcases bind_eq_error.mp h with h | ⟨state, -, h⟩
      · unfold decode at h
        split at h
        · cases h
          exact fun h => h
        · split at h
          · cases h
            exact fun h => h
          · cases h
      · exact not_ofStore_of_mapError h

omit [TextRules] in
/-- Nothing comes after a cursor that is taken. -/
theorem afterCursor_nil {codec : CursorCodec κ} {models models' : List ρ} {cursor : Option κ}
    {sort : Option SortOrder} (h : l.afterCursor codec models cursor sort = .ok models') :
    l.afterCursor codec [] cursor sort = .ok [] := by
  cases cursor with
  | none => rfl
  | some c =>
      obtain ⟨state, hstate, -⟩ := bind_eq_ok.mp h
      rw [afterCursor, hstate]
      rfl

omit [TextRules] in
theorem order_nil (sort : Option SortOrder) : l.order [] sort = .ok [] := by
  cases sort with
  | none => rfl
  | some s =>
      obtain ⟨name, descending⟩ := s
      cases descending <;> rfl

/-- A search that settles has models that match, in an order, and a cursor that is taken. -/
theorem search_settles {codec : CursorCodec κ} {sort : Option SortOrder} {cursor : Option κ}
    {limit : ℕ} (h : Settles (l.search codec rows filter sort cursor limit)) :
    ∃ models ordered found, l.matchingModels rows filter = .ok models ∧
      l.order models sort = .ok ordered ∧ l.afterCursor codec ordered cursor sort = .ok found := by
  obtain ⟨models, hmodels, h⟩ := h.of_bind fun e => not_ofStore_of_mapError
  obtain ⟨ordered, hordered, h⟩ := h.of_bind fun e => not_ofStore_of_mapError
  obtain ⟨found, hfound, -⟩ := h.of_bind fun e => afterCursor_error
  exact ⟨models, ordered, found, ok_of_mapError_ok hmodels, ok_of_mapError_ok hordered, hfound⟩

/-- What a search returns. -/
theorem search_of_ok {codec : CursorCodec κ} {sort : Option SortOrder} {cursor : Option κ}
    (limit : ℕ) {models ordered found : List ρ} (hmodels : l.matchingModels rows filter = .ok models)
    (hordered : l.order models sort = .ok ordered)
    (hfound : l.afterCursor codec ordered cursor sort = .ok found) :
    l.search codec rows filter sort cursor limit =
      .ok (Page.ofFound limit (l.nextCursor codec sort) found) := by
  simp only [search, hmodels, hordered, hfound, Except.mapError, bind, Except.bind]
  rfl

/-- **`ListService` honours the two constants.** It has no writes. -/
theorem honoursConstants (l : ListResource ρ) (codec : CursorCodec κ) (payloadId : π → Value) :
    HonoursConstants (l.service codec : Service (List ρ) ρ κ π φ) payloadId where
  search_all {f sort cursor limit rows} hs := by
    obtain ⟨models, ordered, found, hmodels, hordered, hfound⟩ :=
      search_settles (settled_mapError.mp hs)
    simp only [service, search_of_ok limit (matchingModels_all hmodels) hordered hfound,
      search_of_ok limit hmodels hordered hfound]
  search_noMatch {f sort cursor limit rows'} hs rows := by
    obtain ⟨models, ordered, found, -, -, hfound⟩ := search_settles (settled_mapError.mp hs)
    simp only [service, search_of_ok limit (matchingModels_noMatch l rows) (order_nil sort)
      (afterCursor_nil hfound), Except.mapError]
    simp [Page.ofFound]
  count_all {f rows} hs := by
    obtain ⟨models, hmodels, -⟩ :=
      Settles.of_bind (fun e => not_ofStore_of_mapError) (settled_mapError.mp hs)
    have hmodels := ok_of_mapError_ok hmodels
    simp only [service, count, hmodels, matchingModels_all hmodels]
  count_noMatch {f rows'} hs rows := by
    simp only [service, count, matchingModels_noMatch]
    rfl
  update_all := False.elim
  update_noMatch := False.elim
  delete_all := False.elim
  delete_noMatch := False.elim
  namesUpdates := nofun
  aligned := nofun
  edits_all _ := False.elim
  edits_noMatch := nofun

/-- Reads are plain. -/
theorem readsPlainly (l : ListResource ρ) (codec : CursorCodec κ) :
    ReadsPlainly (l.service codec : Service (List ρ) ρ κ π φ) where
  read {id _} _ rows := by
    simp only [service, read]
    split
    · exact .inl ⟨_, rfl⟩
    · exact .inr rfl
  batchRead {ids _} _ rows := ⟨l.batchRead rows ids, rfl, List.length_map ..⟩
  noEdits := False.elim
  authorize _ _ _ := fun hs => hs

end ListResource

/-! ## Files -/

namespace FileResource

variable {σ κ : Type} {f : FileResource σ} {codec : CursorCodec κ} {s s' : σ}

omit [TextRules] in
/-- A key that one state takes, every state takes. -/
theorem exists_head {key : String} {found : Option StoredObject}
    (h : f.store.head key s' = .ok found) (s : σ) : ∃ found, f.store.head key s = .ok found := by
  have hok := f.store.head_isOk key s s'
  rw [h] at hok
  cases hs : f.store.head key s with
  | error e =>
      rw [hs] at hok
      cases hok
  | ok found => exact ⟨found, rfl⟩

section
variable (refuses : ∀ key s e, f.store.head key s = .error e → ¬ e.OfStore)
include refuses

/-- A read that settles asks for a key that is taken. -/
theorem exists_head_of_read {id : Value} (h : Settled (f.read id s')) :
    ∃ found, f.store.head (TextRules.str id) s' = .ok found := by
  cases hhead : f.store.head (TextRules.str id) s' with
  | ok found => exact ⟨found, rfl⟩
  | error e =>
      rw [read, hhead] at h
      exact absurd h (refuses _ _ _ hhead)

/-- A batch-read that settles in one state has an answer for each identifier in every state. -/
theorem batchRead_of_settled {ids : List Value} (h : Settled (f.batchRead ids s')) (s : σ) :
    ∃ items, f.batchRead ids s = .ok items ∧ items.length = ids.length := by
  induction ids with
  | nil => exact ⟨[], rfl, rfl⟩
  | cons id ids ih =>
      rw [batchRead, List.mapM_cons] at h
      cases hhead : f.store.head (TextRules.str id) s' with
      | error e =>
          rw [hhead] at h
          exact absurd h (refuses _ _ _ hhead)
      | ok found =>
          have hrest : Settled (f.batchRead ids s') := by
            cases hids : f.batchRead ids s' with
            | ok items => exact trivial
            | error e =>
                rw [batchRead] at hids
                rw [hhead, hids] at h
                exact h
          obtain ⟨items, hitems, hlength⟩ := ih hrest
          obtain ⟨found', hfound⟩ := exists_head hhead s
          refine ⟨found'.map StoredObject.fullDto :: items, ?_, congrArg Nat.succ hlength⟩
          exact mapM_cons_eq_ok.mpr ⟨_, items, by rw [hfound]; rfl, hitems, rfl⟩

/-- Reads are plain. -/
theorem readsPlainly (codec : CursorCodec κ) : ReadsPlainly (f.service codec) where
  read {id _} hs s := by
    obtain ⟨found, hfound⟩ := exists_head_of_read refuses hs
    obtain ⟨found', hfound'⟩ := exists_head hfound s
    simp only [service, read, hfound', bind, Except.bind]
    cases found' with
    | none => exact .inr rfl
    | some o => exact .inl ⟨o.fullDto, rfl⟩
  batchRead {ids _} hs s := by
    obtain ⟨items, hitems, hlength⟩ := batchRead_of_settled refuses hs s
    exact ⟨items, by simp only [service, hitems], hlength⟩
  noEdits _ _ := rfl
  authorize _ _ _ := fun hs => hs

end

/-- A batch ends at a deletion under a condition. -/
theorem applyEdits_condition (h : .delete ∈ f.supported) (key : Value) (condition : SearchFilter)
    (edits : List (Edit FileUpload)) (s : σ) :
    ∃ message, f.applyEdits (.delete key (some condition) :: edits) s =
      (.error (.raised (.unsupportedFilter message)), s) := by
  simp only [applyEdits, if_neg (not_not.mpr h), delete, rejectCondition]
  exact ⟨_, rfl⟩

/-- **A file service refuses what an authorized service passes on to it.** -/
theorem refuses_passed (a : Authorization FileDto FileUpload)
    {c : ServiceCall κ FileUpload String} (hsup : (f.service codec).Supports c)
    (hc : c.PassesFilter) (s : σ) :
    ∃ message, ((a.service (f.service codec)).call c s).1 =
      .error (.raised (.unsupportedFilter message)) := by
  cases c with
  | create | read | batchRead | authorize => exact hc.elim
  | update env payload condition => exact hsup.choose_spec.elim
  | delete key condition => exact ⟨_, rfl⟩
  | search searchFilter sort cursor limit => exact ⟨_, rfl⟩
  | count searchFilter => exact ⟨_, rfl⟩
  | applyEdits edits =>
      obtain ⟨hnamed, s', results, hok⟩ := hsup
      cases edits with
      | nil => exact absurd rfl hc
      | cons e edits =>
          obtain ⟨env, edit⟩ := e
          cases edit with
          | create | update => cases hok
          | delete key condition =>
              have hkey : key ≠ .none := fun h => hnamed _ List.mem_cons_self condition (h ▸ rfl)
              have hsupported : Action.delete ∈ f.supported := by
                by_contra hnot
                simp only [service, List.map_cons, FileResource.applyEdits, if_pos hnot] at hok
                cases hok
              -- The deletion is passed on, under the filter of the policies.
              have hpassed : ∃ under edits', (((env, Edit.delete key condition) :: edits).map
                  fun e => a.permitted e.1 e.2).filterMap id =
                    (env, .delete key (some under)) :: edits' := by
                simp only [List.map_cons, Authorization.permitted, if_neg hkey]
                exact ⟨_, _, rfl⟩
              obtain ⟨under, edits', hpassed⟩ := hpassed
              have hcall : a.applyEdits (f.service codec) ((env, .delete key condition) :: edits) s =
                _ := Authorization.applyEdits_eq hpassed rfl
              rw [if_neg (List.cons_ne_nil _ _)] at hcall
              obtain ⟨message, hmessage⟩ :=
                applyEdits_condition hsupported key under (edits'.map Prod.snd) s
              refine ⟨message, (congrArg Prod.fst hcall).trans ?_⟩
              simp only [service, List.map_cons, hmessage]
              rfl

/-- **Where the results under full grants are those of the service, no call passes a filter on.** -/
theorem not_passesFilter_of_transcript {a : Authorization FileDto FileUpload}
    (refuses : ∀ key s e, f.store.head key s = .error e → ¬ e.OfStore)
    (ha : ∀ action, a.permission action = .all) {calls : List (ServiceCall κ FileUpload String)}
    (hrun : (f.service codec).SupportsRun s calls)
    (h : (a.service (f.service codec)).transcript s calls =
      (((f.service codec).transcript s calls).1.map fun r => ⟨r.1, missed a.payloadId r.1 r.2⟩,
        ((f.service codec).transcript s calls).2)) : ∀ c ∈ calls, ¬ c.PassesFilter := by
  induction calls generalizing s with
  | nil => nofun
  | cons c calls ih =>
      obtain ⟨hsup, hs, hrest⟩ := hrun
      simp only [Service.transcript_cons, List.map_cons, Prod.mk.injEq, List.cons.injEq,
        Sigma.mk.injEq, heq_eq_eq, true_and] at h
      obtain ⟨⟨hhead, htail⟩, hend⟩ := h
      have hnot : ¬ c.PassesFilter := by
        intro hc
        obtain ⟨message, hrefused⟩ := refuses_passed a hsup hc s
        have hsettled := settled_missed a.payloadId hs
        rw [← hhead, hrefused] at hsettled
        exact hsettled
      have hstore := Authorization.service_all (readsPlainly refuses codec)
        (fun hc => absurd hc hnot) ha hsup hs
      rw [hstore] at htail hend
      exact List.forall_mem_cons.mpr ⟨hnot, ih hrest (Prod.ext htail hend)⟩

end FileResource

/-! ## All backends -/

namespace Backend

variable {σ α κ π φ : Type}

/-- Reads are plain over every backend. -/
theorem readsPlainly (b : Backend σ α κ π φ) : ReadsPlainly b.service := by
  cases b with
  | sql r codec => exact r.readsPlainly codec
  | mongo r codec => exact r.readsPlainly codec
  | list l payloadId codec => exact l.readsPlainly codec
  | files f payloadId codec refuses => exact FileResource.readsPlainly refuses codec

/-- All backends but files honour the two constants. -/
theorem honoursConstants {b : Backend σ α κ π φ} (h : ¬ b.IsFiles) :
    HonoursConstants b.service b.payloadId := by
  cases b with
  | sql r codec => exact r.honoursConstants codec
  | mongo r codec => exact r.honoursConstants codec
  | list l payloadId codec => exact l.honoursConstants codec payloadId
  | files f payloadId codec refuses => exact absurd trivial h

omit [TextRules] in
/-- The permissions of somebody who may do everything. -/
theorem permission_allowAll (action : ActionName) :
    permissionFilter [.allowAll] none action = .all := rfl

/-- **When authorization works over a backend.** Full grants give the results of the inner service
and no grants give nothing, for every sequence of calls that the inner service supports, if and only
if the backend is not one of files or no call of the sequence passes a filter on. -/
theorem authorizes_iff (b : Backend σ α κ π φ) {s : σ} {calls : List (ServiceCall κ π φ)}
    (hrun : b.service.SupportsRun s calls) :
    b.service.Authorizes b.payloadId s calls ↔ (b.IsFiles → ∀ c ∈ calls, ¬ c.PassesFilter) := by
  constructor
  · intro h hfiles
    cases b with
    | sql | mongo | list => exact hfiles.elim
    | files f payloadId codec refuses =>
        let a : Authorization FileDto FileUpload :=
          { policies := [.allowAll], userId := none, resourceName := f.typeName
            toDto := fun _ => .object fun _ => .none, payloadId }
        have ha : ∀ action, a.permission action = .all := permission_allowAll
        exact FileResource.not_passesFilter_of_transcript refuses ha hrun ((h a rfl).1 ha)
  · intro hfiles
    refine Service.authorizes b.readsPlainly (fun c hc hpass => ?_) hrun
    by_cases h : b.IsFiles
    · exact absurd hpass (hfiles h c hc)
    · exact honoursConstants h

end Backend

end

section Demo

/-- A table of numbers, each its own identifier. -/
def numberTable : SqlResource ℤ ℤ Unit where
  name := "NumberResource"
  columnForAttr name := if name = "id" then some "id" else none
  queryable name := name = "id"
  sortable name := name = "id"
  idColumn := "id"
  row n column := if column = "id" then .scalar (.int n) else .none
  payloadId n := .scalar (.int n)
  withDefaults _ _ n := n
  hasData _ := false
  write _ n := n
  insert _ n := .ok n
  supported := [.create, .delete]

/-- `SqlFileStore`, at an instant. -/
def blobTable (md5 : ByteArray → String) (now : ℕ) : FileStore FileMap where
  put key data metadata m :=
    (.ok (reported md5 key ⟨data, metadata, now⟩), m.insert key ⟨data, metadata, now⟩)
  head key m := .ok ((m.lookup key).map (reported md5 key))
  delete key m := (.ok (), m.erase key)
  listObjects after limit m :=
    .ok ((m.page after limit).filterMap fun key => (m.lookup key).map (reported md5 key))
  countObjects m := m.keys.card
  head_isOk _ _ _ := rfl

/-- The files of a table. -/
def blobResource : FileResource FileMap where
  store := blobTable (fun _ => "d41d8cd98f00b204e9800998ecf8427e") 0
  sha256 _ := "e3b0c44298fc1c149afbf4c8996fb92427ae41e4649b934ca495991b7852b855"

/-- Their service. -/
def blobFiles : Backend FileMap FileDto CursorState FileUpload String :=
  .files blobResource (fun _ => .none) CursorCodec.plain fun _ _ _ h => nomatch h

/-- Writes of numbers and reads of them. -/
theorem authorizes_numberTable :
    letI := TextRules.ascii
    (Backend.sql numberTable CursorCodec.plain).service.Authorizes numberTable.payloadId []
      [.create () 1, .count none, .delete (.scalar (.int 1)) none,
        .applyEdits [((), .create 2), ((), .delete (.scalar (.int 2)) none)]] := by
  let _ := TextRules.ascii
  refine (Backend.authorizes_iff (.sql numberTable CursorCodec.plain) ?_).mpr fun h => h.elim
  refine ⟨⟨[], trivial⟩, trivial, ⟨[], trivial⟩, trivial, ⟨[], trivial⟩, trivial,
    ⟨fun e he condition => ?_, [], _, rfl⟩, trivial, trivial⟩
  simp only [List.mem_cons, List.not_mem_nil, or_false] at he
  rcases he with rfl | rfl
  · intro h
    cases h
  · intro h
    cases h

/-- A file service counts its files, and refuses to count them for somebody who may do
everything. -/
theorem not_authorizes_blobFiles :
    letI := TextRules.ascii
    blobFiles.service.SupportsRun ∅ [.count none] ∧
      ¬ blobFiles.service.Authorizes blobFiles.payloadId ∅ [.count none] := by
  let _ := TextRules.ascii
  have hrun : blobFiles.service.SupportsRun ∅ [.count none] := ⟨⟨∅, trivial⟩, trivial, trivial⟩
  refine ⟨hrun, fun h => ?_⟩
  let a : Authorization FileDto FileUpload :=
    { policies := [.allowAll], userId := none, resourceName := "FileResource"
      toDto := fun _ => .object fun _ => .none, payloadId := blobFiles.payloadId }
  have ha : ∀ action, a.permission action = .all := Backend.permission_allowAll
  have hnot := FileResource.not_passesFilter_of_transcript (f := blobResource)
    (fun _ _ _ h => nomatch h) ha hrun ((h a rfl).1 ha)
  exact hnot (.count none) List.mem_cons_self trivial

end Demo

end Resourcey
