import Resourcey.Cache.CacheStrategy
import Resourcey.Sql.SqlService

/-!
# The GET routes

`GET` of an item, of a page, of a count and of a batch: the service is asked, its answer is
projected onto the response model, a header is computed by the resource's strategy, and the response
is the body or, when the client's validators show its copy to be current, a bare `304`.
-/

namespace Resourcey

/-- The read actions of a service, `σ` being the store it sees. A batch is aligned with the
identifiers that were asked for. -/
structure ReadService (σ α κ : Type) where
  idOf : α → Value
  read : σ → Value → Except ResourceyError α
  search : σ → Option SearchFilter → Option SortOrder → Option κ → ℕ →
    Except ResourceyError (Page α κ)
  count : σ → Option SearchFilter → Except ResourceyError ℕ
  batchRead : σ → List Value → Except ResourceyError (List (Option α))
  batchRead_aligned : ∀ {s ids items}, batchRead s ids = .ok items →
    ∃ find : Value → Option α, items = ids.map find ∧ ∀ id, ∀ a ∈ find id, idOf a = id

/-- The reads of a SQL service. -/
def SqlTable.readService [TextRules] {ρ κ : Type} (t : SqlTable ρ) (codec : CursorCodec κ) :
    ReadService (List ρ) ρ κ where
  idOf := t.idOf
  read := t.read
  search := t.search codec
  count := t.count
  batchRead rows ids := .ok (t.batchRead rows ids)
  batchRead_aligned := by
    rintro rows ids _ ⟨⟩
    refine ⟨_, rfl, fun id r hr => ?_⟩
    have hkey := List.find?_some hr
    exact of_decide_eq_true hkey

/-- `RequestLimitsConfig`, as far as reads go. -/
structure RequestLimits where
  maxSearchLimit : ℕ := 100
  maxBatchReadIds : ℕ := 100

/-- A resource as its GET routes see it: the service, what `read_response` and `search_response`
show of an item, what a filter is dumped as, and the cache strategy, if it has one. -/
structure ServedResource (σ α κ : Type) where
  service : ReadService σ α κ
  readResponse : α → Shown
  searchResponse : α → Shown
  filterJson : SearchFilter → JsonTree
  strategy : Option CacheStrategy
  digest : Digest
  limits : RequestLimits := {}

/-- A response body. -/
inductive Body (κ : Type) where
  | item (item : JsonTree)
  | page (items : List JsonTree) (limit : ℕ) (nextCursor : Option κ)
  | count (count : ℕ)
  | items (items : List (Option JsonTree))

/-- A response of a GET route; an error carries no validators. -/
inductive Response (κ : Type) where
  | ok (body : Body κ) (header : Option CacheHeader)
  | notModified (header : CacheHeader)
  | error (error : ResourceyError)

/-- `_check_search_limit`. -/
def checkSearchLimit (limit cap : ℕ) : Except ResourceyError Unit :=
  if limit < 1 then .error (.invalidInput ("limit must be at least 1; got " ++ toString limit))
  else if cap < limit then
    .error (.invalidInput ("limit must not exceed " ++ toString cap ++ "; got " ++ toString limit))
  else .ok ()

/-- `_check_batch_read_ids`. -/
def checkBatchReadIds (count cap : ℕ) : Except ResourceyError Unit :=
  if cap < count then
    .error (.invalidInput ("batch-read accepts at most " ++ toString cap ++ " ids; got " ++
      toString count ++ ". Split the request, or raise the configured cap."))
  else .ok ()

/-- What a route made of the service's answer: the items it shows, or a count. -/
inductive Answered (κ : Type) where
  | item (item : Shown)
  | page (items : List Shown) (limit : ℕ) (nextCursor : Option κ)
  | count (count : ℕ) (filters : Option JsonTree)
  | items (items : List (Option Shown))

namespace Answered

variable {κ : Type}

/-- `_dump` and `_page_body`. -/
def body : Answered κ → Body κ
  | .item x => .item x.json
  | .page xs limit nextCursor => .page (xs.map Shown.json) limit nextCursor
  | .count n _ => .count n
  | .items xs => .items (xs.map (Option.map Shown.json))

/-- `get_cache_header` of the items, or `count_cache_header`. -/
def header (d : Digest) (strategy : CacheStrategy) (now : ℤ) : Answered κ → CacheHeader
  | .item x => strategy.getCacheHeader d now [some x]
  | .page xs _ _ => strategy.getCacheHeader d now (xs.map some)
  | .count n filters => strategy.countCacheHeader d now n filters
  | .items xs => strategy.getCacheHeader d now xs

end Answered

namespace ServedResource

variable {σ α κ : Type} (r : ServedResource σ α κ)

/-- The service's answer to a request, projected. -/
def answered (s : σ) : ReadRequest κ → Except ResourceyError (Answered κ)
  | .read id => return .item (r.readResponse (← r.service.read s id))
  | .search searchFilter sort cursor limit => do
    checkSearchLimit limit r.limits.maxSearchLimit
    let page ← r.service.search s searchFilter sort cursor limit
    return .page (page.items.map r.searchResponse) page.limit page.nextCursor
  | .count searchFilter => do
    return .count (← r.service.count s searchFilter) (searchFilter.map r.filterJson)
  | .batchRead ids => do
    checkBatchReadIds ids.length r.limits.maxBatchReadIds
    return .items ((← r.service.batchRead s ids).map (Option.map r.searchResponse))

/-- `_header_for`: the header of an answer, if there is anything in it. -/
def headerFor (now : ℤ) (responseIsPrivate : Bool) (answered : Answered κ) : Option CacheHeader :=
  match r.strategy with
  | none => none
  | some strategy =>
    let header := answered.header r.digest (strategy.withPrivate responseIsPrivate) now
    if header.hasAny then some header else none

/-- `_cached_json_response`, to a GET. -/
def cachedJsonResponse (client : CacheHeader) (body : Body κ) : Option CacheHeader → Response κ
  | none => .ok body none
  | some header => if header.isModified client then .ok body header else .notModified header

/-- The response to a GET of a request. -/
def get (s : σ) (now : ℤ) (responseIsPrivate : Bool) (client : CacheHeader)
    (request : ReadRequest κ) : Response κ :=
  match r.answered s request with
  | .error e => .error e
  | .ok answered =>
    cachedJsonResponse client answered.body (r.headerFor now responseIsPrivate answered)

/-! ## The answers to each request -/

section Answers

variable {r : ServedResource σ α κ} {s : σ} {a : Answered κ}

theorem answered_read {id : Value} (h : r.answered s (.read id) = .ok a) :
    ∃ x, a = .item x := by
  obtain ⟨x, -, hx⟩ := bind_eq_ok.mp h
  cases hx
  exact ⟨_, rfl⟩

theorem answered_search {f : Option SearchFilter} {sort : Option SortOrder} {cursor : Option κ}
    {limit : ℕ} (h : r.answered s (.search f sort cursor limit) = .ok a) :
    ∃ xs limit nextCursor, a = .page xs limit nextCursor := by
  obtain ⟨-, -, h⟩ := bind_eq_ok.mp h
  obtain ⟨page, -, hpage⟩ := bind_eq_ok.mp h
  cases hpage
  exact ⟨_, _, _, rfl⟩

theorem answered_count {f : Option SearchFilter} (h : r.answered s (.count f) = .ok a) :
    ∃ n, a = .count n (f.map r.filterJson) := by
  obtain ⟨n, -, hn⟩ := bind_eq_ok.mp h
  cases hn
  exact ⟨_, rfl⟩

theorem answered_batchRead {ids : List Value} (h : r.answered s (.batchRead ids) = .ok a) :
    ∃ items, r.service.batchRead s ids = .ok items ∧
      a = .items (items.map (Option.map r.searchResponse)) := by
  obtain ⟨-, -, h⟩ := bind_eq_ok.mp h
  obtain ⟨items, hitems, ha⟩ := bind_eq_ok.mp h
  cases ha
  exact ⟨items, hitems, rfl⟩

end Answers

end ServedResource

end Resourcey
