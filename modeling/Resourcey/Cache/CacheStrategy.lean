import Resourcey.Core.Service
import Resourcey.Logic.JsonText

/-!
# Cache strategies

What a resource says about caching its responses: which validator they carry, for how many seconds
they are fresh, and whether they are private to the caller. A validator is made of the items a
response shows, each as the JSON value it is shown as. Instants are microseconds, and a header's
text is the list of its characters.
-/

namespace Resourcey

/-! ## Headers -/

/-- `CacheHeader`: the validators and the freshness of a response, or the validators of a client. -/
structure CacheHeader where
  etag : Option (List Char) := none
  updatedAt : Option ℤ := none
  expireAt : Option ℤ := none
  isPrivate : Bool := false
  deriving DecidableEq

/-- `str.isspace`, of what a header may hold. -/
def isSpace (c : Char) : Bool :=
  (9 ≤ c.toNat && c.toNat ≤ 13) || (28 ≤ c.toNat && c.toNat ≤ 32) || c.toNat = 133 || c.toNat = 160

/-- `str.strip`. -/
def strip (s : List Char) : List Char :=
  ((s.dropWhile isSpace).reverse.dropWhile isSpace).reverse

/-- The tokens of an `If-None-Match` header. -/
def clientTokens (etag : List Char) : List (List Char) := (etag.splitOn ',').map strip

/-- A text with nothing to split at and nothing to strip is its own token. -/
theorem clientTokens_eq_single {s : List Char} (hcomma : ',' ∉ s)
    (hspace : ∀ c ∈ s, isSpace c = false) : clientTokens s = [s] := by
  have hdrop : ∀ l : List Char, (∀ c ∈ l, isSpace c = false) → l.dropWhile isSpace = l := by
    intro l hl
    cases l with
    | nil => rfl
    | cons c cs => exact List.dropWhile_cons_of_neg (by rw [hl c (.head _)]; exact Bool.false_ne_true)
  have hstrip : strip s = s := by
    rw [strip, hdrop s hspace, hdrop s.reverse fun c hc => hspace c (List.mem_reverse.mp hc),
      List.reverse_reverse]
  rw [clientTokens, List.splitOn_eq_singleton hcomma, List.map_singleton, hstrip]

namespace CacheHeader

/-- `is_modified`: whether the client's validators fail to show that its copy is current. -/
def isModified (header client : CacheHeader) : Bool :=
  match header.etag, header.updatedAt with
  | some etag, _ =>
    match client.etag with
    | none => true
    | some tokens => etag ∉ clientTokens tokens ∧ ['*'] ∉ clientTokens tokens
  | none, some updatedAt =>
    match client.updatedAt with
    | none => true
    | some since => since < updatedAt
  | none, none => true

/-- `has_any`. -/
def hasAny (header : CacheHeader) : Bool :=
  header.etag.isSome || header.updatedAt.isSome || header.expireAt.isSome || header.isPrivate

end CacheHeader

/-- The truncated digest, as text, of a text. It tells texts apart. -/
structure Digest where
  hexdigest : List Char → List Char
  injective : Function.Injective hexdigest
  alphanumeric : ∀ text, ∀ c ∈ hexdigest text, c.isAlphanum

/-- A digest that writes out the number of each character. -/
def Digest.plain : Digest where
  hexdigest text := text.flatMap fun c => Nat.toDigits 10 c.toNat ++ ['x']
  injective := by
    intro text
    induction text with
    | nil =>
        intro text' h
        cases text' with
        | nil => rfl
        | cons c cs => simp at h
    | cons c cs ih =>
        intro text' h
        cases text' with
        | nil => simp at h
        | cons c' cs' =>
            simp only [List.flatMap_cons, List.append_assoc, List.cons_append, List.nil_append] at h
            have hboundary : ∀ rest, JsonTree.Boundary ('x' :: rest) := by
              rintro rest _ ⟨⟩
              rfl
            obtain ⟨hc, hrest⟩ := JsonTree.digits_append_inj (hboundary _) (hboundary _) h
            rw [Char.toNat_inj.mp hc, ih (List.cons.inj hrest).2]
  alphanumeric := by
    intro text c hc
    obtain ⟨d, -, hc⟩ := List.mem_flatMap.mp hc
    rcases List.mem_append.mp hc with hc | hc
    · have hdigit := Nat.isDigit_of_mem_toDigits (by decide) (by decide) hc
      simp only [Char.isAlphanum, hdigit, Bool.or_true]
    · rw [List.mem_singleton.mp hc]
      rfl

/-- What a response shows of an item: its JSON value, and the `updated_at` among its fields. -/
structure Shown where
  json : JsonTree
  updatedAt : Option ℤ := none

/-! ## Strategies -/

/-- The strategies that are shipped. -/
inductive CacheKind where
  | eTag
  | lastModified
  | optimistic
  deriving DecidableEq, Repr

/-- `CacheStrategy`. An optimistic one has nothing but its window. -/
structure CacheStrategy where
  kind : CacheKind
  expireIn : ℕ := 0
  isPrivate : Bool := false
  window : kind = .optimistic → 0 < expireIn := by decide

namespace CacheStrategy

/-- `should_read`: whether the copy read at an instant, if there is one, is no longer good. Only an
optimistic strategy can tell without reading the source. -/
def shouldRead (strategy : CacheStrategy) (now : ℤ) : Option ℤ → Prop
  | none => True
  | some readAt => strategy.kind = .optimistic → strategy.expireIn * 1000000 ≤ now - readAt

instance (strategy : CacheStrategy) (now : ℤ) : ∀ readAt : Option ℤ,
    Decidable (strategy.shouldRead now readAt)
  | none => .isTrue trivial
  | some readAt => inferInstanceAs (Decidable (_ → _ ≤ now - readAt))

/-- `with_expiry`. -/
def withExpiry (strategy : CacheStrategy) (now : ℤ) (header : CacheHeader) : CacheHeader :=
  { header with
    expireAt := if strategy.expireIn = 0 then none else some (now + strategy.expireIn * 1000000)
    isPrivate := strategy.isPrivate }

/-- `with_private`. -/
def withPrivate (strategy : CacheStrategy) (isPrivate : Bool) : CacheStrategy :=
  { strategy with isPrivate := strategy.isPrivate || isPrivate }

/-- A strong entity tag. -/
def quoted (digest : List Char) : List Char := '"' :: digest ++ ['"']

/-- The entity tag of a list of items. An absent item adds nothing. -/
def itemsTag (d : Digest) (items : List (Option Shown)) : List Char :=
  quoted (d.hexdigest ((items.filterMap id).flatMap fun item => item.json.canonical ++ ['\n']))

/-- `datetime.min`. -/
def datetimeMin : ℤ := -62135596800000000

/-- An instant without its microseconds. -/
def truncated (t : ℤ) : ℤ := t - t % 1000000

/-- The instants the `Last-Modified` of a list of items is the last one of. -/
def stamps (items : List (Option Shown)) : List ℤ :=
  ((items.filterMap id).filterMap Shown.updatedAt).map truncated

/-- The `Last-Modified` of a list of items. -/
def lastModified (items : List (Option Shown)) : ℤ := (stamps items).foldl max datetimeMin

/-- `get_cache_header`. -/
def getCacheHeader (d : Digest) (strategy : CacheStrategy) (now : ℤ)
    (items : List (Option Shown)) : CacheHeader :=
  strategy.withExpiry now <| match strategy.kind with
    | .eTag => { etag := some (itemsTag d items) }
    | .lastModified => { updatedAt := some (lastModified items) }
    | .optimistic => {}

/-- The entity tag of a count under a filter. -/
def countTag (d : Digest) (count : ℕ) (filters : Option JsonTree) : List Char :=
  quoted (d.hexdigest (Nat.toDigits 10 count ++ '\n' :: filters.elim [] JsonTree.canonical))

/-- `count_cache_header`. -/
def countCacheHeader (d : Digest) (strategy : CacheStrategy) (now : ℤ) (count : ℕ)
    (filters : Option JsonTree) : CacheHeader :=
  strategy.withExpiry now <| match strategy.kind with
    | .optimistic => {}
    | _ => { etag := some (countTag d count filters) }

end CacheStrategy

/-- `default_cache_strategy`. -/
def defaultCacheStrategy (readShowsUpdatedAt : Bool) (supported : List Action) : CacheStrategy :=
  if .create ∉ supported ∧ .update ∉ supported ∧ .delete ∉ supported then
    { kind := .optimistic, expireIn := 600, isPrivate := true }
  else if readShowsUpdatedAt then { kind := .lastModified }
  else { kind := .eTag }

end Resourcey
