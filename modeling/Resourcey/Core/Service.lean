import Resourcey.Util.SearchFilter

/-!
# The service contract

The storage-agnostic vocabulary of the services: the failures an action can raise, the ordering a
search is asked for, the cursor it hands on, the page it answers with and the items of an edit
batch. A cursor is opaque to its holder; `CursorCodec` is the encryption service that seals one,
of which only the round trip matters.
-/

namespace Resourcey

/-- A failure of an action. `conflict` and `notNull` are the store's integrity errors, and
`typeError` is Python's own, raised by an in-memory comparison. -/
inductive ResourceyError where
  | service (message : String)
  | config (message : String)
  | notFound (id : Value)
  | forbidden (resource action : String)
  | invalidInput (message : String)
  | unsupportedFilter (message : String)
  | conflict (id : Value)
  | notNull (column : String)
  | typeError (error : TypeError)
  deriving DecidableEq, Repr

/-- An action that succeeds succeeds at each of its steps. -/
theorem bind_eq_ok {ε α β : Type} {x : Except ε α} {f : α → Except ε β} {b : β} :
    (x >>= f) = .ok b ↔ ∃ a, x = .ok a ∧ f a = .ok b := by
  cases x with
  | error e => simp [bind, Except.bind]
  | ok a => simp [bind, Except.bind]

/-- An action that fails fails at one of its steps. -/
theorem bind_eq_error {ε α β : Type} {x : Except ε α} {f : α → Except ε β} {e : ε} :
    (x >>= f) = .error e ↔ x = .error e ∨ ∃ a, x = .ok a ∧ f a = .error e := by
  cases x with
  | error e' => simp [bind, Except.bind]
  | ok a => simp [bind, Except.bind]

/-- A traversal that succeeds succeeds at each element. -/
theorem mapM_cons_eq_ok {ε α β : Type} {f : α → Except ε β} {a : α} {as : List α} {bs : List β} :
    (a :: as).mapM f = .ok bs ↔ ∃ b bs', f a = .ok b ∧ as.mapM f = .ok bs' ∧ b :: bs' = bs := by
  simp only [List.mapM_cons, bind_eq_ok, pure, Except.pure, Except.ok.injEq, exists_and_left]

/-- A traversal that succeeds gives the results of the elements. -/
theorem mem_of_mapM_ok {ε α β : Type} {f : α → Except ε β} {as : List α} {bs : List β}
    (h : as.mapM f = .ok bs) :
    (∀ a ∈ as, ∃ b, f a = .ok b) ∧ ∀ b, b ∈ bs ↔ ∃ a ∈ as, f a = .ok b := by
  induction as generalizing bs with
  | nil =>
      cases h
      simp
  | cons a as ih =>
      obtain ⟨b, bs', hb, hbs, rfl⟩ := mapM_cons_eq_ok.mp h
      obtain ⟨hall, hmem⟩ := ih hbs
      refine ⟨List.forall_mem_cons.mpr ⟨⟨b, hb⟩, hall⟩, fun b' => ?_⟩
      rw [List.mem_cons, List.exists_mem_cons_iff, hmem, hb, Except.ok.injEq, eq_comm]

/-- A traversal that fails fails at one of the elements. -/
theorem exists_of_mapM_error {ε α β : Type} {f : α → Except ε β} {as : List α} {e : ε}
    (h : as.mapM f = .error e) : ∃ a ∈ as, f a = .error e := by
  induction as with
  | nil => cases h
  | cons a as ih =>
      rw [List.mapM_cons] at h
      rcases bind_eq_error.mp h with ha | ⟨b, -, h⟩
      · exact ⟨a, List.mem_cons_self, ha⟩
      · rcases bind_eq_error.mp h with has | ⟨bs, -, h⟩
        · obtain ⟨a', ha', hfa⟩ := ih has
          exact ⟨a', List.mem_cons_of_mem _ ha', hfa⟩
        · cases h

/-- A loop that succeeds succeeds at each element. -/
theorem forM_ok_iff {ε α : Type} {f : α → Except ε Unit} {xs : List α} :
    xs.forM f = .ok () ↔ ∀ x ∈ xs, f x = .ok () := by
  induction xs with
  | nil => simp [List.forM, pure, Except.pure]
  | cons x xs ih =>
      rw [List.forall_mem_cons, ← ih, List.forM]
      cases f x with
      | error e => simp [bind, Except.bind]
      | ok u => simp [bind, Except.bind]

/-- A loop that fails fails at one of the elements. -/
theorem exists_of_forM_error {ε α : Type} {f : α → Except ε Unit} {xs : List α} {e : ε}
    (h : xs.forM f = .error e) : ∃ x ∈ xs, f x = .error e := by
  induction xs with
  | nil => cases h
  | cons x xs ih =>
      rw [List.forM] at h
      rcases hx : f x with e' | u
      · rw [hx] at h
        cases h
        exact ⟨x, List.mem_cons_self, hx⟩
      · rw [hx] at h
        obtain ⟨y, hy, hfy⟩ := ih h
        exact ⟨y, List.mem_cons_of_mem _ hy, hfy⟩

/-- `AttrSortOrder`: one attribute, ascending or descending. -/
structure SortOrder where
  attrName : String
  descending : Bool := false
  deriving DecidableEq, Repr

/-- The direction of an optional sort, ascending without one. -/
def isDescending (sort : Option SortOrder) : Bool := sort.elim false (·.descending)

/-- What a cursor says of the last row of its page: the sort it was built for, that row's sort key
and its identifier. -/
structure CursorState where
  sortField : Option String
  ascending : Bool
  sortKey : Value
  idValue : Value
  deriving DecidableEq, Repr

/-- `encode_cursor` and `decode_cursor` under one key. What was not encoded under it does not
decode, with the message of the failure. -/
structure CursorCodec (κ : Type) where
  encode : CursorState → κ
  decode : κ → Except String CursorState
  decode_encode : ∀ s, decode (encode s) = .ok s

/-- A cursor that is its own content. -/
def CursorCodec.plain : CursorCodec CursorState where
  encode := id
  decode := .ok
  decode_encode _ := rfl

/-- A page of search results; `nextCursor` is absent when the page is the last. -/
structure Page (α κ : Type) where
  items : List α
  limit : ℕ
  nextCursor : Option κ

/-- The page of the rows a search fetched, which are one more than the limit when rows are left. -/
def Page.ofFound {α κ : Type} (limit : ℕ) (cursorOf : α → κ) (found : List α) : Page α κ :=
  let items := found.take limit
  { items, limit
    nextCursor := if limit < found.length then items.getLast?.map cursorOf else none }

/-- Fetching one row more than the limit tells whether rows are left. -/
theorem Page.ofFound_take {α κ : Type} (limit : ℕ) (cursorOf : α → κ) (l : List α) :
    Page.ofFound limit cursorOf (l.take (limit + 1)) = ⟨l.take limit, limit,
      if limit < l.length then (l.take limit).getLast?.map cursorOf else none⟩ := by
  have htake : (l.take (limit + 1)).take limit = l.take limit := by
    rw [List.take_take, Nat.min_eq_left (Nat.le_succ limit)]
  have hmore : limit < (l.take (limit + 1)).length ↔ limit < l.length := by
    rw [List.length_take]
    omega
  simp only [Page.ofFound, htake, hmore]

/-- `DEFAULT_LIMIT`. -/
def defaultLimit : ℕ := 20

/-- One item of an edit batch. -/
inductive Edit (π : Type) where
  | create (item : π)
  | update (item : π) (condition : Option SearchFilter)
  | delete (id : Value) (condition : Option SearchFilter)

/-- What an edit creates. -/
def Edit.created {π : Type} : Edit π → Option π
  | .create item => some item
  | _ => none

/-- What an edit updates with. -/
def Edit.updated {π : Type} : Edit π → Option π
  | .update item _ => some item
  | _ => none

/-- The standard actions. -/
inductive Action where
  | create
  | read
  | update
  | delete
  | search
  | count
  | batchRead
  deriving DecidableEq, Repr

/-- A read action with its arguments. -/
inductive ReadRequest (κ : Type) where
  | read (id : Value)
  | search (searchFilter : Option SearchFilter) (sort : Option SortOrder) (cursor : Option κ)
      (limit : ℕ)
  | count (searchFilter : Option SearchFilter)
  | batchRead (ids : List Value)

/-- What a read action answers. -/
inductive ReadReply (α κ : Type) where
  | item (item : α)
  | page (page : Page α κ)
  | count (count : ℕ)
  | items (items : List (Option α))

deriving instance DecidableEq for Page, ReadReply

end Resourcey
