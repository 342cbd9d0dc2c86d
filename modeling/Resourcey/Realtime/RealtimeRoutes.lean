import Resourcey.Auth.Policy
import Resourcey.Logic.JsonReader
import Resourcey.Logic.PyText
import Resourcey.Logic.Trace
import Resourcey.Triggers.RedisTrigger
import Resourcey.Util.ObjectFilter

/-!
# The realtime socket

A connection has a loop that handles the messages of its client, and a task that sends it the events
of the channel that its subscriptions admit. A subscription holds the read scope of the subscriber,
reduced when it was made, and a filter. Both are asked about the row that the read model makes of the
item of an event, and nothing stands between a filter that raises and the end of the task, or between
a filter that cannot be built and the end of the connection. The scope of a read is asked about the
whole row instead.

So the events that are sent are those that should be, and the connection goes on, in every run in
which the scopes answer on the shown row as on the whole one, the filters answer, and the accepted
clauses have leaves (`RealtimeHub.delivers`).
-/

namespace Resourcey

/-! ## Subscriptions -/

/-- A resource as the socket sees it: whether it can be read, the operators that each attribute can
be filtered by, what the type of an attribute makes of a value or the text of its error, and what
the read model makes of an item. -/
structure RealtimeResource where
  readable : Bool
  surface : List (String × List String)
  coerce : String → JsonDocument → Except String Value
  readModel : Dto → Option Dto

/-- `RealtimeHub`: the exposed resources by their paths, and `repr` and `str` of the language. -/
structure RealtimeHub where
  resources : List (String × RealtimeResource)
  repr : JsonDocument → String
  reprNames : List String → String
  str : JsonDocument → String

/-- `_Subscription`. -/
structure Subscription where
  resource : String
  readModel : Dto → Option Dto
  policyFilter : SearchFilter
  subFilter : Option SearchFilter

/-- Why a subscription is not made: it is refused, or an exception of another kind escapes. -/
inductive SubscribeError where
  | rejected (message : String)
  | escaped

/-- The members of a JSON object, of which the last with a key counts. -/
def membersOf {α : Type} (members : List (String × α)) : List (String × α) :=
  members.foldl (fun d (key, v) => if key ∈ d.map Prod.fst then
    d.map fun entry => if entry.1 = key then (key, v) else entry else d ++ [(key, v)]) []

/-- `message.get(key)`. -/
def getMember (members : List (String × JsonDocument)) (key : String) : JsonDocument :=
  ((membersOf members).lookup key).getD .null

/-- `_leaf_for` of a coerced value. A set that is too large is no filter. -/
def subscriptionLeaf (op : String) : ClauseOperand → Option SearchFilter
  | .many vs => if vs.length ≤ maxInValues then some (.isIn vs) else none
  | .one v => SearchFilter.leafFor op v

namespace RealtimeHub

variable (hub : RealtimeHub)

/-- The items of a set: those of an array, or the parts of a text between commas. -/
def setItems : JsonDocument → List JsonDocument
  | .arr items => items
  | value => ((((hub.str value).toList.splitOn ',').map SearchFilter.strip).filter (· ≠ [])).map
      fun part => .str (String.ofList part)

/-- The value of a clause, or the text of a validation error. -/
def coerceOperand (R : RealtimeResource) (attrName op : String) (value : JsonDocument) :
    Except String ClauseOperand :=
  if op = "in" then ((hub.setItems value).mapM (R.coerce attrName)).map .many
  else (R.coerce attrName value).map .one

/-- `_coerce_subscription_value`. -/
def coerceSubscriptionValue (R : RealtimeResource) (attrName op : String) (value : JsonDocument) :
    Except SubscribeError ClauseOperand :=
  (hub.coerceOperand R attrName op value).mapError fun text =>
    .rejected ("Invalid value for " ++ hub.repr (.str op) ++ " filter: " ++ text)

/-- The names of the filter parameters of a resource. -/
def knownParameters (R : RealtimeResource) : List String :=
  R.surface.flatMap fun (attrName, ops) => ops.map fun op => attrName ++ "__" ++ op

/-- A clause of a subscription's filter. -/
def subscriptionClause (R : RealtimeResource) (name : String) (value : JsonDocument) :
    Except SubscribeError (String × String × ClauseOperand) :=
  match SearchFilter.clauseName name with
  | none => .error (.rejected ("Invalid filter parameter " ++ hub.repr (.str name)))
  | some (attrName, op) =>
    (hub.coerceSubscriptionValue R attrName op value).map fun operand => (attrName, op, operand)

/-- The parameters that a resource cannot be filtered by. -/
def unknownParameters (R : RealtimeResource) (raw : List (String × JsonDocument)) : List String :=
  (raw.map Prod.fst).filter (· ∉ knownParameters R)

/-- The clauses of a subscription's filter. -/
def subscriptionClauses (R : RealtimeResource) (raw : List (String × JsonDocument)) :
    Except SubscribeError (List (String × String × ClauseOperand)) :=
  if unknownParameters R raw ≠ [] then
    .error (.rejected ("Unknown filter parameters " ++
      hub.reprNames ((unknownParameters R raw).insertionSort (· ≤ ·))))
  else raw.mapM fun entry => hub.subscriptionClause R entry.1 entry.2

/-- `build_filter` of the clauses, or the exception of one that has no leaf. -/
def buildClauses (clauses : List (String × String × ClauseOperand)) :
    Except SubscribeError SearchFilter :=
  match clauses.mapM fun c => (subscriptionLeaf c.2.1 c.2.2).map (SearchFilter.attr_ c.1) with
  | none => .error .escaped
  | some children => .ok (SearchFilter.and_ children)

/-- `_build_subscription_filter`. -/
def buildSubscriptionFilter (R : RealtimeResource) :
    JsonDocument → Except SubscribeError (Option SearchFilter)
  | .null | .obj [] => .ok none
  | .obj raw => do
    let clauses ← hub.subscriptionClauses R (membersOf raw)
    return some (← buildClauses clauses)
  | _ => .error (.rejected "filter must be an object of <field>__<op> keys")

/-- `_read_filter`, of the policies' READ reductions. -/
def readFilter (reductions : List SearchFilter) : SearchFilter :=
  if reductions.isEmpty then .noMatch else SearchFilter.or_ reductions

/-- `subscribe`, with the READ reductions that the policies then have. -/
def subscribe (resourceName raw : JsonDocument) (reductions : List SearchFilter) :
    Except SubscribeError Subscription :=
  let unknown := SubscribeError.rejected ("Unknown resource " ++ hub.repr resourceName ++ ".")
  match resourceName with
  | .str name =>
    match hub.resources.lookup name with
    | none => .error unknown
    | some R =>
      if R.readable then
        (hub.buildSubscriptionFilter R raw).map fun subFilter =>
          { resource := name, readModel := R.readModel, policyFilter := readFilter reductions,
            subFilter }
      else .error (.rejected ("Resource " ++ hub.repr resourceName ++ " is not subscribable."))
  | _ => .error unknown

end RealtimeHub

/-! ## Messages and events -/

/-- What the server answers a message with. -/
inductive RealtimeReply where
  | pong
  | ack (resource : JsonDocument)
  | error (message : String)

/-- `_handle_message`: the subscriptions after it, and the answer. An exception that escapes ends
the connection. -/
def RealtimeHub.handleMessage (hub : RealtimeHub) (subscriptions : List Subscription)
    (reductions : List SearchFilter) (message : JsonDocument) :
    Option (List Subscription × RealtimeReply) :=
  match message with
  | .obj members =>
    match getMember members "type" with
    | .str "ping" => some (subscriptions, .pong)
    | .str "unsubscribe" =>
      match getMember members "resource" with
      | .str name => some (subscriptions.filter (·.resource ≠ name), .ack (.str name))
      | name => some (subscriptions, .ack name)
    | .str "subscribe" =>
      match hub.subscribe (getMember members "resource") (getMember members "filter") reductions with
      | .error (.rejected text) => some (subscriptions, .error text)
      | .error .escaped => none
      | .ok s =>
        some (subscriptions.filter (·.resource ≠ s.resource) ++ [s], .ack (.str s.resource))
    | kind => some (subscriptions, .error ("Unknown message type " ++ hub.repr kind ++ "."))
  | _ => some (subscriptions, .error "Malformed message.")

/-- A row, as filters see it. -/
def rowSubject (dto : Dto) : Subject := .object fun name => (dto.lookup name).getD .none

/-- `_is_unscoped`. -/
def isUnscoped : SearchFilter → Bool
  | .all => true
  | _ => false

/-- The filter of a subscription, which admits every row where there is none. -/
def Subscription.filter (s : Subscription) : SearchFilter := s.subFilter.getD .all

section
variable [TextRules]

/-- Whether both filters of a subscription match a row. -/
def Subscription.matchesRow (s : Subscription) (row : Dto) : Except TypeError Bool := do
  if ← s.policyFilter.matches (rowSubject row) then
    match s.subFilter with
    | none => return true
    | some f => f.matches (rowSubject row)
  else return false

/-- The body of the loop of `_deliverable`: whether a subscription admits an event. -/
def Subscription.admits (s : Subscription) (event : ResourceEvent) : Except TypeError Bool :=
  if s.resource ≠ event.resource then .ok false
  else match event.item with
    | none => .ok (isUnscoped s.policyFilter && s.subFilter.all isUnscoped)
    | some item =>
      match s.readModel item with
      | none => .ok false
      | some row => s.matchesRow row

/-- `_deliverable`. -/
def deliverable (event : ResourceEvent) : List Subscription → Except TypeError Bool
  | [] => .ok false
  | s :: subscriptions => do
    if ← s.admits event then return true else deliverable event subscriptions

/-! ## Connections -/

/-- An event that came while a connection was open: the row that its write left behind, the
subscriptions there were, and whether it was sent. -/
structure HandledEvent where
  event : ResourceEvent
  row : Dto
  subscriptions : List Subscription
  sent : Bool

/-- A connection, whether it is open, and whether its delivery task runs. -/
structure RealtimeConnection where
  subscriptions : List Subscription := []
  isOpen : Bool := true
  delivering : Bool := true
  replies : List RealtimeReply := []
  handled : List HandledEvent := []

/-- A message comes, with the READ reductions that the subscriber's policies then have, or an event,
with the row that its write left behind. -/
inductive RealtimeAction where
  | message (message : JsonDocument) (reductions : List SearchFilter)
  | event (event : ResourceEvent) (row : Dto)

/-- One round of `_serve_connection` or of `_deliver`. -/
def RealtimeHub.step (hub : RealtimeHub) (c : RealtimeConnection) :
    RealtimeAction → Option RealtimeConnection
  | .message message reductions =>
    if c.isOpen then
      match hub.handleMessage c.subscriptions reductions message with
      | none => some { c with isOpen := false, delivering := false }
      | some (subscriptions, reply) =>
        some { c with subscriptions, replies := c.replies ++ [reply] }
    else none
  | .event event row =>
    if c.delivering then
      match deliverable event c.subscriptions with
      | .error _ => some { c with
          delivering := false
          handled := c.handled ++ [⟨event, row, c.subscriptions, false⟩] }
      | .ok sent => some { c with
          handled := c.handled ++ [⟨event, row, c.subscriptions, sent⟩] }
    else some { c with handled := c.handled ++ [⟨event, row, c.subscriptions, false⟩] }

/-- **The events that should be sent** for a subscription: it is one on their resource, and without
an item both its filters are unscoped, and with one its scope admits the row that the write left
behind and its filter is true of what the read model shows of it. -/
def Subscription.Admits (s : Subscription) (event : ResourceEvent) (row : Dto) : Prop :=
  s.resource = event.resource ∧
    match event.item with
    | none => s.policyFilter = .all ∧ s.filter = .all
    | some item => ∃ shown, s.readModel item = some shown ∧
        s.policyFilter.matches (rowSubject row) = .ok true ∧ s.filter.holds (rowSubject shown) = true

/-- Exactly the events were sent that should be, and the connection and its task go on. -/
structure Delivers (c : RealtimeConnection) : Prop where
  sent : ∀ h ∈ c.handled, h.sent = true ↔ ∃ s ∈ h.subscriptions, s.Admits h.event h.row
  isOpen : c.isOpen = true
  delivering : c.delivering = true

/-- The filters of a subscription answer on what it shows of a row, up to the first that is false,
and where its filter is true its scope answers as on the whole row. -/
structure Subscription.Answers (s : Subscription) (shown row : Dto) : Prop where
  scope : ∃ b, s.policyFilter.matches (rowSubject shown) = .ok b
  filter : s.policyFilter.matches (rowSubject shown) = .ok true →
    ∃ b, s.filter.matches (rowSubject shown) = .ok b
  agree : s.filter.holds (rowSubject shown) = true →
    (s.policyFilter.matches (rowSubject shown) = .ok true ↔
      s.policyFilter.matches (rowSubject row) = .ok true)

/-- A clause has a leaf: its operator is one of the standard ones, and its set is not too large. -/
def HasLeaf (c : String × String × ClauseOperand) : Prop :=
  match c.2.2 with
  | .many vs => vs.length ≤ maxInValues
  | .one _ => c.2.1 ∈ ["eq", "gt", "ge", "lt", "le", "contains", "in"]

/-- The clauses that a message asks a subscription with, of which none is refused. -/
def RealtimeHub.Asks (hub : RealtimeHub) (message : JsonDocument)
    (clauses : List (String × String × ClauseOperand)) : Prop :=
  ∃ members, message = .obj members ∧ getMember members "type" = .str "subscribe" ∧
    ∃ name R, getMember members "resource" = .str name ∧ hub.resources.lookup name = some R ∧
      R.readable = true ∧ ∃ raw, getMember members "filter" = .obj raw ∧
        hub.subscriptionClauses R (membersOf raw) = .ok clauses

/-- **Nothing raises, and nothing that decides is hidden**: the clauses that a subscription is asked
with have leaves, and of an event with an item the subscriptions on its resource answer. -/
def RealtimeHub.Sound (hub : RealtimeHub) (c : RealtimeConnection) : RealtimeAction → Prop
  | .message message _ => ∀ clauses, hub.Asks message clauses → ∀ c ∈ clauses, HasLeaf c
  | .event event row => ∀ s ∈ c.subscriptions, s.resource = event.resource → ∀ item shown,
      event.item = some item → s.readModel item = some shown → s.Answers shown row

end

/-! ## One message -/

theorem subscriptionLeaf_isSome_iff {c : String × String × ClauseOperand} :
    (subscriptionLeaf c.2.1 c.2.2).isSome = true ↔ HasLeaf c := by
  obtain ⟨attrName, op, operand⟩ := c
  cases operand with
  | many vs =>
      simp only [subscriptionLeaf, HasLeaf]
      split <;> simp [*]
  | one v =>
      simp only [subscriptionLeaf, HasLeaf, SearchFilter.leafFor]
      split <;> simp_all

/-- An exception escapes from the building of a filter exactly if a clause has no leaf. -/
theorem RealtimeHub.buildClauses_escaped_iff {clauses : List (String × String × ClauseOperand)} :
    buildClauses clauses = .error .escaped ↔ ¬ ∀ c ∈ clauses, HasLeaf c := by
  have hsome : (clauses.mapM fun c => (subscriptionLeaf c.2.1 c.2.2).map
      (SearchFilter.attr_ c.1)).isSome = true ↔ ∀ c ∈ clauses, HasLeaf c := by
    induction clauses with
    | nil => simp
    | cons c clauses ih =>
        rw [List.mapM_cons, List.forall_mem_cons, ← ih, ← subscriptionLeaf_isSome_iff]
        cases subscriptionLeaf c.2.1 c.2.2 with
        | none => simp
        | some leaf =>
            cases clauses.mapM fun c =>
              (subscriptionLeaf c.2.1 c.2.2).map (SearchFilter.attr_ c.1) <;> simp
  rw [← hsome]
  unfold buildClauses
  split <;> simp [*]

section
variable {hub : RealtimeHub}

/-- What does not coerce is refused. -/
theorem RealtimeHub.subscriptionClause_ne_escaped (R : RealtimeResource) (name : String)
    (value : JsonDocument) : hub.subscriptionClause R name value ≠ .error .escaped := by
  intro h
  unfold subscriptionClause at h
  split at h
  · cases h
  · next attrName op _ =>
      unfold coerceSubscriptionValue at h
      cases hcoerced : hub.coerceOperand R attrName op value with
      | error text => simp [hcoerced, Except.mapError, Except.map] at h
      | ok operand => simp [hcoerced, Except.mapError, Except.map] at h

/-- A filter is refused before its clauses are, or one of them is. -/
theorem RealtimeHub.subscriptionClauses_ne_escaped (R : RealtimeResource)
    (raw : List (String × JsonDocument)) : hub.subscriptionClauses R raw ≠ .error .escaped := by
  unfold subscriptionClauses
  split
  · nofun
  · clear * -
    intro h
    induction raw with
    | nil => cases h
    | cons entry raw ih =>
        rw [List.mapM_cons] at h
        cases hclause : hub.subscriptionClause R entry.1 entry.2 with
        | error e =>
            rw [hclause] at h
            cases h
            exact hub.subscriptionClause_ne_escaped R entry.1 entry.2 hclause
        | ok clause =>
            cases hrest : raw.mapM fun entry => hub.subscriptionClause R entry.1 entry.2 with
            | error e =>
                rw [hclause, hrest] at h
                cases h
                exact ih hrest
            | ok rest =>
                rw [hclause, hrest] at h
                cases h

theorem RealtimeHub.buildSubscriptionFilter_escaped_iff {R : RealtimeResource}
    {filter : JsonDocument} : hub.buildSubscriptionFilter R filter = .error .escaped ↔
      ∃ raw, filter = .obj raw ∧ ∃ clauses, hub.subscriptionClauses R (membersOf raw) = .ok clauses ∧
        ¬ ∀ c ∈ clauses, HasLeaf c := by
  cases filter with
  | obj raw =>
      simp only [JsonDocument.obj.injEq, exists_eq_left', ← buildClauses_escaped_iff]
      cases raw with
      | nil =>
          have hclauses : hub.subscriptionClauses R (membersOf []) = .ok [] := rfl
          simp [hclauses, buildSubscriptionFilter, buildClauses]
      | cons entry raw =>
          rw [buildSubscriptionFilter.eq_3 _ _ _ (List.cons_ne_nil _ _)]
          cases hclauses : hub.subscriptionClauses R (membersOf (entry :: raw)) with
          | error e =>
              have hne : e ≠ .escaped := by
                rintro rfl
                exact hub.subscriptionClauses_ne_escaped R _ hclauses
              simpa [bind, Except.bind] using hne
          | ok clauses =>
              cases hbuilt : buildClauses clauses with
              | error e => simp [bind, Except.bind, hbuilt]
              | ok f => simp [bind, Except.bind, hbuilt, pure, Except.pure]
  | _ => simp [buildSubscriptionFilter]

theorem RealtimeHub.subscribe_escaped_iff {resourceName filter : JsonDocument}
    {reductions : List SearchFilter} :
    hub.subscribe resourceName filter reductions = .error .escaped ↔
      ∃ name R, resourceName = .str name ∧ hub.resources.lookup name = some R ∧
        R.readable = true ∧ hub.buildSubscriptionFilter R filter = .error .escaped := by
  cases resourceName with
  | str name =>
      simp only [subscribe, JsonDocument.str.injEq]
      cases hR : hub.resources.lookup name with
      | none => simp [hR]
      | some R =>
          cases hreadable : R.readable with
          | false => simp [hR, hreadable]
          | true =>
              cases hbuilt : hub.buildSubscriptionFilter R filter <;>
                simp [hR, hreadable, hbuilt, Except.map]
  | _ => simp [subscribe]

/-- A message ends the connection exactly if it asks a subscription with a clause that has no
leaf. -/
theorem RealtimeHub.handleMessage_eq_none_iff {message : JsonDocument}
    (subscriptions : List Subscription) (reductions : List SearchFilter) :
    hub.handleMessage subscriptions reductions message = none ↔
      ∃ clauses, hub.Asks message clauses ∧ ¬ ∀ c ∈ clauses, HasLeaf c := by
  cases message with
  | obj members =>
      unfold handleMessage
      simp only
      split
      · next htype => simp [Asks, htype]
      · next htype => split <;> simp [Asks, htype]
      · next htype =>
          have hescaped : hub.subscribe (getMember members "resource") (getMember members "filter")
              reductions = .error .escaped ↔
                ∃ clauses, hub.Asks (.obj members) clauses ∧ ¬ ∀ c ∈ clauses, HasLeaf c := by
            rw [subscribe_escaped_iff]
            constructor
            · rintro ⟨name, R, hname, hR, hreadable, hbuilt⟩
              obtain ⟨raw, hraw, clauses, hclauses, hnot⟩ :=
                buildSubscriptionFilter_escaped_iff.mp hbuilt
              exact ⟨clauses, ⟨members, rfl, htype, name, R, hname, hR, hreadable, raw, hraw, hclauses⟩,
                hnot⟩
            · rintro ⟨clauses, ⟨_, ⟨⟩, -, name, R, hname, hR, hreadable, raw, hraw, hclauses⟩, hnot⟩
              exact ⟨name, R, hname, hR, hreadable,
                buildSubscriptionFilter_escaped_iff.mpr ⟨raw, hraw, clauses, hclauses, hnot⟩⟩
          rw [← hescaped]
          split <;> simp [*]
      · next hsubscribe =>
          refine iff_of_false nofun ?_
          rintro ⟨clauses, ⟨_, ⟨⟩, htype, -⟩, -⟩
          exact hsubscribe htype
  | _ => simp [handleMessage, Asks]

end

/-! ## One event -/

section
variable [TextRules] {hub : RealtimeHub} {c c' : RealtimeConnection}

omit [TextRules] in
theorem isUnscoped_iff {f : SearchFilter} : isUnscoped f = true ↔ f = .all := by
  cases f <;> simp [isUnscoped]

/-- A subscription without a filter matches as one with the filter that admits every row. -/
theorem Subscription.matchesRow_eq (s : Subscription) (row : Dto) : s.matchesRow row = (do
    if ← s.policyFilter.matches (rowSubject row) then s.filter.matches (rowSubject row)
    else return false) := by
  unfold Subscription.matchesRow Subscription.filter
  cases s.subFilter <;> rfl

/-- A subscription whose filters answer matches the rows that its scope admits and of which its
filter is true. -/
theorem Subscription.Answers.matchesRow {s : Subscription} {shown row : Dto} (h : s.Answers shown row) :
    ∃ b, s.matchesRow shown = .ok b ∧ (b = true ↔
      s.policyFilter.matches (rowSubject row) = .ok true ∧
        s.filter.holds (rowSubject shown) = true) := by
  rw [s.matchesRow_eq]
  obtain ⟨b, hscope⟩ := h.scope
  cases b with
  | false =>
      refine ⟨false, by rw [hscope]; rfl, ?_⟩
      have hne : ¬ s.policyFilter.matches (rowSubject shown) = .ok true := by simp [hscope]
      simp only [Bool.false_eq_true, false_iff, not_and]
      exact fun hrow hholds => hne ((h.agree hholds).mpr hrow)
  | true =>
      obtain ⟨b, hfilter⟩ := h.filter hscope
      refine ⟨b, by rw [hscope]; exact hfilter, ?_⟩
      rw [SearchFilter.holds_of_matches _ _ _ hfilter]
      refine ⟨fun hb => ⟨?_, hb⟩, And.right⟩
      exact (h.agree (SearchFilter.holds_of_matches _ _ _ (hb ▸ hfilter))).mp hscope

/-- A subscription that answers admits exactly the events that should be sent for it. -/
theorem Subscription.admits_eq {s : Subscription} {event : ResourceEvent} {row : Dto}
    (h : s.resource = event.resource → ∀ item shown, event.item = some item →
      s.readModel item = some shown → s.Answers shown row) :
    ∃ b, s.admits event = .ok b ∧ (b = true ↔ s.Admits event row) := by
  unfold Subscription.admits Subscription.Admits
  by_cases hresource : s.resource = event.resource
  · rw [if_neg (not_not.mpr hresource)]
    cases hitem : event.item with
    | none =>
        have hfilter : s.subFilter.all isUnscoped = isUnscoped s.filter := by
          unfold Subscription.filter
          cases s.subFilter <;> rfl
        exact ⟨_, rfl, by simp [hresource, hfilter, isUnscoped_iff]⟩
    | some item =>
        cases hshown : s.readModel item with
        | none => exact ⟨false, by simp only [hshown], by simp [hshown]⟩
        | some shown =>
            obtain ⟨b, hb, hadmits⟩ := (h hresource item shown hitem hshown).matchesRow
            exact ⟨b, by simpa only [hshown] using hb, by simp [hadmits, hresource, hshown]⟩
  · exact ⟨false, if_pos hresource, by simp [hresource]⟩

/-- Subscriptions that answer admit exactly the events that should be sent. -/
theorem deliverable_eq {event : ResourceEvent} {row : Dto} {subscriptions : List Subscription}
    (h : ∀ s ∈ subscriptions, s.resource = event.resource → ∀ item shown, event.item = some item →
      s.readModel item = some shown → s.Answers shown row) :
    ∃ b, deliverable event subscriptions = .ok b ∧
      (b = true ↔ ∃ s ∈ subscriptions, s.Admits event row) := by
  induction subscriptions with
  | nil => exact ⟨false, rfl, by simp⟩
  | cons s subscriptions ih =>
      obtain ⟨hs, hrest⟩ := List.forall_mem_cons.mp h
      obtain ⟨b, hb, hadmits⟩ := Subscription.admits_eq hs
      obtain ⟨b', hb', hany⟩ := ih hrest
      rw [deliverable, hb]
      cases b with
      | true => exact ⟨true, rfl, by simp [hadmits.mp rfl]⟩
      | false =>
          have hnot : ¬ s.Admits event row := fun hadmit => Bool.noConfusion (hadmits.mpr hadmit)
          exact ⟨b', hb', by simp [hany, hnot]⟩

theorem Delivers.step {a : RealtimeAction} (h : Delivers c) (hok : hub.Sound c a)
    (ha : hub.step c a = some c') : Delivers c' := by
  cases a with
  | message message reductions =>
      have hanswered : hub.handleMessage c.subscriptions reductions message ≠ none := by
        intro hnone
        obtain ⟨clauses, hasks, hnot⟩ :=
          (RealtimeHub.handleMessage_eq_none_iff c.subscriptions reductions).mp hnone
        exact hnot (hok clauses hasks)
      obtain ⟨⟨subscriptions, reply⟩, hreply⟩ := Option.ne_none_iff_exists'.mp hanswered
      simp only [RealtimeHub.step, h.isOpen, if_true, hreply] at ha
      cases ha
      exact ⟨h.sent, rfl, h.delivering⟩
  | event event row =>
      obtain ⟨b, hb, hany⟩ := deliverable_eq hok
      simp only [RealtimeHub.step, h.delivering, if_true, hb] at ha
      cases ha
      refine ⟨fun e he => ?_, h.isOpen, rfl⟩
      rcases List.mem_append.mp he with he | he
      · exact h.sent e he
      · cases List.mem_singleton.mp he
        exact hany

end

end Resourcey
