import Resourcey.Core.Service

/-!
# The webhook trigger

`callback` makes a record of each edit and posts them as JSON, and posts them again after each delay
of a retry strategy until the server accepts them. Models are dumped in the way of JSON, fields that
are missing as nulls, but the identifier of a deletion is passed as it is. The encoder is run by the
client at each post: a value that JSON does not have fails every attempt, and nothing is sent.

`callback_right_iff` says when a call reports every edit and posts as often as its strategy asks:
when the encoder has no objection to the identifiers and the fields, and every delay comes to an end.
-/

namespace Resourcey

/-! ## JSON -/

/-- A value on its way to the JSON encoder. A foreign one is an object of a type that JSON does not
have, of which the encoder names the type. -/
inductive WireValue (φ : Type) where
  | null
  | bool (b : Bool)
  | int (i : ℤ)
  | float (x : φ)
  | str (s : String)
  | arr (items : List (WireValue φ))
  | obj (members : List (String × WireValue φ))
  | foreign (typeName : String)

/-- What the encoder may object to. -/
inductive WireLeaf (φ : Type) where
  | float (x : φ)
  | foreign (typeName : String)

namespace WireValue

variable {φ : Type}

mutual
/-- The floats and foreign objects in a value, from left to right. -/
def leaves : WireValue φ → List (WireLeaf φ)
  | .null | .bool _ | .int _ | .str _ => []
  | .float x => [.float x]
  | .foreign typeName => [.foreign typeName]
  | .arr items => itemLeaves items
  | .obj members => memberLeaves members

/-- Those in the items of an array. -/
def itemLeaves : List (WireValue φ) → List (WireLeaf φ)
  | [] => []
  | item :: items => item.leaves ++ itemLeaves items

/-- Those in the members of an object. -/
def memberLeaves : List (String × WireValue φ) → List (WireLeaf φ)
  | [] => []
  | (_, value) :: members => value.leaves ++ memberLeaves members
end

theorem mem_itemLeaves {leaf : WireLeaf φ} {items : List (WireValue φ)} :
    leaf ∈ itemLeaves items ↔ ∃ item ∈ items, leaf ∈ item.leaves := by
  induction items with
  | nil => simp [itemLeaves]
  | cons item items ih => simp [itemLeaves, ih]

theorem mem_memberLeaves {leaf : WireLeaf φ} {members : List (String × WireValue φ)} :
    leaf ∈ memberLeaves members ↔ ∃ member ∈ members, leaf ∈ member.2.leaves := by
  induction members with
  | nil => simp [memberLeaves]
  | cons member members ih => simp [memberLeaves, ih]

/-- No object in the value is foreign. -/
def Native (w : WireValue φ) : Prop := ∀ typeName, .foreign typeName ∉ w.leaves

end WireValue

/-- What the encoder raises. -/
inductive EncodeError where
  | typeError (message : String)
  | valueError (message : String)
  deriving DecidableEq

/-! ## The runtime -/

/-- How a sleep ends: the task goes on, an error is raised, or it never wakes. -/
inductive SleepEnd where
  | wakes
  | raises
  | never
  deriving DecidableEq

/-- What a trigger uses of its environment: floats, of which some are no finite numbers, the dump of
a model's field in the way of JSON, which has no foreign object in it, and sleeping. -/
structure WebhookRuntime (φ β : Type) where
  finite : φ → Bool
  lt : φ → φ → Bool
  mul : φ → φ → φ
  zero : φ
  one : φ
  dump : β → Except String (WireValue φ)
  sleep : φ → SleepEnd
  dump_native : ∀ field w, dump field = .ok w → w.Native

namespace WebhookRuntime

variable {φ β : Type} (R : WebhookRuntime φ β)

/-- What the encoder raises at a leaf. -/
def leafError : WireLeaf φ → Option EncodeError
  | .float x =>
    if R.finite x then none
    else some (.valueError "Out of range float values are not JSON compliant")
  | .foreign typeName =>
    some (.typeError ("Object of type " ++ typeName ++ " is not JSON serializable"))

/-- What `json.dumps` raises. -/
def encodeError (w : WireValue φ) : Option EncodeError := w.leaves.findSome? R.leafError

/-- `min(a, b)`. -/
def pyMin (a b : φ) : φ := if R.lt b a then b else a

end WebhookRuntime

/-! ## Retry strategies -/

/-- `RetryStrategy`. -/
inductive RetryStrategy (φ : Type) where
  /-- `NoRetry`. -/
  | noRetry
  /-- `FixedDelayRetry`. -/
  | fixedDelay (maxRetries : ℤ) (delaySeconds : φ)
  /-- `ExponentialBackoffRetry`. -/
  | exponentialBackoff (maxRetries : ℤ) (initialDelaySeconds multiplier maxDelaySeconds : φ)

namespace RetryStrategy

variable {φ β : Type} (R : WebhookRuntime φ β)

/-- `_validate`. The values that a message ends with are left out. -/
def validate : RetryStrategy φ → Except String Unit
  | .noRetry => .ok ()
  | .fixedDelay maxRetries delaySeconds =>
    if maxRetries < 0 then .error "max_retries must be >= 0"
    else if R.lt delaySeconds R.zero then .error "delay_seconds must be >= 0"
    else .ok ()
  | .exponentialBackoff maxRetries initialDelaySeconds multiplier maxDelaySeconds =>
    if maxRetries < 0 then .error "max_retries must be >= 0"
    else if R.lt initialDelaySeconds R.zero then .error "initial_delay_seconds must be >= 0"
    else if R.lt multiplier R.one then .error "multiplier must be >= 1"
    else if R.lt maxDelaySeconds initialDelaySeconds then
      .error "max_delay_seconds must be >= initial_delay_seconds"
    else .ok ()

/-- The loop of `ExponentialBackoffRetry.delays`. -/
def backoff (multiplier maxDelaySeconds : φ) : ℕ → φ → List φ
  | 0, _ => []
  | n + 1, delay => R.pyMin delay maxDelaySeconds :: backoff multiplier maxDelaySeconds n
      (R.mul delay multiplier)

/-- `delays`. -/
def delays : RetryStrategy φ → List φ
  | .noRetry => []
  | .fixedDelay maxRetries delaySeconds => List.replicate maxRetries.toNat delaySeconds
  | .exponentialBackoff maxRetries initialDelaySeconds multiplier maxDelaySeconds =>
    backoff R multiplier maxDelaySeconds maxRetries.toNat initialDelaySeconds

end RetryStrategy

/-! ## Payloads -/

/-- What an edit carries and what it returned: a model, of whose fields some are missing, or a plain
value. -/
inductive EditValue (φ β : Type) where
  | model (fields : List (String × Option β))
  | plain (w : WireValue φ)

/-- An edit, as the trigger sees it. -/
inductive TriggerEdit (φ β : Type) where
  | create (item : EditValue φ β)
  | update (item : EditValue φ β)
  | delete (id : EditValue φ β)

section
variable {φ β : Type} (R : WebhookRuntime φ β)

/-- `model_dump(mode="json")` of a field. `MISSING` is dumped as null. -/
def dumpField : String × Option β → Except String (String × WireValue φ)
  | (name, none) => .ok (name, .null)
  | (name, some field) => (R.dump field).map fun w => (name, w)

/-- `_json_safe`. -/
def jsonSafe : EditValue φ β → Except String (WireValue φ)
  | .model fields => (fields.mapM (dumpField R)).map .obj
  | .plain w => .ok w

/-- `_edit_payload`. -/
def editPayload (edit : TriggerEdit φ β) (result : EditValue φ β) : Except String (WireValue φ) :=
  match edit with
  | .delete id => do
    let id ← jsonSafe R id
    return .obj [("kind", .str "delete"), ("id", id)]
  | .create item => do
    let item ← jsonSafe R item
    let result ← jsonSafe R result
    return .obj [("kind", .str "create"), ("item", item), ("result", result)]
  | .update item => do
    let item ← jsonSafe R item
    let result ← jsonSafe R result
    return .obj [("kind", .str "update"), ("item", item), ("result", result)]

/-- The records of a body. The results are as many as the edits. -/
def body : List (TriggerEdit φ β) → List (EditValue φ β) → Except String (List (WireValue φ))
  | [], [] => .ok []
  | edit :: edits, result :: results => do
    let payload ← editPayload R edit result
    let payloads ← body edits results
    return payload :: payloads
  | [], _ :: _ => .error "zip() argument 2 is longer than argument 1"
  | _ :: _, [] => .error "zip() argument 2 is shorter than argument 1"

end

/-! ## Delivery -/

/-- How a post fails: with a status that is no success, or on the way. -/
inductive PostError where
  | status (code : ℕ)
  | transport (message : String)
  deriving DecidableEq

/-- What a callback raises. -/
inductive WebhookError where
  | body (message : String)
  | encode (error : EncodeError)
  | post (error : PostError)
  | sleep
  deriving DecidableEq

/-- How a callback ends. -/
inductive DeliveryEnd where
  | returned
  | raised (error : WebhookError)
  | asleep
  deriving DecidableEq

/-- The requests that were sent, and how the callback ended. -/
structure Delivery where
  posts : ℕ
  ending : DeliveryEnd
  deriving DecidableEq

section
variable {φ β : Type} (R : WebhookRuntime φ β)

/-- `_deliver` of a body that can be encoded, from the attempt with the number on. A post fails with
an error, or not; a delay is slept before the next attempt. -/
def deliver (post : ℕ → Option PostError) : ℕ → List φ → Delivery
  | attempt, delays =>
    match post attempt, delays with
    | none, _ => ⟨attempt + 1, .returned⟩
    | some error, [] => ⟨attempt + 1, .raised (.post error)⟩
    | some _, delay :: delays =>
      match R.sleep delay with
      | .wakes => deliver post (attempt + 1) delays
      | .raises => ⟨attempt + 1, .raised .sleep⟩
      | .never => ⟨attempt + 1, .asleep⟩

/-- `_deliver` of a body that the encoder objects to: every attempt fails before it is sent. -/
def deliverNothing (error : EncodeError) : List φ → Delivery
  | [] => ⟨0, .raised (.encode error)⟩
  | delay :: delays =>
    match R.sleep delay with
    | .wakes => deliverNothing error delays
    | .raises => ⟨0, .raised .sleep⟩
    | .never => ⟨0, .asleep⟩

/-- `callback`, with a strategy that was accepted and the outcomes of the posts. -/
def callback (retry : {s : RetryStrategy φ // s.validate R = .ok ()}) (post : ℕ → Option PostError)
    (edits : List (TriggerEdit φ β)) (results : List (EditValue φ β)) : Delivery :=
  match body R edits results with
  | .error message => ⟨0, .raised (.body message)⟩
  | .ok records =>
    match R.encodeError (.arr records) with
    | some error => deliverNothing R error (retry.1.delays R)
    | none => deliver R post 0 (retry.1.delays R)

end

/-! ## What a callback should do -/

section
variable {φ β : Type} (R : WebhookRuntime φ β)

/-- The value carries what was given: every field that is not missing, or the plain value. -/
def Carries (value : EditValue φ β) (w : WireValue φ) : Prop :=
  match value with
  | .plain w' => w = w'
  | .model fields => ∃ members, w = .obj members ∧
      ∀ name field, (name, some field) ∈ fields → ∃ w', R.dump field = .ok w' ∧ (name, w') ∈ members

/-- The record is of the edit and its result. -/
def Records (edit : TriggerEdit φ β × EditValue φ β) (record : WireValue φ) : Prop :=
  match edit with
  | (.delete id, _) => ∃ w, record = .obj [("kind", .str "delete"), ("id", w)] ∧ Carries R id w
  | (.create item, result) => ∃ w w',
      record = .obj [("kind", .str "create"), ("item", w), ("result", w')] ∧
        Carries R item w ∧ Carries R result w'
  | (.update item, result) => ∃ w w',
      record = .obj [("kind", .str "update"), ("item", w), ("result", w')] ∧
        Carries R item w ∧ Carries R result w'

/-- There is a body that JSON can encode, of one record for each edit in their order. -/
def Reports (edits : List (TriggerEdit φ β × EditValue φ β)) : Prop :=
  ∃ records, body R (edits.map (·.1)) (edits.map (·.2)) = .ok records ∧
    R.encodeError (.arr records) = none ∧ List.Forall₂ (Records R) edits records

/-- The posts are as many as are needed for the first success, or one more than the delays with the
last error raised. -/
structure Delivery.Right (post : ℕ → Option PostError) (delays : List φ) (d : Delivery) : Prop where
  succeeds : ∀ i ≤ delays.length, post i = none → (∀ j < i, post j ≠ none) →
    d = ⟨i + 1, .returned⟩
  fails : (∀ i ≤ delays.length, post i ≠ none) →
    ∃ error, post delays.length = some error ∧ d = ⟨delays.length + 1, .raised (.post error)⟩

/-- **What a callback should do**, however the server answers: report every edit, and post as often
as its strategy asks. -/
def CallbackRight (retry : {s : RetryStrategy φ // s.validate R = .ok ()})
    (edits : List (TriggerEdit φ β × EditValue φ β)) : Prop :=
  Reports R edits ∧ ∀ post,
    (callback R retry post (edits.map (·.1)) (edits.map (·.2))).Right post (retry.1.delays R)

/-- The floats of the value are finite, and it has no foreign object. -/
def WireValue.Encodable (w : WireValue φ) : Prop :=
  (∀ x, .float x ∈ w.leaves → R.finite x = true) ∧ w.Native

/-- The encoder has no objection to what the value is passed on as: every field of a model is dumped,
with finite floats, and a plain value has no foreign object either. -/
def EditValue.Encodable : EditValue φ β → Prop
  | .model fields => ∀ name field, (name, some field) ∈ fields →
      ∃ w, R.dump field = .ok w ∧ ∀ x, .float x ∈ w.leaves → R.finite x = true
  | .plain w => w.Encodable R

/-- What the edit passes on can be encoded. -/
def TriggerEdit.Encodable (edit : TriggerEdit φ β × EditValue φ β) : Prop :=
  match edit with
  | (.delete id, _) => id.Encodable R
  | (.create item, result) | (.update item, result) => item.Encodable R ∧ result.Encodable R

end

/-! ## Bodies -/

section
variable {φ β : Type} {R : WebhookRuntime φ β}

theorem leafError_eq_none_iff {leaf : WireLeaf φ} : R.leafError leaf = none ↔
    (∀ x, leaf = .float x → R.finite x = true) ∧ ∀ typeName, leaf ≠ .foreign typeName := by
  cases leaf with
  | float x => simp [WebhookRuntime.leafError]
  | foreign typeName => simp [WebhookRuntime.leafError]

theorem encodeError_eq_none_iff {w : WireValue φ} : R.encodeError w = none ↔ w.Encodable R := by
  rw [WebhookRuntime.encodeError, List.findSome?_eq_none_iff]
  constructor
  · intro h
    exact ⟨fun x hx => (leafError_eq_none_iff.mp (h _ hx)).1 x rfl,
      fun typeName hmem => (leafError_eq_none_iff.mp (h _ hmem)).2 typeName rfl⟩
  · rintro ⟨hfinite, hnative⟩ leaf hleaf
    refine leafError_eq_none_iff.mpr ⟨?_, ?_⟩
    · rintro x rfl
      exact hfinite x hleaf
    · rintro typeName rfl
      exact hnative typeName hleaf

theorem encodable_arr {items : List (WireValue φ)} :
    (WireValue.arr items).Encodable R ↔ ∀ item ∈ items, item.Encodable R := by
  simp only [WireValue.Encodable, WireValue.Native, WireValue.leaves, WireValue.mem_itemLeaves]
  grind

theorem encodable_obj {members : List (String × WireValue φ)} :
    (WireValue.obj members).Encodable R ↔ ∀ member ∈ members, member.2.Encodable R := by
  simp only [WireValue.Encodable, WireValue.Native, WireValue.leaves, WireValue.mem_memberLeaves]
  grind

theorem encodable_null : (WireValue.null : WireValue φ).Encodable R := by
  simp [WireValue.Encodable, WireValue.Native, WireValue.leaves]

theorem encodable_str (s : String) : (WireValue.str s : WireValue φ).Encodable R := by
  simp [WireValue.Encodable, WireValue.Native, WireValue.leaves]

/-- The fields of a model are dumped to members that can be encoded, and none that was given is
left out, if each can be dumped. -/
theorem dumpFields_iff (fields : List (String × Option β)) :
    (∃ members, fields.mapM (dumpField R) = .ok members ∧ (∀ m ∈ members, m.2.Encodable R) ∧
      ∀ name field, (name, some field) ∈ fields →
        ∃ w, R.dump field = .ok w ∧ (name, w) ∈ members) ↔
      (EditValue.model fields).Encodable R := by
  constructor
  · rintro ⟨members, -, hencodable, hgiven⟩ name field hfield
    obtain ⟨w, hw, hmem⟩ := hgiven name field hfield
    exact ⟨w, hw, (hencodable _ hmem).1⟩
  · intro h
    induction fields with
    | nil => exact ⟨[], rfl, nofun, nofun⟩
    | cons f fields ih =>
        obtain ⟨members, hmembers, hencodable, hgiven⟩ :=
          ih fun name field hfield => h name field (List.mem_cons_of_mem _ hfield)
        have hdump : ∃ m, dumpField R f = .ok m ∧ m.2.Encodable R ∧
            ∀ name field, f = (name, some field) → ∃ w, R.dump field = .ok w ∧ m = (name, w) := by
          match f with
          | (name, none) => exact ⟨_, rfl, encodable_null, nofun⟩
          | (name, some field) =>
            obtain ⟨w, hw, hfinite⟩ := h name field List.mem_cons_self
            refine ⟨(name, w), by rw [dumpField, hw]; rfl, ⟨hfinite, R.dump_native field w hw⟩, ?_⟩
            rintro name' field' ⟨⟩
            exact ⟨w, hw, rfl⟩
        obtain ⟨m, hm, hmencodable, hmgiven⟩ := hdump
        refine ⟨m :: members, mapM_cons_eq_ok.mpr ⟨m, members, hm, hmembers, rfl⟩,
          List.forall_mem_cons.mpr ⟨hmencodable, hencodable⟩, fun name field hfield => ?_⟩
        rcases List.mem_cons.mp hfield with heq | hfield
        · obtain ⟨w, hw, rfl⟩ := hmgiven name field heq.symm
          exact ⟨w, hw, List.mem_cons_self⟩
        · obtain ⟨w, hw, hmem⟩ := hgiven name field hfield
          exact ⟨w, hw, List.mem_cons_of_mem _ hmem⟩

/-- A value is passed on as one that can be encoded and carries it, if it can. -/
theorem jsonSafe_iff (value : EditValue φ β) :
    (∃ w, jsonSafe R value = .ok w ∧ w.Encodable R ∧ Carries R value w) ↔ value.Encodable R := by
  cases value with
  | plain w =>
      constructor
      · rintro ⟨w', heq, hencodable, -⟩
        cases heq
        exact hencodable
      · intro h
        exact ⟨w, rfl, h, rfl⟩
  | model fields =>
      rw [← dumpFields_iff]
      constructor
      · rintro ⟨w, hw, hencodable, members, rfl, hgiven⟩
        obtain ⟨members', hmembers, heq⟩ : ∃ members', fields.mapM (dumpField R) = .ok members' ∧
            WireValue.obj members' = .obj members := by
          rcases hmap : fields.mapM (dumpField R) with message | members'
          · rw [jsonSafe, hmap] at hw
            cases hw
          · rw [jsonSafe, hmap] at hw
            exact ⟨members', rfl, Except.ok.inj hw⟩
        obtain rfl := WireValue.obj.inj heq
        exact ⟨members', hmembers, encodable_obj.mp hencodable, hgiven⟩
      · rintro ⟨members, hmembers, hencodable, hgiven⟩
        exact ⟨.obj members, by rw [jsonSafe, hmembers]; rfl, encodable_obj.mpr hencodable, members,
          rfl, hgiven⟩

/-- A record of an edit with an item. -/
theorem itemPayload_iff (kind : String) (item result : EditValue φ β) :
    (∃ record, (do
        let item ← jsonSafe R item
        let result ← jsonSafe R result
        return WireValue.obj [("kind", .str kind), ("item", item), ("result", result)]) =
          Except.ok record ∧ record.Encodable R ∧ ∃ w w',
        record = .obj [("kind", .str kind), ("item", w), ("result", w')] ∧
          Carries R item w ∧ Carries R result w') ↔ item.Encodable R ∧ result.Encodable R := by
  rw [← jsonSafe_iff item, ← jsonSafe_iff result]
  constructor
  · rintro ⟨record, hrecord, hencodable, w, w', rfl, hitem, hresult⟩
    obtain ⟨v, hv, hrecord⟩ := bind_eq_ok.mp hrecord
    obtain ⟨v', hv', hrecord⟩ := bind_eq_ok.mp hrecord
    cases hrecord
    have hmembers := encodable_obj.mp hencodable
    exact ⟨⟨w, hv, hmembers ("item", w) (by simp), hitem⟩,
      w', hv', hmembers ("result", w') (by simp), hresult⟩
  · rintro ⟨⟨w, hw, hencodable, hitem⟩, w', hw', hencodable', hresult⟩
    refine ⟨_, bind_eq_ok.mpr ⟨w, hw, bind_eq_ok.mpr ⟨w', hw', rfl⟩⟩, encodable_obj.mpr ?_,
      w, w', rfl, hitem, hresult⟩
    simp [encodable_str, hencodable, hencodable']

/-- A record can be encoded if what the edit passes on can. -/
theorem editPayload_iff (edit : TriggerEdit φ β × EditValue φ β) :
    (∃ record, editPayload R edit.1 edit.2 = .ok record ∧ record.Encodable R ∧
      Records R edit record) ↔ TriggerEdit.Encodable R edit := by
  match edit with
  | (.create item, result) => exact itemPayload_iff "create" item result
  | (.update item, result) => exact itemPayload_iff "update" item result
  | (.delete id, result) =>
    refine Iff.trans ?_ (jsonSafe_iff id)
    constructor
    · rintro ⟨record, hrecord, hencodable, w, rfl, hid⟩
      obtain ⟨v, hv, hrecord⟩ := bind_eq_ok.mp hrecord
      cases hrecord
      exact ⟨w, hv, encodable_obj.mp hencodable ("id", w) (by simp), hid⟩
    · rintro ⟨w, hw, hencodable, hid⟩
      refine ⟨_, bind_eq_ok.mpr ⟨w, hw, rfl⟩, encodable_obj.mpr ?_, w, rfl, hid⟩
      simp [encodable_str, hencodable]

/-- **When every edit is reported**: when what they pass on can be encoded. -/
theorem reports_iff (edits : List (TriggerEdit φ β × EditValue φ β)) :
    Reports R edits ↔ ∀ edit ∈ edits, TriggerEdit.Encodable R edit := by
  induction edits with
  | nil =>
      refine iff_of_true ⟨[], rfl, ?_, .nil⟩ nofun
      exact encodeError_eq_none_iff.mpr (encodable_arr.mpr nofun)
  | cons edit edits ih =>
      rw [List.forall_mem_cons, ← ih, ← editPayload_iff]
      constructor
      · rintro ⟨records, hbody, hencode, hrecords⟩
        obtain ⟨record, hrecord, hbody⟩ := bind_eq_ok.mp hbody
        obtain ⟨rest, hrest, hbody⟩ := bind_eq_ok.mp hbody
        cases hbody
        obtain ⟨hfirst, hothers⟩ := List.forall_mem_cons.mp
          (encodable_arr.mp (encodeError_eq_none_iff.mp hencode))
        obtain ⟨hmatch, hmatches⟩ := List.forall₂_cons.mp hrecords
        exact ⟨⟨record, hrecord, hfirst, hmatch⟩, rest, hrest,
          encodeError_eq_none_iff.mpr (encodable_arr.mpr hothers), hmatches⟩
      · rintro ⟨⟨record, hrecord, hfirst, hmatch⟩, rest, hrest, hencode, hmatches⟩
        have hothers := encodable_arr.mp (encodeError_eq_none_iff.mp hencode)
        refine ⟨record :: rest, bind_eq_ok.mpr ⟨record, hrecord, bind_eq_ok.mpr ⟨rest, hrest, rfl⟩⟩,
          encodeError_eq_none_iff.mpr (encodable_arr.mpr ?_), .cons hmatch hmatches⟩
        exact List.forall_mem_cons.mpr ⟨hfirst, hothers⟩

end

/-! ## Attempts -/

section
variable {φ β : Type} {R : WebhookRuntime φ β} {post : ℕ → Option PostError} {delays : List φ}

theorem deliver_of_success {n : ℕ} (h : post n = none) :
    deliver R post n delays = ⟨n + 1, .returned⟩ := by
  cases delays <;> simp [deliver, h]

theorem deliver_nil_of_error {n : ℕ} {error : PostError} (h : post n = some error) :
    deliver R post n [] = ⟨n + 1, .raised (.post error)⟩ := by
  simp [deliver, h]

theorem deliver_cons_of_error {n : ℕ} {error : PostError} {delay : φ} (h : post n = some error) :
    deliver R post n (delay :: delays) =
      match R.sleep delay with
      | .wakes => deliver R post (n + 1) delays
      | .raises => ⟨n + 1, .raised .sleep⟩
      | .never => ⟨n + 1, .asleep⟩ := by
  simp [deliver, h]

theorem deliver_cons_of_wakes {n : ℕ} {error : PostError} {delay : φ}
    (hdelay : R.sleep delay = .wakes) (h : post n = some error) :
    deliver R post n (delay :: delays) = deliver R post (n + 1) delays := by
  rw [deliver_cons_of_error h, hdelay]

/-- If every delay ends, the first success is the last post. -/
theorem deliver_succeeds (hwakes : ∀ delay ∈ delays, R.sleep delay = .wakes) {n i : ℕ}
    (hi : i ≤ delays.length) (hsuccess : post (n + i) = none)
    (hbefore : ∀ j < i, post (n + j) ≠ none) :
    deliver R post n delays = ⟨n + i + 1, .returned⟩ := by
  induction delays generalizing n i with
  | nil =>
      obtain rfl : i = 0 := Nat.le_zero.mp hi
      exact deliver_of_success hsuccess
  | cons delay delays ih =>
      obtain ⟨hdelay, hrest⟩ := List.forall_mem_cons.mp hwakes
      cases i with
      | zero =>
          exact deliver_of_success hsuccess
      | succ i =>
          obtain ⟨error, herror⟩ := Option.ne_none_iff_exists'.mp (hbefore 0 (Nat.succ_pos i))
          have hnext : deliver R post n (delay :: delays) = deliver R post (n + 1) delays :=
            deliver_cons_of_wakes hdelay herror
          have hshift : ∀ j, n + 1 + j = n + (j + 1) := by
            intro j
            omega
          rw [hnext, ih hrest (Nat.le_of_succ_le_succ hi) (by rw [hshift]; exact hsuccess) ?_]
          · rw [hshift]
          · intro j hj
            rw [hshift]
            exact hbefore (j + 1) (by omega)

/-- If every delay ends and every post fails, the error of the last one is raised. -/
theorem deliver_fails (hwakes : ∀ delay ∈ delays, R.sleep delay = .wakes) {n : ℕ}
    (hfails : ∀ i ≤ delays.length, post (n + i) ≠ none) :
    ∃ error, post (n + delays.length) = some error ∧
      deliver R post n delays = ⟨n + delays.length + 1, .raised (.post error)⟩ := by
  induction delays generalizing n with
  | nil =>
      obtain ⟨error, herror⟩ := Option.ne_none_iff_exists'.mp (hfails 0 le_rfl)
      exact ⟨error, herror, deliver_nil_of_error herror⟩
  | cons delay delays ih =>
      obtain ⟨hdelay, hrest⟩ := List.forall_mem_cons.mp hwakes
      obtain ⟨error, herror⟩ := Option.ne_none_iff_exists'.mp (hfails 0 (Nat.zero_le _))
      have hnext : deliver R post n (delay :: delays) = deliver R post (n + 1) delays :=
        deliver_cons_of_wakes hdelay herror
      have hshift : ∀ j, n + 1 + j = n + (j + 1) := by
        intro j
        omega
      have hlater : ∀ i ≤ delays.length, post (n + 1 + i) ≠ none := by
        intro i hi
        rw [hshift]
        exact hfails (i + 1) (Nat.succ_le_succ hi)
      obtain ⟨last, hlast, hdeliver⟩ := ih hrest hlater
      rw [hshift] at hlast hdeliver
      exact ⟨last, hlast, hnext.trans hdeliver⟩

/-- With a delay that does not end and no success, the callback raises no error of a post. -/
theorem deliver_of_not_wakes (hfails : ∀ i, post i ≠ none)
    (h : ∃ delay ∈ delays, R.sleep delay ≠ .wakes) (n : ℕ) :
    (deliver R post n delays).ending = .raised .sleep ∨
      (deliver R post n delays).ending = .asleep := by
  induction delays generalizing n with
  | nil => simp at h
  | cons delay delays ih =>
      obtain ⟨error, herror⟩ := Option.ne_none_iff_exists'.mp (hfails n)
      rw [deliver_cons_of_error herror]
      rcases hsleep : R.sleep delay with _ | _ | _
      · simp only
        refine ih ?_ (n + 1)
        obtain ⟨other, hother, hne⟩ := h
        rcases List.mem_cons.mp hother with rfl | hother
        · exact absurd hsleep hne
        · exact ⟨other, hother, hne⟩
      · exact .inl rfl
      · exact .inr rfl

/-- **When posts are made as a strategy asks**: when each of its delays ends. -/
theorem deliver_right_iff :
    (∀ post, (deliver R post 0 delays).Right post delays) ↔
      ∀ delay ∈ delays, R.sleep delay = .wakes := by
  constructor
  · intro h delay hdelay
    by_contra hne
    have hfails : ∀ i : ℕ, (fun _ => some (PostError.status 500)) i ≠ none := fun _ => nofun
    obtain ⟨error, -, hdeliver⟩ := (h fun _ => some (.status 500)).fails fun _ _ => nofun
    rcases deliver_of_not_wakes hfails ⟨delay, hdelay, hne⟩ 0 with hend | hend
    · rw [hdeliver] at hend
      cases hend
    · rw [hdeliver] at hend
      cases hend
  · intro h post
    refine ⟨fun i hi hsuccess hbefore => ?_, fun hfails => ?_⟩
    · rw [← Nat.zero_add i] at hsuccess ⊢
      refine deliver_succeeds h hi hsuccess fun j hj => ?_
      rw [Nat.zero_add]
      exact hbefore j hj
    · rw [← Nat.zero_add delays.length]
      refine deliver_fails h fun i hi => ?_
      rw [Nat.zero_add]
      exact hfails i hi

/-- **When a callback does as it should.** It reports every edit and posts as often as its strategy
asks if and only if what the edits pass on can be encoded and every delay of the strategy ends. -/
theorem callback_right_iff (retry : {s : RetryStrategy φ // s.validate R = .ok ()})
    (edits : List (TriggerEdit φ β × EditValue φ β)) :
    CallbackRight R retry edits ↔
      (∀ edit ∈ edits, TriggerEdit.Encodable R edit) ∧
        ∀ delay ∈ retry.1.delays R, R.sleep delay = .wakes := by
  rw [CallbackRight, ← reports_iff, ← deliver_right_iff]
  refine and_congr_right fun hreports => forall_congr' fun post => ?_
  obtain ⟨records, hbody, hencode, -⟩ := hreports
  have hcallback : callback R retry post (edits.map (·.1)) (edits.map (·.2)) =
      deliver R post 0 (retry.1.delays R) := by
    simp only [callback, hbody, hencode]
  rw [hcallback]

end

/-- A runtime in which floats are whole numbers and fields are texts. -/
def textWebhookRuntime : WebhookRuntime ℤ String where
  finite := fun _ => true
  lt := fun a b => decide (a < b)
  mul := (· * ·)
  zero := 0
  one := 1
  dump := fun field => .ok (.str field)
  sleep := fun _ => .wakes
  dump_native := by
    rintro field w ⟨⟩
    simp [WireValue.Native, WireValue.leaves]

/-- A deletion by a UUID is reported to nobody: the encoder objects to the identifier, and nothing
is sent. -/
theorem not_callback_right_uuid :
    let edit : TriggerEdit ℤ String := .delete (.plain (.foreign "UUID"))
    ¬ CallbackRight textWebhookRuntime ⟨.noRetry, rfl⟩ [(edit, .plain .null)] ∧
      callback textWebhookRuntime ⟨.noRetry, rfl⟩ (fun _ => none) [edit] [.plain .null] =
        ⟨0, .raised (.encode (.typeError "Object of type UUID is not JSON serializable"))⟩ := by
  refine ⟨fun h => ?_, rfl⟩
  have hencodable := (reports_iff _).mp h.1 _ List.mem_cons_self
  exact hencodable.2 "UUID" List.mem_cons_self

end Resourcey
