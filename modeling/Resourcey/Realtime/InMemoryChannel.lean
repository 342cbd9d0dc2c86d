import Resourcey.Logic.BoundedBuffer

/-!
# The in-memory channel

`InMemoryChannel` fans published events out to its subscribers, each over a bounded queue of its own.
A subscriber is an async generator, which runs when it is resumed and waits for its queue in between.
While the channel has not been exited, a subscriber is a bounded buffer of the events published
since it subscribed (`buffer_of_history`), and no step of another one touches it
(`subscriber_filter`). An exit closes the channel for good: nothing opens it again, and a subscriber
of a later lifecycle ends at its first step.

A history lists the steps of a channel, the latest first.
-/

namespace Resourcey

variable {ε : Type}

/-! ## The channel -/

/-- Where the generator of a subscriber is suspended: before its first step, in `queue.get()`, or at
the `yield` of an event. -/
inductive SubscriberPhase where
  | created
  | waiting
  | yielded
  | ended
  deriving DecidableEq

/-- A subscriber: its queue, whether this is in `_subscribers`, and the events it yielded. -/
structure Subscriber (ε : Type) where
  queue : List ε := []
  registered : Bool := true
  phase : SubscriberPhase := .created
  received : List ε := []

/-- `InMemoryChannel`, with its subscribers in the order they subscribed. -/
structure InMemoryChannel (ε : Type) where
  closed : Bool := false
  subscribers : List (Subscriber ε) := []

/-- `Queue.full`. -/
def queueFull (maxsize : ℕ) (queue : List ε) : Bool := 0 < maxsize && maxsize ≤ queue.length

/-- `_offer`. -/
def offer (maxsize : ℕ) (event : ε) : List ε → List ε
  | [] => if queueFull maxsize ([] : List ε) then [] else [event]
  | oldest :: queue =>
    if queueFull maxsize (oldest :: queue) then offer maxsize event queue
    else oldest :: queue ++ [event]

namespace Subscriber

variable (s : Subscriber ε)

/-- One subscriber of `publish`. -/
def offered (maxsize : ℕ) (event : ε) : Subscriber ε :=
  if s.registered then { s with queue := offer maxsize event s.queue } else s

/-- `finally: self._subscribers.discard(queue)`. -/
def finish : Subscriber ε := { s with phase := .ended, registered := false }

/-- `queue.get()` and the `yield` of what it returns, or the wait for an event. -/
def get : Subscriber ε :=
  match s.queue with
  | [] => { s with phase := .waiting }
  | event :: queue =>
    { s with queue := queue, phase := .yielded, received := s.received ++ [event] }

/-- `while not self._closed`. -/
def loop (closed : Bool) : Subscriber ε := if closed then s.finish else s.get

/-- The generator runs until it is suspended again. One that waits has been woken by an event. -/
def resume (closed : Bool) : Subscriber ε :=
  match s.phase with
  | .created | .yielded => s.loop closed
  | .waiting => s.get
  | .ended => s

/-- `wait_for` times out. -/
def timeout (closed : Bool) : Subscriber ε :=
  match s.phase with
  | .waiting => s.loop closed
  | _ => s

/-- The generator is closed or its task cancelled. Before its first step there is nothing to
finish. -/
def stop : Subscriber ε :=
  match s.phase with
  | .created => { s with phase := .ended }
  | .waiting | .yielded => s.finish
  | .ended => s

end Subscriber

/-- A step of the channel or of a subscriber. -/
inductive ChannelStep (ε : Type) where
  | enter
  | exit
  | publish (event : ε)
  | subscribe
  | resume (i : ℕ)
  | timeout (i : ℕ)
  | stop (i : ℕ)
  deriving DecidableEq

namespace InMemoryChannel

/-- What a step does. `__aenter__` is inherited and does nothing. -/
def step (maxsize : ℕ) (channel : InMemoryChannel ε) : ChannelStep ε → InMemoryChannel ε
  | .enter => channel
  | .exit =>
    { closed := true
      subscribers := channel.subscribers.map fun s => { s with registered := false } }
  | .publish event =>
    { channel with subscribers := channel.subscribers.map fun s => s.offered maxsize event }
  | .subscribe => { channel with subscribers := channel.subscribers ++ [{}] }
  | .resume i =>
    { channel with
      subscribers := channel.subscribers.modify i fun s => s.resume channel.closed }
  | .timeout i =>
    { channel with
      subscribers := channel.subscribers.modify i fun s => s.timeout channel.closed }
  | .stop i => { channel with subscribers := channel.subscribers.modify i Subscriber.stop }

/-- The channel after a history. -/
def after (maxsize : ℕ) : List (ChannelStep ε) → InMemoryChannel ε
  | [] => {}
  | s :: history => (after maxsize history).step maxsize s

end InMemoryChannel

/-! ## What a subscriber is due -/

/-- How many subscribed. -/
def subscriptions (history : List (ChannelStep ε)) : ℕ :=
  history.countP fun s => s matches .subscribe

/-- The subscriber has subscribed, and the channel was not exited since. -/
def isOpen (i : ℕ) : List (ChannelStep ε) → Bool
  | [] => false
  | .subscribe :: history => subscriptions history = i || isOpen i history
  | .exit :: _ => false
  | _ :: history => isOpen i history

/-- The events published since the subscriber subscribed, up to the next exit. -/
def due (i : ℕ) : List (ChannelStep ε) → List ε
  | [] => []
  | .publish event :: history =>
    if isOpen i history then due i history ++ [event] else due i history
  | _ :: history => due i history

/-- No one has subscribed after an exit. -/
def SubscribesBeforeExit : List (ChannelStep ε) → Prop
  | [] => True
  | .subscribe :: history => .exit ∉ history ∧ SubscribesBeforeExit history
  | _ :: history => SubscribesBeforeExit history

/-- The step is none of another subscriber's. -/
def concerns (i : ℕ) : ChannelStep ε → Bool
  | .resume j | .timeout j | .stop j => j = i
  | _ => true

/-- **A subscriber is a bounded buffer of the events it is due.** They have left the buffer, in order,
taken or dropped, or they are pending; those taken are what the subscriber has received. Up to the
exit its next step receives the oldest pending event. -/
structure Delivered (maxsize : ℕ) (history : List (ChannelStep ε)) (i : ℕ) (s : Subscriber ε) :
    Prop where
  buffer : ∃ b, BoundedBuffer.Fed maxsize (due i history) b ∧
    due i history = b.fates.map Prod.fst ++ b.pending ∧ s.received = b.taken ∧ s.queue = b.pending
  next : isOpen i history = true → ∀ {event queue}, s.queue = event :: queue →
    ∃ s', (InMemoryChannel.after maxsize (.resume i :: history)).subscribers[i]? = some s' ∧
      s'.received = s.received ++ [event]

/-- **The channel delivers to every subscriber** that did not stop, and whatever the other
subscribers do. -/
def DeliversAll (maxsize : ℕ) (history : List (ChannelStep ε)) : Prop :=
  ∀ {i s}, (InMemoryChannel.after maxsize history).subscribers[i]? = some s →
    (.stop i ∉ history → Delivered maxsize history i s) ∧
      (InMemoryChannel.after maxsize (history.filter (concerns i))).subscribers[i]? = some s

/-! ## One step -/

/-- What a step does to a subscriber. -/
def Subscriber.react (maxsize : ℕ) (closed : Bool) (i : ℕ) (s : Subscriber ε) :
    ChannelStep ε → Subscriber ε
  | .enter | .subscribe => s
  | .exit => { s with registered := false }
  | .publish event => s.offered maxsize event
  | .resume j => if j = i then s.resume closed else s
  | .timeout j => if j = i then s.timeout closed else s
  | .stop j => if j = i then s.stop else s

section Step

variable {maxsize : ℕ} {channel : InMemoryChannel ε} {history : List (ChannelStep ε)} {i : ℕ}
  {s s' : Subscriber ε} {a : ChannelStep ε}

theorem getElem_step (h : channel.subscribers[i]? = some s) :
    (channel.step maxsize a).subscribers[i]? = some (s.react maxsize channel.closed i a) := by
  cases a with
  | enter => exact h
  | exit | publish event => simp [InMemoryChannel.step, Subscriber.react, h]
  | subscribe =>
      have hlt := (List.getElem?_eq_some_iff.mp h).1
      rw [InMemoryChannel.step, List.getElem?_append_left hlt]
      exact h
  | resume j | timeout j | stop j =>
      simp only [InMemoryChannel.step, List.getElem?_modify, h, Subscriber.react]
      split <;> rfl

/-- A subscriber was there before the step, or it has just subscribed. -/
theorem of_getElem_step (h : (channel.step maxsize a).subscribers[i]? = some s') :
    (∃ s, channel.subscribers[i]? = some s ∧ s' = s.react maxsize channel.closed i a) ∨
      (a = .subscribe ∧ i = channel.subscribers.length ∧ s' = {}) := by
  cases hold : channel.subscribers[i]? with
  | some s =>
      rw [getElem_step hold] at h
      exact .inl ⟨s, rfl, (Option.some.inj h).symm⟩
  | none =>
      have hle := List.getElem?_eq_none_iff.mp hold
      cases a with
      | enter => exact nomatch hold.symm.trans h
      | exit | publish event => simp [InMemoryChannel.step, hold] at h
      | subscribe =>
          rw [InMemoryChannel.step, List.getElem?_append_right hle] at h
          have hlt := (List.getElem?_eq_some_iff.mp h).1
          rw [List.length_singleton] at hlt
          have hi : i = channel.subscribers.length := by omega
          subst hi
          simp only [Nat.sub_self, List.getElem?_cons_zero, Option.some.injEq] at h
          exact .inr ⟨rfl, rfl, h.symm⟩
      | resume j | timeout j | stop j =>
          simp [InMemoryChannel.step, List.getElem?_modify, hold] at h

theorem length_subscribers (maxsize : ℕ) (history : List (ChannelStep ε)) :
    (InMemoryChannel.after maxsize history).subscribers.length =
    subscriptions history := by
  induction history with
  | nil => rfl
  | cons a history ih =>
      cases a <;> simpa [InMemoryChannel.after, InMemoryChannel.step, subscriptions] using ih

theorem closed_iff (maxsize : ℕ) (history : List (ChannelStep ε)) :
    (InMemoryChannel.after maxsize history).closed = true ↔ .exit ∈ history := by
  induction history with
  | nil => simp [InMemoryChannel.after]
  | cons a history ih => cases a <;> simp [InMemoryChannel.after, InMemoryChannel.step, ih]

/-- A step of another subscriber does nothing to this one. -/
theorem react_of_not_concerns (h : concerns i a = false) (closed : Bool) :
    s.react maxsize closed i a = s := by
  cases a with
  | resume j | timeout j | stop j => exact if_neg (of_decide_eq_false h)
  | _ => cases h

/-- Two channels are alike for a subscriber. -/
def AlikeFor (i : ℕ) (channel channel' : InMemoryChannel ε) : Prop :=
  channel.closed = channel'.closed ∧ channel.subscribers.length = channel'.subscribers.length ∧
    channel.subscribers[i]? = channel'.subscribers[i]?

theorem AlikeFor.step {channel' : InMemoryChannel ε} (h : AlikeFor i channel channel')
    (a : ChannelStep ε) : AlikeFor i (channel.step maxsize a) (channel'.step maxsize a) := by
  obtain ⟨hclosed, hlength, hsame⟩ := h
  refine ⟨?_, ?_, ?_⟩
  · cases a <;> simp [InMemoryChannel.step, hclosed]
  · cases a <;> simp [InMemoryChannel.step, hlength]
  · cases hold : channel.subscribers[i]? with
    | some s => rw [getElem_step hold, getElem_step (hsame ▸ hold), hclosed]
    | none =>
        have hold' := hsame ▸ hold
        cases a with
        | enter => exact hsame
        | subscribe =>
            have hle := List.getElem?_eq_none_iff.mp hold
            simp only [InMemoryChannel.step]
            rw [List.getElem?_append_right hle, List.getElem?_append_right (hlength ▸ hle), hlength]
        | _ => simp [InMemoryChannel.step, List.getElem?_modify, hold, hold']

/-- A step of another subscriber leaves the channel as it is for this one. -/
theorem alikeFor_step_of_not_concerns (h : concerns i a = false) :
    AlikeFor i channel (channel.step maxsize a) := by
  refine ⟨?_, ?_, ?_⟩
  · cases a with
    | resume j | timeout j | stop j => rfl
    | _ => cases h
  · cases a with
    | resume j | timeout j | stop j => exact (List.length_modify _ _ _).symm
    | _ => cases h
  · cases hold : channel.subscribers[i]? with
    | some s => rw [getElem_step hold, react_of_not_concerns h]
    | none =>
        cases a with
        | resume j | timeout j | stop j =>
            simp [InMemoryChannel.step, List.getElem?_modify, hold]
        | _ => cases h

/-- **A subscriber is what it would be without the steps of the others.** -/
theorem subscriber_filter (history : List (ChannelStep ε)) (i : ℕ) :
    AlikeFor i (InMemoryChannel.after maxsize (history.filter (concerns i)))
      (InMemoryChannel.after maxsize history) := by
  induction history with
  | nil => exact ⟨rfl, rfl, rfl⟩
  | cons a history ih =>
      cases hconcerns : concerns i a with
      | true =>
          rw [List.filter_cons_of_pos hconcerns]
          exact ih.step a
      | false =>
          rw [List.filter_cons_of_neg (by rw [hconcerns]; exact Bool.false_ne_true)]
          have hstep : AlikeFor i (InMemoryChannel.after maxsize history)
              ((InMemoryChannel.after maxsize history).step maxsize a) :=
            alikeFor_step_of_not_concerns hconcerns
          exact ⟨ih.1.trans hstep.1, ih.2.1.trans hstep.2.1, ih.2.2.trans hstep.2.2⟩

end Step

/-! ## What is open and what is due -/

section Due

variable {history : List (ChannelStep ε)} {i : ℕ}

/-- One that has not subscribed is due nothing. -/
theorem due_of_le (h : subscriptions history ≤ i) : isOpen i history = false ∧ due i history = [] := by
  induction history with
  | nil => exact ⟨rfl, rfl⟩
  | cons a history ih =>
      cases a with
      | subscribe =>
          have hlt : subscriptions history + 1 ≤ i := by simpa [subscriptions] using h
          obtain ⟨hopen, hdue⟩ := ih (by omega)
          refine ⟨?_, hdue⟩
          rw [isOpen, hopen, Bool.or_false]
          exact decide_eq_false (by omega)
      | publish event =>
          obtain ⟨hopen, hdue⟩ := ih (by simpa [subscriptions] using h)
          exact ⟨hopen, by rw [due, hopen, hdue]; rfl⟩
      | exit => exact ⟨rfl, (ih (by simpa [subscriptions] using h)).2⟩
      | _ => exact ih (by simpa [subscriptions] using h)

/-- If no one subscribes after an exit, all subscribers are open up to the exit. -/
theorem isOpen_iff (hgood : SubscribesBeforeExit history) (h : i < subscriptions history) :
    isOpen i history = true ↔ .exit ∉ history := by
  induction history with
  | nil => exact absurd h (Nat.not_lt_zero i)
  | cons a history ih =>
      cases a with
      | subscribe =>
          have hexit : .exit ∉ .subscribe :: history := by simpa using hgood.1
          refine iff_of_true ?_ hexit
          rcases Nat.lt_or_ge i (subscriptions history) with hlt | hge
          · rw [isOpen, (ih hgood.2 hlt).mpr hgood.1, Bool.or_true]
          · have hle : i < subscriptions history + 1 := by simpa [subscriptions] using h
            rw [isOpen, decide_eq_true (show subscriptions history = i by omega), Bool.true_or]
      | exit => simp [isOpen]
      | _ => simpa [isOpen] using ih hgood (by simpa [subscriptions] using h)

end Due

/-! ## A subscriber as a buffer -/

section Buffer

variable {maxsize : ℕ} {history : List (ChannelStep ε)} {i : ℕ} {s : Subscriber ε} {es : List ε}
  {b : BoundedBuffer ε}

/-- An event offered to a queue that is no longer than its bound is pushed. -/
theorem offer_eq_push (hmax : 1 ≤ maxsize) (hlength : b.pending.length ≤ maxsize) (event : ε) :
    offer maxsize event b.pending = (b.push maxsize event).pending := by
  have hroom {queue : List ε} (h : queue.length < maxsize) :
      offer maxsize event queue = queue ++ [event] := by
    have hfull : queueFull maxsize queue = false := by
      rw [queueFull, decide_eq_false (show ¬ maxsize ≤ queue.length by omega), Bool.and_false]
    cases queue with
    | nil => rw [offer, hfull]; rfl
    | cons oldest queue => rw [offer, hfull]; rfl
  rw [BoundedBuffer.push]
  cases hpending : b.pending with
  | nil => exact hroom (by rw [List.length_nil]; omega)
  | cons oldest rest =>
      rw [hpending, List.length_cons] at hlength
      simp only [List.length_cons]
      split
      · rename_i heq
        have hfull : queueFull maxsize (oldest :: rest) = true := by
          rw [queueFull, Bool.and_eq_true, decide_eq_true_eq, decide_eq_true_eq, List.length_cons]
          omega
        rw [offer, hfull, if_pos rfl]
        exact hroom (by omega)
      · exact hroom (by rw [List.length_cons]; omega)

/-- The subscriber holds and has received what the buffer does. -/
def Subscriber.Mirrors (s : Subscriber ε) (b : BoundedBuffer ε) : Prop :=
  s.received = b.taken ∧ s.queue = b.pending

theorem Subscriber.Mirrors.get (h : s.Mirrors b) : s.get.Mirrors b.pop := by
  obtain ⟨hreceived, hqueue⟩ := h
  rw [Subscriber.get, hqueue]
  cases hpending : b.pending with
  | nil =>
      rw [BoundedBuffer.pop, hpending]
      exact ⟨hreceived, hpending.symm⟩
  | cons oldest rest =>
      obtain ⟨htaken, hrest⟩ := BoundedBuffer.taken_pop hpending
      exact ⟨by rw [htaken, hreceived], hrest.symm⟩

/-- A resumed or timed out subscriber takes at most the oldest pending event. -/
theorem Subscriber.Mirrors.loop (h : s.Mirrors b) (closed : Bool) :
    (s.loop closed).Mirrors b ∨ (s.loop closed).Mirrors b.pop := by
  cases closed with
  | true => exact .inl h
  | false => exact .inr h.get

theorem Subscriber.Mirrors.resume (h : s.Mirrors b) (closed : Bool) :
    (s.resume closed).Mirrors b ∨ (s.resume closed).Mirrors b.pop := by
  rw [Subscriber.resume]
  split
  · exact h.loop closed
  · exact h.loop closed
  · exact .inr h.get
  · exact .inl h

theorem Subscriber.Mirrors.timeout (h : s.Mirrors b) (closed : Bool) :
    (s.timeout closed).Mirrors b ∨ (s.timeout closed).Mirrors b.pop := by
  rw [Subscriber.timeout]
  split
  · exact h.loop closed
  · exact .inl h

theorem Subscriber.Mirrors.offered (hmax : 1 ≤ maxsize) (hfed : BoundedBuffer.Fed maxsize es b)
    (h : s.Mirrors b) (hregistered : s.registered = true) (event : ε) :
    (s.offered maxsize event).Mirrors (b.push maxsize event) := by
  rw [Subscriber.offered, if_pos hregistered]
  refine ⟨h.1.trans (BoundedBuffer.taken_push event).symm, ?_⟩
  rw [← offer_eq_push hmax (hfed.length_le hmax), ← h.2]

/-- A subscriber is registered, and has not ended, while the channel is not closed. -/
structure Subscriber.Attached (closed : Bool) (s : Subscriber ε) : Prop where
  registered : s.registered = !closed
  running : closed = false → s.phase ≠ .ended

theorem Subscriber.Attached.get {closed : Bool} (h : s.Attached closed) : s.get.Attached closed := by
  rw [Subscriber.get]
  split
  · exact ⟨h.registered, fun _ => nofun⟩
  · exact ⟨h.registered, fun _ => nofun⟩

theorem Subscriber.Attached.loop {closed : Bool} (h : s.Attached closed) :
    (s.loop closed).Attached closed := by
  cases closed with
  | true => exact ⟨rfl, nofun⟩
  | false => exact h.get

theorem Subscriber.Attached.resume {closed : Bool} (h : s.Attached closed) :
    (s.resume closed).Attached closed := by
  rw [Subscriber.resume]
  split
  · exact h.loop
  · exact h.loop
  · exact h.get
  · exact h

theorem Subscriber.Attached.timeout {closed : Bool} (h : s.Attached closed) :
    (s.timeout closed).Attached closed := by
  rw [Subscriber.timeout]
  split
  · exact h.loop
  · exact h

theorem Subscriber.Attached.offered {closed : Bool} {event : ε} (h : s.Attached closed) :
    (s.offered maxsize event).Attached closed := by
  rw [Subscriber.offered]
  split
  · exact ⟨h.registered, h.running⟩
  · exact h

/-- A running subscriber that is resumed receives the oldest pending event. -/
theorem received_resume {event : ε} {queue : List ε} (hrunning : s.phase ≠ .ended)
    (hqueue : s.queue = event :: queue) :
    (s.resume false).received = s.received ++ [event] := by
  have hget : s.get.received = s.received ++ [event] := by
    rw [Subscriber.get, hqueue]
  rw [Subscriber.resume]
  split
  · exact hget
  · exact hget
  · exact hget
  · rename_i hended
    exact absurd hended hrunning

/-- **While no one subscribes after an exit, a subscriber that does not stop is a bounded buffer of
what it is due**, and is attached to the channel up to the exit. -/
theorem buffer_of_history (hmax : 1 ≤ maxsize) (hgood : SubscribesBeforeExit history)
    (hstop : .stop i ∉ history)
    (hs : (InMemoryChannel.after maxsize history).subscribers[i]? = some s) :
    (∃ b, BoundedBuffer.Fed maxsize (due i history) b ∧ s.Mirrors b) ∧
      s.Attached (InMemoryChannel.after maxsize history).closed := by
  induction history generalizing s with
  | nil => exact nomatch hs
  | cons a history ih =>
      have hgood' : SubscribesBeforeExit history := by
        cases a with
        | subscribe => exact hgood.2
        | _ => exact hgood
      have hstop' : .stop i ∉ history := fun h => hstop (List.mem_cons_of_mem a h)
      rcases of_getElem_step hs with ⟨s₀, hs₀, rfl⟩ | ⟨rfl, hi, rfl⟩
      · obtain ⟨⟨b, hfed, hmirrors⟩, hattached⟩ := ih hgood' hstop' hs₀
        have hlt : i < subscriptions history := by
          rw [← length_subscribers maxsize]
          exact (List.getElem?_eq_some_iff.mp hs₀).1
        have hopen := isOpen_iff hgood' hlt
        rw [← closed_iff maxsize, Bool.not_eq_true] at hopen
        have hpop {s' : Subscriber ε} (h : s'.Mirrors b ∨ s'.Mirrors b.pop) :
            ∃ b', BoundedBuffer.Fed maxsize (due i history) b' ∧ s'.Mirrors b' :=
          h.elim (fun h => ⟨b, hfed, h⟩) fun h => ⟨b.pop, hfed.pop, h⟩
        cases a with
        | enter => exact ⟨⟨b, hfed, hmirrors⟩, hattached⟩
        | exit => exact ⟨⟨b, hfed, hmirrors⟩, rfl, nofun⟩
        | subscribe => exact ⟨⟨b, hfed, hmirrors⟩, hattached⟩
        | publish event =>
            have hregistered := hattached.registered
            rw [due]
            cases hclosed : (InMemoryChannel.after maxsize history).closed with
            | true =>
                rw [hclosed] at hregistered
                have hsame : s₀.offered maxsize event = s₀ :=
                  if_neg (by rw [hregistered]; exact Bool.false_ne_true)
                rw [Bool.eq_false_iff.mpr fun h => Bool.false_ne_true ((hopen.mp h).symm.trans hclosed)]
                simp only [Subscriber.react, hsame]
                exact ⟨⟨b, hfed, hmirrors⟩, hattached⟩
            | false =>
                rw [hclosed] at hregistered
                rw [if_pos (hopen.mpr hclosed)]
                refine ⟨⟨_, hfed.push event, hmirrors.offered hmax hfed hregistered event⟩, ?_⟩
                exact hattached.offered
        | resume j =>
            rcases eq_or_ne j i with rfl | hj
            · rw [Subscriber.react, if_pos rfl]
              exact ⟨hpop (hmirrors.resume _), hattached.resume⟩
            · rw [Subscriber.react, if_neg hj]
              exact ⟨⟨b, hfed, hmirrors⟩, hattached⟩
        | timeout j =>
            rcases eq_or_ne j i with rfl | hj
            · rw [Subscriber.react, if_pos rfl]
              exact ⟨hpop (hmirrors.timeout _), hattached.timeout⟩
            · rw [Subscriber.react, if_neg hj]
              exact ⟨⟨b, hfed, hmirrors⟩, hattached⟩
        | stop j =>
            have hj : j ≠ i := by
              rintro rfl
              exact hstop List.mem_cons_self
            rw [Subscriber.react, if_neg hj]
            exact ⟨⟨b, hfed, hmirrors⟩, hattached⟩
      · have hle : subscriptions history ≤ i :=
          Nat.le_of_eq (by rw [hi, length_subscribers])
        have hdue := (due_of_le hle).2
        have hclosed : (InMemoryChannel.after maxsize history).closed = false := by
          rw [Bool.eq_false_iff, ne_eq, closed_iff]
          exact hgood.1
        refine ⟨⟨{}, ?_, rfl, rfl⟩, ?_⟩
        · show BoundedBuffer.Fed maxsize (due i history) {}
          rw [hdue]
          exact .empty
        · exact ⟨by simp [InMemoryChannel.after, InMemoryChannel.step, hclosed], fun _ => nofun⟩

end Buffer

/-- **When the channel delivers to all.** If no one subscribes after an exit, every subscriber that
does not stop is a bounded buffer of the events it is due, whatever the other subscribers do. -/
theorem deliversAll_of_subscribesBeforeExit {maxsize : ℕ} (hmax : 1 ≤ maxsize)
    (history : List (ChannelStep ε)) (hgood : SubscribesBeforeExit history) :
    DeliversAll maxsize history := by
  intro i s hs
  refine ⟨fun hstop => ?_, (subscriber_filter history i).2.2.trans hs⟩
  obtain ⟨⟨b, hfed, hmirrors⟩, hattached⟩ := buffer_of_history hmax hgood hstop hs
  refine ⟨⟨b, hfed, hfed.eq, hmirrors.1, hmirrors.2⟩, ?_⟩
  intro hopen event queue hqueue
  have hlt : i < subscriptions history := by
    rw [← length_subscribers maxsize]
    exact (List.getElem?_eq_some_iff.mp hs).1
  have hclosed : (InMemoryChannel.after maxsize history).closed = false := by
    rw [Bool.eq_false_iff, ne_eq, closed_iff]
    exact (isOpen_iff hgood hlt).mp hopen
  refine ⟨_, getElem_step hs, ?_⟩
  rw [Subscriber.react, if_pos rfl, hclosed]
  exact received_resume (hattached.running hclosed) hqueue

/-- A full queue of a slow subscriber, one that is served, and an exit. -/
theorem deliversAll_of_subscribesBeforeExit_overflow : DeliversAll 1
    [.exit, .resume 1, .publish "b", .publish "a", .subscribe, .resume 0, .subscribe, .enter] := by
  refine deliversAll_of_subscribesBeforeExit (Nat.le_refl 1) _ ?_
  simp [SubscribesBeforeExit]

/-- A subscriber of a second lifecycle ends at its first step and misses the event after it. -/
theorem not_deliversAll_secondLifecycle : ¬ DeliversAll 100
    [.publish "a", .resume 0, .subscribe, .enter, .exit, .enter] := by
  intro h
  have hsubscriber : (InMemoryChannel.after 100
      [.publish "a", .resume 0, .subscribe, .enter, .exit, .enter]).subscribers[0]? =
      some { registered := false, phase := .ended } := rfl
  obtain ⟨⟨b, hfed, hevents, hreceived, hqueue⟩, -⟩ := (h hsubscriber).1 (by simp)
  have hdue : due 0 [.publish "a", .resume 0, .subscribe, .enter, .exit, .enter] = ["a"] := rfl
  rw [hdue] at hfed
  -- Nothing is dropped, so the event must have been taken or be pending, and it is neither.
  have htaken := hfed.forall_taken (by simp)
  have hfates : b.fates.filter (fun f => f.2 = .taken) = b.fates :=
    List.filter_eq_self.mpr fun f hf => decide_eq_true (htaken f hf)
  have hlost : ["a"] = b.taken ++ b.pending := by
    rw [BoundedBuffer.taken, hfates]
    exact hevents
  rw [← hreceived, ← hqueue] at hlost
  cases hlost

end Resourcey
