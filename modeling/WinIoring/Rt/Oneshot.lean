import WinIoring.Machine.Along

/-!
# The oneshot channel

The channel a spawned task returns its result by. Two halves share a state and
a waker and are used and dropped in any order. What the channel promises is
stated apart from its code; neither half announces that it has gone, so the
promise is kept exactly as long as nothing turns on that.
-/

namespace WinIoring.Rt

variable {α : Type u} {ω : Type v}

inductive Poll (β : Type u) where
  | pending
  | ready (x : β)
  deriving DecidableEq

/-- Error when receiver is dropped before sender sends. -/
inductive RecvError where
  | mk
  deriving DecidableEq

/-- Error when sender tries to send but receiver is dropped. -/
structure SendError (α : Type u) where
  value : α
  deriving DecidableEq

inductive JoinError where
  | taskAborted
  deriving DecidableEq

inductive ChannelState (α : Type u) where
  | empty
  | data (value : α)
  | closed

/-- What the two halves share. A waker is known by its name. -/
structure Channel (α : Type u) (ω : Type v) where
  shared : ChannelState α
  waker : Option ω

def channel : Channel α ω := { shared := .empty, waker := none }

/-- `Sender::send`, and the wakers it wakes. -/
def Sender.send (c : Channel α ω) (value : α) : Channel α ω × Except (SendError α) Unit × List ω :=
  match c.shared with
  | .empty => ({ c with shared := .data value }, .ok (), c.waker.toList)
  | _ => (c, .error ⟨value⟩, [])

/-- `Receiver::poll`: the state is replaced, and matched afterwards. -/
def Receiver.poll (c : Channel α ω) (w : ω) : Channel α ω × Poll (Except RecvError α) :=
  let replaced := { c with shared := .closed }
  match c.shared with
  | .data value => (replaced, .ready (.ok value))
  | .closed => (replaced, .ready (.error .mk))
  | .empty => ({ shared := .empty, waker := some w }, .pending)

def JoinHandle.poll (c : Channel α ω) (w : ω) : Channel α ω × Poll (Except JoinError α) :=
  match Receiver.poll c w with
  | (c, .ready (.ok value)) => (c, .ready (.ok value))
  | (c, .ready (.error _)) => (c, .ready (.error .taskAborted))
  | (c, .pending) => (c, .pending)

/-- Neither half has a `Drop`: letting go of one leaves what they share as it is
and wakes no one. -/
def Sender.drop (c : Channel α ω) : Channel α ω × List ω := (c, [])

def Receiver.drop (c : Channel α ω) : Channel α ω := c

-- ---------------------------------------------------------------------------
-- The two halves in use
-- ---------------------------------------------------------------------------

/-- What has become of the sender, whose `send` uses it up. -/
inductive SenderHalf (α : Type u) where
  | held
  | sent (value : α)
  | dropped
  deriving DecidableEq

/-- A channel with its halves, the waker of the receiver's last pending poll, and
what the receiver has been given. -/
structure Halves (α : Type u) (ω : Type v) where
  channel : Channel α ω
  sender : SenderHalf α
  receiverHeld : Bool
  parked : Option ω
  received : List α

/-- A spawned task sends what its future returns and ignores whether that failed;
a task dropped unfinished drops its sender. -/
inductive Event (α : Type u) (ω : Type v) where
  | send (value : α)
  | dropSender
  | poll (w : ω)
  | dropReceiver

/-- What an event gives back. A poll is reported as the receiver answers it and
as a join handle around that receiver does. -/
inductive Outcome (α : Type u) (ω : Type v) where
  | sent (result : Except (SendError α) Unit) (woken : List ω)
  | senderGone (woken : List ω)
  | polled (result : Poll (Except RecvError α)) (joined : Poll (Except JoinError α))
  | receiverGone

namespace Halves

def start : Halves α ω where
  channel := Rt.channel
  sender := .held
  receiverHeld := true
  parked := none
  received := []

def perform (s : Halves α ω) : Event α ω → Option (Halves α ω × Outcome α ω)
  | .send value =>
    match s.sender with
    | .held =>
      let (channel, result, woken) := Sender.send s.channel value
      let sender := match result with
        | .ok () => .sent value
        | .error _ => .dropped
      some ({ s with channel, sender }, .sent result woken)
    | _ => none
  | .dropSender =>
    match s.sender with
    | .held =>
      let (channel, woken) := Sender.drop s.channel
      some ({ s with channel, sender := .dropped }, .senderGone woken)
    | _ => none
  | .poll w =>
    if s.receiverHeld then
      let (channel, result) := Receiver.poll s.channel w
      let outcome := .polled result (JoinHandle.poll s.channel w).2
      match result with
      | .ready (.ok value) => some ({ s with channel, received := value :: s.received }, outcome)
      | .ready (.error _) => some ({ s with channel }, outcome)
      | .pending => some ({ s with channel, parked := some w }, outcome)
    else
      none
  | .dropReceiver =>
    if s.receiverHeld then
      some ({ s with channel := Receiver.drop s.channel, receiverHeld := false }, .receiverGone)
    else
      none

/-- What the channel promises of one event. A send fails, with its value, exactly
on a receiver that is gone, and otherwise wakes the one that waits. A poll gives
the value exactly when it was sent and not yet given, and until then an error
exactly when the sender went without sending, which aborts the join. A sender
that goes so wakes the receiver that waits. -/
def Promise (s : Halves α ω) : Event α ω → Outcome α ω → Prop
  | .send value, .sent result woken =>
    (result = .error ⟨value⟩ ↔ s.receiverHeld = false) ∧
      (result = .ok () ∧ woken = s.parked.toList ∨ result = .error ⟨value⟩)
  | .poll _, .polled result joined =>
    (∀ value, result = .ready (.ok value) ↔ s.sender = .sent value ∧ s.received = []) ∧
      (∀ value, joined = .ready (.ok value) ↔ s.sender = .sent value ∧ s.received = []) ∧
      (s.received = [] → (result = .ready (.error .mk) ↔ s.sender = .dropped)) ∧
      (s.received = [] → (joined = .ready (.error .taskAborted) ↔ s.sender = .dropped))
  | .dropSender, .senderGone woken => s.receiverHeld → ∀ w, s.parked = some w → w ∈ woken
  | .dropReceiver, .receiverGone => True
  | _, _ => False

/-- The channel keeps its promise when the event happens. -/
def Keeps (s : Halves α ω) (e : Event α ω) : Prop :=
  ∀ s' out, s.perform e = some (s', out) → s.Promise e out

/-- Nothing turns on a half that has gone: a send while the receiver is held, a
poll while the sender was not dropped unused, and such a drop while no receiver
waits. -/
def Undisturbed (s : Halves α ω) : Event α ω → Prop
  | .send _ => s.receiverHeld
  | .poll _ => s.sender ≠ .dropped
  | .dropSender => s.receiverHeld → s.parked = none
  | .dropReceiver => True

end Halves

/-- Every order of sends, polls and drops on a fresh channel. -/
def oneshotMachine (α : Type u) (ω : Type v) : Machine (Halves α ω) (Event α ω) where
  init s := s = .start
  step s e := (s.perform e).map Prod.fst

-- ---------------------------------------------------------------------------
-- Where the value is
-- ---------------------------------------------------------------------------

namespace Halves

variable {s s' : Halves α ω} {e : Event α ω} {out : Outcome α ω}

/-- Where a value on its way is: not yet sent, in the channel, or given. -/
inductive Carried (s : Halves α ω) : Prop
  | waiting (hsender : ∀ value, s.sender ≠ .sent value) (hshared : s.channel.shared = .empty)
    (hreceived : s.received = [])
  | full (value : α) (hsender : s.sender = .sent value) (hshared : s.channel.shared = .data value)
    (hreceived : s.received = [])
  | taken (value : α) (hsender : s.sender = .sent value) (hshared : s.channel.shared = .closed)
    (hreceived : s.received = [value])

structure Coherent (s : Halves α ω) : Prop where
  carried : s.Carried
  waker : s.channel.waker = s.parked

theorem coherent_start : (start : Halves α ω).Coherent :=
  ⟨.waiting nofun rfl rfl, rfl⟩

theorem Carried.empty_of_held (h : s.Carried) (hs : s.sender = .held) :
    s.channel.shared = .empty ∧ s.received = [] := by
  cases h with
  | waiting _ hshared hreceived => exact ⟨hshared, hreceived⟩
  | full value hsender => rw [hs] at hsender; cases hsender
  | taken value hsender => rw [hs] at hsender; cases hsender

/-- A send that can happen fills the channel and wakes whoever waits. -/
theorem perform_send (hc : s.Coherent) (hs : s.sender = .held) (value : α) :
    s.perform (.send value) = some ({ s with
      channel := { s.channel with shared := .data value }
      sender := .sent value }, .sent (.ok ()) s.parked.toList) := by
  obtain ⟨hshared, -⟩ := hc.carried.empty_of_held hs
  simp only [perform, hs, Sender.send, hshared, hc.waker]

theorem perform_dropSender (hs : s.sender = .held) :
    s.perform .dropSender = some ({ s with sender := .dropped }, .senderGone []) := by
  simp only [perform, hs, Sender.drop]

theorem perform_poll_empty (hr : s.receiverHeld) (hshared : s.channel.shared = .empty) (w : ω) :
    s.perform (.poll w) = some ({ s with
      channel := { shared := .empty, waker := some w }
      parked := some w }, .polled .pending .pending) := by
  simp only [perform, hr, Receiver.poll, JoinHandle.poll, hshared, if_true]

theorem perform_poll_data (hr : s.receiverHeld) (hshared : s.channel.shared = .data value) (w : ω) :
    s.perform (.poll w) = some ({ s with
      channel := { s.channel with shared := .closed }
      received := value :: s.received }, .polled (.ready (.ok value)) (.ready (.ok value))) := by
  simp only [perform, hr, Receiver.poll, JoinHandle.poll, hshared, if_true]

theorem perform_poll_closed (hr : s.receiverHeld) (hshared : s.channel.shared = .closed) (w : ω) :
    s.perform (.poll w) = some ({ s with channel := { s.channel with shared := .closed } },
      .polled (.ready (.error .mk)) (.ready (.error .taskAborted))) := by
  simp only [perform, hr, Receiver.poll, JoinHandle.poll, hshared, if_true]

theorem held_of_perform (h : s.perform (.poll w) = some (s', out)) : s.receiverHeld := by
  cases hr : s.receiverHeld with
  | true => rfl
  | false => simp [perform, hr] at h

theorem sender_of_send (h : s.perform (.send value) = some (s', out)) : s.sender = .held := by
  cases hs : s.sender with
  | held => rfl
  | sent _ => simp [perform, hs] at h
  | dropped => simp [perform, hs] at h

theorem sender_of_drop (h : s.perform .dropSender = some (s', out)) : s.sender = .held := by
  cases hs : s.sender with
  | held => rfl
  | sent _ => simp [perform, hs] at h
  | dropped => simp [perform, hs] at h

/-- Each event moves the value on, or leaves it where it is. -/
theorem Coherent.perform (hc : s.Coherent) (h : s.perform e = some (s', out)) : s'.Coherent := by
  cases e with
  | send value =>
    have hs := sender_of_send h
    obtain ⟨-, hreceived⟩ := hc.carried.empty_of_held hs
    rw [perform_send hc hs] at h
    cases h
    exact ⟨.full value rfl rfl hreceived, hc.waker⟩
  | dropSender =>
    have hs := sender_of_drop h
    obtain ⟨hshared, hreceived⟩ := hc.carried.empty_of_held hs
    rw [perform_dropSender hs] at h
    cases h
    exact ⟨.waiting nofun hshared hreceived, hc.waker⟩
  | poll w =>
    have hr := held_of_perform h
    cases hc.carried with
    | waiting hsender hshared hreceived =>
      rw [perform_poll_empty hr hshared] at h
      cases h
      exact ⟨.waiting hsender rfl hreceived, rfl⟩
    | full value hsender hshared hreceived =>
      rw [perform_poll_data hr hshared] at h
      cases h
      exact ⟨.taken value hsender rfl (by rw [hreceived]), hc.waker⟩
    | taken value hsender hshared hreceived =>
      rw [perform_poll_closed hr hshared] at h
      cases h
      exact ⟨.taken value hsender rfl hreceived, hc.waker⟩
  | dropReceiver =>
    simp only [Halves.perform, Receiver.drop] at h
    split at h
    · cases h
      cases hc.carried with
      | waiting hsender hshared hreceived => exact ⟨.waiting hsender hshared hreceived, hc.waker⟩
      | full value hsender hshared hreceived => exact ⟨.full value hsender hshared hreceived, hc.waker⟩
      | taken value hsender hshared hreceived => exact ⟨.taken value hsender hshared hreceived, hc.waker⟩
    · cases h

theorem coherent_of_reachable (hr : (oneshotMachine α ω).Reachable s) : s.Coherent := by
  refine hr.invariant ?_ ?_
  · rintro _ rfl
    exact coherent_start
  · intro s e s' _ hc _ hs
    obtain ⟨⟨t, out⟩, hperform, rfl⟩ := Option.map_eq_some_iff.mp hs
    exact hc.perform hperform

-- ---------------------------------------------------------------------------
-- When the promise is kept
-- ---------------------------------------------------------------------------

/-- A send never fails, so it keeps the promise while there is a receiver. -/
theorem keeps_send (hc : s.Coherent) (hs : s.sender = .held) (value : α) :
    s.Keeps (.send value) ↔ s.receiverHeld := by
  have hperform := perform_send hc hs value
  constructor
  · intro h
    obtain ⟨hfails, -⟩ := h _ _ hperform
    cases hr : s.receiverHeld with
    | true => rfl
    | false => cases hfails.mpr hr
  · intro hr s' out h
    rw [hperform] at h
    cases h
    exact ⟨by simp [hr], .inl ⟨rfl, rfl⟩⟩

/-- A sender that goes wakes no one. -/
theorem keeps_dropSender (hs : s.sender = .held) :
    s.Keeps .dropSender ↔ (s.receiverHeld → s.parked = none) := by
  have hperform := perform_dropSender hs
  constructor
  · intro h hr
    have hwakes := h _ _ hperform hr
    exact Option.eq_none_iff_forall_not_mem.mpr fun w hw => List.not_mem_nil (hwakes w hw)
  · intro hnone s' out h
    rw [hperform] at h
    cases h
    intro hr w hw
    rw [hnone hr] at hw
    cases hw

/-- A poll finds an error only where a value was, never where one will not be. -/
theorem keeps_poll (hc : s.Coherent) (hr : s.receiverHeld) (w : ω) :
    s.Keeps (.poll w) ↔ s.sender ≠ .dropped := by
  cases hc.carried with
  | waiting hsender hshared hreceived =>
    have hperform := perform_poll_empty hr hshared w
    constructor
    · intro h hdropped
      obtain ⟨-, -, herror, -⟩ := h _ _ hperform
      cases (herror hreceived).mpr hdropped
    · intro hdropped s' out h
      rw [hperform] at h
      cases h
      exact ⟨by simp [hsender], by simp [hsender], by simp [hdropped], by simp [hdropped]⟩
  | full value hsender hshared hreceived =>
    refine iff_of_true ?_ (by simp [hsender])
    intro s' out h
    rw [perform_poll_data hr hshared] at h
    cases h
    exact ⟨by simp [hsender, hreceived], by simp [hsender, hreceived], by simp [hsender],
      by simp [hsender]⟩
  | taken value hsender hshared hreceived =>
    refine iff_of_true ?_ (by simp [hsender])
    intro s' out h
    rw [perform_poll_closed hr hshared] at h
    cases h
    exact ⟨by simp [hreceived], by simp [hreceived], by simp [hreceived], by simp [hreceived]⟩

theorem keeps_iff (hc : s.Coherent) (h : s.perform e = some (s', out)) :
    s.Keeps e ↔ s.Undisturbed e := by
  cases e with
  | send value => exact keeps_send hc (sender_of_send h) value
  | dropSender => exact keeps_dropSender (sender_of_drop h)
  | poll w => exact keeps_poll hc (held_of_perform h) w
  | dropReceiver =>
    refine iff_of_true ?_ trivial
    intro s' out h
    simp only [Halves.perform, Receiver.drop] at h
    split at h
    · cases h
      trivial
    · cases h

end Halves

/-- In every order of sends, polls and drops: what is received was sent, once;
what was sent and not yet received is given at the receiver's next poll; and
every event from there on keeps the channel's promise exactly if nothing turns
on a half that has gone. -/
theorem oneshot_promise {s : Halves α ω} (hr : (oneshotMachine α ω).Reachable s) :
    s.received.length ≤ 1 ∧
    (∀ value ∈ s.received, s.sender = .sent value) ∧
    (∀ value, s.sender = .sent value → s.received = [] → s.receiverHeld → ∀ w, ∃ s',
      s.perform (.poll w) = some (s', .polled (.ready (.ok value)) (.ready (.ok value))) ∧
      s'.received = [value]) ∧
    ∀ events, (oneshotMachine α ω).Along Halves.Keeps s events ↔
      (oneshotMachine α ω).Along Halves.Undisturbed s events := by
  have hc := Halves.coherent_of_reachable hr
  refine ⟨?_, ?_, ?_, ?_⟩
  · cases hc.carried with
    | waiting _ _ hreceived => simp [hreceived]
    | full _ _ _ hreceived => simp [hreceived]
    | taken _ _ _ hreceived => simp [hreceived]
  · cases hc.carried with
    | waiting _ _ hreceived => simp [hreceived]
    | full _ _ _ hreceived => simp [hreceived]
    | taken _ hsender _ hreceived => simp [hreceived, hsender]
  · intro value hsent hnone hheld w
    cases hc.carried with
    | waiting hsender => exact absurd hsent (hsender value)
    | full v hsender hshared =>
      rw [hsent] at hsender
      cases hsender
      exact ⟨_, Halves.perform_poll_data hheld hshared w, by rw [hnone]⟩
    | taken v _ _ hreceived =>
      rw [hnone] at hreceived
      cases hreceived
  · refine hr.along_congr fun s e s' hr hs => ?_
    obtain ⟨⟨t, out⟩, hperform, -⟩ := Option.map_eq_some_iff.mp hs
    exact Halves.keeps_iff (Halves.coherent_of_reachable hr) hperform

/-- A value sent under a parked receiver, which is polled again with another
waker. -/
theorem oneshot_promise_received :
    ∃ s : Halves Nat Nat, (oneshotMachine Nat Nat).Reachable s ∧ s.received = [5] ∧
      s.sender = .sent 5 ∧ (oneshotMachine Nat Nat).Along Halves.Keeps s [.poll 9, .dropReceiver] := by
  let events : List (Event Nat Nat) := [.poll 7, .send 5, .poll 8]
  obtain ⟨s, hrun, hreceived, hsender⟩ : ∃ s, (oneshotMachine Nat Nat).run .start events = some s ∧
      s.received = [5] ∧ s.sender = .sent 5 := ⟨_, rfl, rfl, rfl⟩
  have hr : (oneshotMachine Nat Nat).Reachable s := Machine.Reachable.run (.init rfl) hrun
  obtain ⟨-, hsent, -, hkeeps⟩ := oneshot_promise hr
  refine ⟨s, hr, hreceived, hsent 5 (by simp [hreceived]), (hkeeps _).mpr ?_⟩
  intro s' _
  refine ⟨by simp [Halves.Undisturbed, hsender], fun s'' _ => ⟨trivial, trivial⟩⟩

/-- A sender that goes without sending, under a receiver that waits: no one is
woken, and every poll after that waits again, the join handle's too. And a send
to a receiver that has gone reports success. -/
theorem not_oneshot_promise :
    ¬ (oneshotMachine Nat Nat).Along Halves.Keeps .start [.poll 7, .dropSender] ∧
    (∃ s : Halves Nat Nat, (oneshotMachine Nat Nat).run .start [.poll 7, .dropSender] = some s ∧
      s.sender = .dropped ∧ ∀ ws : List Nat, ∃ s',
        (oneshotMachine Nat Nat).run s (ws.map .poll) = some s' ∧ ∀ w, ∃ s'',
          s'.perform (.poll w) = some (s'', .polled .pending .pending)) ∧
    ∃ s s' : Halves Nat Nat, (oneshotMachine Nat Nat).run .start [.dropReceiver] = some s ∧
      s.receiverHeld = false ∧ s.perform (.send 5) = some (s', .sent (.ok ()) []) := by
  refine ⟨?_, ⟨_, rfl, rfl, ?_⟩, _, _, rfl, rfl, rfl⟩
  · intro h
    obtain ⟨-, h⟩ := h _ rfl
    obtain ⟨h, -⟩ := h _ rfl
    exact List.not_mem_nil (h _ _ rfl rfl 7 rfl)
  · -- Each poll parks its waker and finds the channel as empty as before.
    suffices hwaits : ∀ (ws : List Nat) (s : Halves Nat Nat), s.receiverHeld →
        s.channel.shared = .empty → ∃ s', (oneshotMachine Nat Nat).run s (ws.map .poll) = some s' ∧
          ∀ w, ∃ s'', s'.perform (.poll w) = some (s'', .polled .pending .pending) from
      fun ws => hwaits ws _ rfl rfl
    intro ws
    induction ws with
    | nil => exact fun s hr hshared => ⟨s, rfl, fun w => ⟨_, Halves.perform_poll_empty hr hshared w⟩⟩
    | cons w ws ih =>
      intro s hr hshared
      have hstep := Halves.perform_poll_empty hr hshared w
      obtain ⟨s', hrun, hpending⟩ := ih { s with
        channel := { shared := .empty, waker := some w }
        parked := some w } hr rfl
      refine ⟨s', Machine.run_cons.mpr ⟨_, ?_, hrun⟩, hpending⟩
      simp only [oneshotMachine, hstep, Option.map_some]

end WinIoring.Rt
