import WinIoring.Machine.Run
import WinIoring.Runtime.State

/-!
# The armed event

One auto-reset event with one thread-pool wait armed for its whole life: the
state its owner shares with the callbacks, the pool's side of it, and the three
steps of its teardown.
-/

namespace WinIoring.Pipe

open WinIoring.Runtime (Waker)

/-- Whether the thread-pool registration is still live. -/
inductive Registration where
  | live
  | released
  | failed
  deriving DecidableEq

/-- One teardown step, recorded as it is performed. -/
inductive Step where
  | unregister (succeeded : Bool)
  | releaseSkipped (registration : Registration)
  | reclaim
  | close
  deriving DecidableEq

def Step.isUnregister : Step → Bool
  | .unregister _ => true
  | _ => false

/-- `signalled` and `waker` are the `ArmedState` behind the lock. `osEvent` is
the event object; `callbacks` counts the callbacks the pool has started that have
not reached the lock, and `poolWakes` are the wakers taken by those that have.
`trace` is newest first. -/
structure ArmedEvent where
  registration : Registration
  signalled : Bool
  waker : Option Waker
  osEvent : Bool
  callbacks : Nat
  poolWakes : List Waker
  dropped : Bool
  trace : List Step

namespace ArmedEvent

def new : ArmedEvent where
  registration := .live
  signalled := false
  waker := none
  osEvent := false
  callbacks := 0
  poolWakes := []
  dropped := false
  trace := []

-- ---------------------------------------------------------------------------
-- Waiting
-- ---------------------------------------------------------------------------

/-- Whether a signal was outstanding; it is consumed if so, and otherwise the
waker is recorded. -/
def pollSignalled (e : ArmedEvent) (w : Waker) : ArmedEvent × Bool :=
  if e.signalled then
    ({ e with signalled := false, waker := none }, true)
  else
    ({ e with waker := some w }, false)

theorem pollSignalled_signalled {e : ArmedEvent} (h : e.signalled = true) (w : Waker) :
    e.pollSignalled w = ({ e with signalled := false, waker := none }, true) := if_pos h

theorem pollSignalled_quiet {e : ArmedEvent} (h : e.signalled = false) (w : Waker) :
    e.pollSignalled w = ({ e with waker := some w }, false) := if_neg (Bool.eq_false_iff.mp h)

def releaseWaker (e : ArmedEvent) : ArmedEvent := { e with waker := none }

-- ---------------------------------------------------------------------------
-- The pool
-- ---------------------------------------------------------------------------

/-- `SetEvent`. -/
def signal (e : ArmedEvent) : ArmedEvent := { e with osEvent := true }

/-- The pool's wait is satisfied, which resets the event and starts a callback. -/
def dispatch (e : ArmedEvent) : Option ArmedEvent :=
  if e.osEvent ∧ e.registration ≠ .released then
    some { e with osEvent := false, callbacks := e.callbacks + 1 }
  else
    none

/-- `armed_callback`, up to its wake. -/
def callback (e : ArmedEvent) : Option ArmedEvent :=
  match e.callbacks with
  | 0 => none
  | n + 1 =>
    some { e with
      callbacks := n
      signalled := true
      waker := none
      poolWakes := e.poolWakes ++ e.waker.toList }

/-- The rest of a callback that took a waker. -/
def wake (e : ArmedEvent) (w : Waker) : Option ArmedEvent :=
  if w ∈ e.poolWakes then some { e with poolWakes := e.poolWakes.erase w } else none

/-- A callback is running. -/
def running (e : ArmedEvent) : Bool := e.callbacks ≠ 0 ∨ e.poolWakes ≠ []

-- ---------------------------------------------------------------------------
-- Teardown
-- ---------------------------------------------------------------------------

/-- `UnregisterWaitEx` waits the callbacks out before it succeeds; until then the
call has not returned. -/
def releaseRegistration (e : ArmedEvent) (succeeds : Bool) : Option (ArmedEvent × Registration) :=
  if e.registration ≠ .live then
    some ({ e with trace := .releaseSkipped e.registration :: e.trace }, e.registration)
  else if succeeds then
    if e.running then
      none
    else
      some ({ e with registration := .released, trace := .unregister true :: e.trace }, .released)
  else
    some ({ e with registration := .failed, trace := .unregister false :: e.trace }, .failed)

def reclaimCount (e : ArmedEvent) : ArmedEvent := { e with trace := .reclaim :: e.trace }

def closeEvent (e : ArmedEvent) : ArmedEvent := { e with trace := .close :: e.trace }

/-- `Drop for ArmedEvent`. -/
def drop (e : ArmedEvent) (succeeds : Bool) : Option ArmedEvent :=
  (e.releaseRegistration succeeds).map fun (e, registration) =>
    if registration = .failed then
      { e with dropped := true }
    else
      { e.reclaimCount.closeEvent with dropped := true }

-- ---------------------------------------------------------------------------
-- Its whole life
-- ---------------------------------------------------------------------------

inductive Action where
  -- The platform and its pool.
  | signal
  | dispatch
  | callback
  | wake (w : Waker)
  -- The owner.
  | pollSignalled (w : Waker)
  | releaseWaker
  | releaseRegistration (succeeds : Bool)
  | drop (succeeds : Bool)

def step (e : ArmedEvent) : Action → Option ArmedEvent
  | .signal => some e.signal
  | .dispatch => e.dispatch
  | .callback => e.callback
  | .wake w => e.wake w
  | .pollSignalled w => if e.dropped then none else some (e.pollSignalled w).1
  | .releaseWaker => if e.dropped then none else some e.releaseWaker
  | .releaseRegistration succeeds =>
    if e.dropped then none else (e.releaseRegistration succeeds).map (·.1)
  | .drop succeeds => if e.dropped then none else e.drop succeeds

def machine : Machine ArmedEvent Action where
  init e := e = new
  step := step

-- ---------------------------------------------------------------------------
-- What a teardown did
-- ---------------------------------------------------------------------------

variable {e e' : ArmedEvent} {succeeds : Bool} {r : Registration} {a : Action}

/-- A release: skipped, done, or failed. -/
theorem releaseRegistration_cases (h : e.releaseRegistration succeeds = some (e', r)) :
    (e.registration ≠ .live ∧ r = e.registration ∧
      e' = { e with trace := .releaseSkipped e.registration :: e.trace }) ∨
    (e.registration = .live ∧ succeeds = true ∧ e.running = false ∧ r = .released ∧
      e' = { e with registration := .released, trace := .unregister true :: e.trace }) ∨
    (e.registration = .live ∧ succeeds = false ∧ r = .failed ∧
      e' = { e with registration := .failed, trace := .unregister false :: e.trace }) := by
  unfold releaseRegistration at h
  split at h
  · rename_i hlive
    obtain ⟨rfl, rfl⟩ := Prod.mk.inj (Option.some.inj h)
    exact .inl ⟨hlive, rfl, rfl⟩
  rename_i hlive
  have hlive := Decidable.not_not.mp hlive
  cases succeeds with
  | true =>
    simp only [if_true] at h
    split at h
    · cases h
    · rename_i hquiet
      obtain ⟨rfl, rfl⟩ := Prod.mk.inj (Option.some.inj h)
      exact .inr (.inl ⟨hlive, rfl, Bool.eq_false_iff.mpr hquiet, rfl, rfl⟩)
  | false =>
    obtain ⟨rfl, rfl⟩ := Prod.mk.inj (Option.some.inj h)
    exact .inr (.inr ⟨hlive, rfl, rfl, rfl⟩)

theorem releaseRegistration_registration (h : e.releaseRegistration succeeds = some (e', r)) :
    e'.registration = r ∧ r ≠ .live := by
  rcases releaseRegistration_cases h with ⟨hlive, rfl, rfl⟩ | ⟨-, -, -, rfl, rfl⟩ | ⟨-, -, rfl, rfl⟩
  · exact ⟨rfl, hlive⟩
  · exact ⟨rfl, nofun⟩
  · exact ⟨rfl, nofun⟩

/-- A drop releases, and then reclaims and closes or does neither. -/
theorem drop_cases (h : e.drop succeeds = some e') :
    ∃ e₁ r, e.releaseRegistration succeeds = some (e₁, r) ∧
      ((r = .failed ∧ e' = { e₁ with dropped := true }) ∨
        (r = .released ∧ e' = { e₁ with dropped := true, trace := .close :: .reclaim :: e₁.trace })) := by
  obtain ⟨⟨e₁, r⟩, hrelease, rfl⟩ := Option.map_eq_some_iff.mp h
  refine ⟨e₁, r, hrelease, ?_⟩
  have hr := (releaseRegistration_registration hrelease).2
  cases r with
  | live => exact absurd rfl hr
  | released => exact .inr ⟨rfl, rfl⟩
  | failed => exact .inl ⟨rfl, rfl⟩

theorem dropped_releaseRegistration (h : e.releaseRegistration succeeds = some (e', r)) :
    e'.dropped = e.dropped := by
  rcases releaseRegistration_cases h with ⟨-, -, rfl⟩ | ⟨-, -, -, -, rfl⟩ | ⟨-, -, -, rfl⟩ <;> rfl

/-- A teardown's own steps. -/
def Action.tears : Action → Bool
  | .releaseRegistration _ | .drop _ => true
  | _ => false

/-- The rest leave the teardown where it is. -/
theorem frame_step (h : e.step a = some e') (ha : a.tears = false) :
    e'.registration = e.registration ∧ e'.dropped = e.dropped ∧ e'.trace = e.trace := by
  cases a with
  | signal => obtain rfl := Option.some.inj h; exact ⟨rfl, rfl, rfl⟩
  | dispatch =>
    simp only [step, dispatch] at h
    split at h
    · obtain rfl := Option.some.inj h; exact ⟨rfl, rfl, rfl⟩
    · cases h
  | callback =>
    simp only [step, callback] at h
    split at h
    · cases h
    · obtain rfl := Option.some.inj h; exact ⟨rfl, rfl, rfl⟩
  | wake w =>
    simp only [step, wake] at h
    split at h
    · obtain rfl := Option.some.inj h; exact ⟨rfl, rfl, rfl⟩
    · cases h
  | pollSignalled w =>
    simp only [step] at h
    split at h
    · cases h
    · obtain rfl := Option.some.inj h
      unfold pollSignalled
      split <;> exact ⟨rfl, rfl, rfl⟩
  | releaseWaker =>
    simp only [step] at h
    split at h
    · cases h
    · obtain rfl := Option.some.inj h; exact ⟨rfl, rfl, rfl⟩
  | releaseRegistration succeeds => cases ha
  | drop succeeds => cases ha

/-- A teardown is on record: the wait is unregistered once at most, and the count
reclaimed and the handle closed once each, in a drop whose release succeeded. -/
structure Accounted (e : ArmedEvent) : Prop where
  unregistered : e.trace.countP Step.isUnregister = if e.registration = .live then 0 else 1
  reclaimed : e.trace.count .reclaim = if e.dropped ∧ e.registration = .released then 1 else 0
  closed : e.trace.count .close = if e.dropped ∧ e.registration = .released then 1 else 0
  settled : e.dropped = true → e.registration ≠ .live
  quiet : e.registration = .released → e.running = false

namespace Accounted

/-- What leaves the teardown alone. -/
theorem of_same (h : e.Accounted) (htrace : e'.trace = e.trace)
    (hregistration : e'.registration = e.registration) (hdropped : e'.dropped = e.dropped)
    (hquiet : e.registration = .released → e'.running = false) : e'.Accounted where
  unregistered := by rw [htrace, hregistration, h.unregistered]
  reclaimed := by rw [htrace, hregistration, hdropped, h.reclaimed]
  closed := by rw [htrace, hregistration, hdropped, h.closed]
  settled := by rw [hregistration, hdropped]; exact h.settled
  quiet := by rw [hregistration]; exact hquiet

theorem releaseRegistration (h : e.Accounted) (hheld : e.dropped = false)
    (hrelease : e.releaseRegistration succeeds = some (e', r)) : e'.Accounted ∧ e'.dropped = false := by
  have hreclaimed := h.reclaimed
  have hclosed := h.closed
  have hunregistered := h.unregistered
  rw [hheld] at hreclaimed hclosed
  rcases releaseRegistration_cases hrelease with
    ⟨-, rfl, rfl⟩ | ⟨hlive, -, hquiet, rfl, rfl⟩ | ⟨hlive, -, rfl, rfl⟩
  · refine ⟨⟨?_, ?_, ?_, h.settled, h.quiet⟩, hheld⟩
    · simpa [Step.isUnregister] using hunregistered
    · simpa [hheld] using hreclaimed
    · simpa [hheld] using hclosed
  · rw [hlive] at hunregistered
    refine ⟨⟨?_, ?_, ?_, fun _ => nofun, fun _ => hquiet⟩, hheld⟩
    · rw [List.countP_cons_of_pos rfl, hunregistered]
      rfl
    · simpa [hheld] using hreclaimed
    · simpa [hheld] using hclosed
  · rw [hlive] at hunregistered
    refine ⟨⟨?_, ?_, ?_, fun _ => nofun, nofun⟩, hheld⟩
    · rw [List.countP_cons_of_pos rfl, hunregistered]
      rfl
    · simpa [hheld] using hreclaimed
    · simpa [hheld] using hclosed

theorem drop (h : e.Accounted) (hheld : e.dropped = false) (hdrop : e.drop succeeds = some e') :
    e'.Accounted := by
  obtain ⟨e₁, r, hrelease, hcases⟩ := drop_cases hdrop
  obtain ⟨h₁, hheld₁⟩ := h.releaseRegistration hheld hrelease
  have hreclaimed := h₁.reclaimed
  have hclosed := h₁.closed
  rw [hheld₁] at hreclaimed hclosed
  obtain ⟨hr, -⟩ := releaseRegistration_registration hrelease
  rcases hcases with ⟨rfl, rfl⟩ | ⟨rfl, rfl⟩
  · refine ⟨h₁.unregistered, ?_, ?_, fun _ => ?_, h₁.quiet⟩
    · simpa [hr] using hreclaimed
    · simpa [hr] using hclosed
    · simp [hr]
  · refine ⟨?_, ?_, ?_, fun _ => ?_, h₁.quiet⟩
    · simpa [Step.isUnregister] using h₁.unregistered
    · simpa [hr] using hreclaimed
    · simpa [hr] using hclosed
    · simp [hr]

end Accounted

theorem accounted_new : new.Accounted where
  unregistered := rfl
  reclaimed := rfl
  closed := rfl
  settled := nofun
  quiet := nofun

theorem accounted_step (h : e.Accounted) (hs : e.step a = some e') : e'.Accounted := by
  cases a with
  | signal =>
    obtain rfl := Option.some.inj hs
    exact h.of_same rfl rfl rfl h.quiet
  | dispatch =>
    simp only [step, dispatch] at hs
    split at hs
    · rename_i hready
      obtain rfl := Option.some.inj hs
      exact h.of_same rfl rfl rfl fun hr => absurd hr hready.2
    · cases hs
  | callback =>
    simp only [step, callback] at hs
    split at hs
    · cases hs
    · rename_i n hn
      obtain rfl := Option.some.inj hs
      refine h.of_same rfl rfl rfl fun hr => ?_
      have hquiet := h.quiet hr
      simp [running, hn] at hquiet
  | wake w =>
    simp only [step, wake] at hs
    split at hs
    · rename_i hw
      obtain rfl := Option.some.inj hs
      refine h.of_same rfl rfl rfl fun hr => ?_
      have hquiet := h.quiet hr
      simp only [running, Bool.decide_or, Bool.or_eq_false_iff, decide_eq_false_iff_not,
        Decidable.not_not] at hquiet
      rw [hquiet.2] at hw
      cases hw
    · cases hs
  | pollSignalled w =>
    simp only [step] at hs
    split at hs
    · cases hs
    · obtain rfl := Option.some.inj hs
      unfold pollSignalled
      split <;> exact h.of_same rfl rfl rfl h.quiet
  | releaseWaker =>
    simp only [step] at hs
    split at hs
    · cases hs
    · obtain rfl := Option.some.inj hs
      exact h.of_same rfl rfl rfl h.quiet
  | releaseRegistration succeeds =>
    simp only [step] at hs
    split at hs
    · cases hs
    · rename_i hheld
      obtain ⟨⟨e₁, r⟩, hrelease, rfl⟩ := Option.map_eq_some_iff.mp hs
      exact (h.releaseRegistration (Bool.eq_false_iff.mpr hheld) hrelease).1
  | drop succeeds =>
    simp only [step] at hs
    split at hs
    · cases hs
    · rename_i hheld
      exact h.drop (Bool.eq_false_iff.mpr hheld) hs

theorem accounted_of_reachable (hr : machine.Reachable e) : e.Accounted :=
  hr.invariant (fun _ h => h ▸ accounted_new) fun _ _ _ _ h _ hs => accounted_step h hs

end ArmedEvent

end WinIoring.Pipe
