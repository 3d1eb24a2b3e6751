import WinIoring.Pipe.Error
import WinIoring.Pipe.Event

/-!
# The pipe server

One pipe instance and the accepts issued against it, with everything that acts on
them: the platform, which completes connects and signals their events, the pool
behind those events, and clients that come and go. The server's code is cut
where the platform or a callback can come between two of its reads.
-/

namespace WinIoring.Pipe

open WinIoring.Runtime (Waker)

-- ---------------------------------------------------------------------------
-- A connect
-- ---------------------------------------------------------------------------

abbrev ConnectId := Nat

/-- `OVERLAPPED::Internal`: pending, or a status that `GetOverlappedResult`
reports as a result. -/
inductive Internal where
  | pending
  | terminal (result : Except HResult Unit)

/-- What became of a heap allocation. -/
inductive Storage where
  | owned
  | freed
  | leaked
  deriving DecidableEq

/-- One `ConnectNamedPipe`, with the `OVERLAPPED` and the event of its
`AcceptSlot`. The kernel has taken it if it is `pended`. -/
structure Connect where
  internal : Internal
  overlapped : Storage
  event : ArmedEvent
  pended : Bool
  /-- A callback has reached the shared state since the status became terminal. -/
  announced : Bool
  /-- A terminal status has been read. -/
  observed : Bool

namespace Connect

/-- Before it is submitted. -/
def new : Connect where
  internal := .pending
  overlapped := .owned
  event := .new
  pended := false
  announced := false
  observed := false

/-- `AcceptSlot::completed`. -/
def completed (k : Connect) : Bool :=
  match k.internal with
  | .pending => false
  | .terminal _ => true

/-- The kernel has the connect and may write to its `OVERLAPPED`. -/
def outstanding (k : Connect) : Bool := k.pended && !k.completed

/-- `GetOverlappedResult`, asked not to wait. -/
def getOverlappedResult (k : Connect) : Except HResult Unit :=
  match k.internal with
  | .pending => .error errorIoIncomplete
  | .terminal result => result

/-- Every signal the connect's event was given has reached the shared state, one
of them since the status became terminal. -/
def delivered (k : Connect) : Bool :=
  k.announced && !k.event.osEvent && k.event.callbacks = 0

/-- The shared state is reached by a callback. -/
def callback (k : Connect) : Option Connect :=
  k.event.callback.map fun event => { k with event, announced := k.announced || k.completed }

end Connect

/-- The platform reports a client: the connect succeeded, or the client was
already there. -/
def reportsClient : Except HResult Unit → Bool
  | .ok () => true
  | .error hr => hr = errorPipeConnected

-- ---------------------------------------------------------------------------
-- The teardown rules
-- ---------------------------------------------------------------------------

/-- What `CancelIoEx` reported about the operation. -/
inductive CancelOutcome where
  | located
  | notFound
  | failed
  deriving DecidableEq

/-- `issue_cancel`'s reading of the platform's answer. -/
def CancelOutcome.ofResult : Except HResult Unit → CancelOutcome
  | .ok () => .located
  | .error hr => if hr = errorNotFound then .notFound else .failed

/-- What `Drop for Server` must do with an accept slot. -/
inductive Teardown where
  | collectThenFree
  | leakNeverSubmitted
  | leakCancelFailed
  | leakUnregisterFailed
  | leakCollectUnfinished
  deriving DecidableEq

def Teardown.frees : Teardown → Bool
  | .collectThenFree => true
  | _ => false

def teardownAction (cancel : CancelOutcome) (completed : Bool) : Teardown :=
  match cancel, completed with
  | .failed, _ => .leakCancelFailed
  | .notFound, false => .leakNeverSubmitted
  | _, _ => .collectThenFree

def releasePermitsCollect : Registration → Option Teardown
  | .released => none
  | .failed | .live => some .leakUnregisterFailed

def collectFinishedIt (stillPending : Bool) : Teardown :=
  if stillPending then .leakCollectUnfinished else .collectThenFree

-- ---------------------------------------------------------------------------
-- The state
-- ---------------------------------------------------------------------------

/-- The instance as the platform has it: open to clients, left by a client that
had connected, or disconnected. -/
inductive Line where
  | listening
  | closing
  | disconnected
  deriving DecidableEq

inductive AcceptState where
  | fresh
  | idle
  | accepting (slot : ConnectId)
  | connected
  deriving DecidableEq

inductive AcceptFuture where
  | ready
  | waiting
  | failed (e : Error)
  | done
  deriving DecidableEq

/-- Who called `collect`. -/
inductive Caller where
  | accept
  | poll (w : Waker)
  deriving DecidableEq

/-- Where the server's own code stands. -/
inductive Pc where
  | idle
  | collecting (caller : Caller)
  /-- `Accept::poll`, collecting having found the connect unfinished. -/
  | reparking (w : Waker)
  /-- `Drop for Server` has found the connect unfinished. -/
  | cancelling (slot : ConnectId)
  | cancelled (slot : ConnectId) (outcome : CancelOutcome)
  | releasing (slot : ConnectId)
  /-- In the collect that blocks. -/
  | blocking (slot : ConnectId)
  | returned (slot : ConnectId)
  | dropped
  deriving DecidableEq

/-- The slot that `Drop for Server` is tearing down. -/
def Pc.tearing : Pc → Option ConnectId
  | .cancelling c | .cancelled c _ | .releasing c | .blocking c | .returned c => some c
  | _ => none

/-- What a run leaves on record, newest first. -/
inductive Event where
  /-- A `ConnectNamedPipe`, and what it reported. -/
  | issued (c : ConnectId) (answer : Except HResult Unit)
  | completed (c : ConnectId) (result : Except HResult Unit)
  /-- `collect` found a client. -/
  | collected (c : ConnectId) (result : Except HResult Unit)
  | disconnected
  /-- `Server::accept` returned a future. -/
  | began
  | polled (w : Waker)
  | wake (w : Waker)
  | resolved (r : Except Error Unit)
  | cancelled (c : ConnectId) (outcome : CancelOutcome)

/-- `leakedFiles` counts the references to the file that were forgotten. -/
structure Sys where
  accept : AcceptState
  future : Option AcceptFuture
  pc : Pc
  connects : ConnectId → Connect
  nextConnect : ConnectId
  leakedFiles : Nat
  line : Line
  log : List Event

/-- The platform's answers to a call. -/
structure Answers where
  /-- The failure of `ArmedEvent::new`. -/
  arm : Option HResult
  connect : Except HResult Unit
  cancel : Except HResult Unit
  unregister : Bool

inductive Action where
  -- The platform, its pool and the clients.
  | complete (c : ConnectId) (result : Except HResult Unit)
  | signal (c : ConnectId)
  | dispatch (c : ConnectId)
  | callback (c : ConnectId)
  | poolWake (c : ConnectId) (w : Waker)
  | clientGone
  -- The application.
  | accept (a : Answers)
  | poll (w : Waker)
  | dropFuture
  | disconnect (failure : Option HResult)
  | dropServer
  -- The server.
  | advance (a : Answers)

namespace Sys

/-- `ServerOptions::create`. -/
def new : Sys where
  accept := .fresh
  future := none
  pc := .idle
  connects _ := .new
  nextConnect := 0
  leakedFiles := 0
  line := .listening
  log := []

def modify (s : Sys) (c : ConnectId) (f : Connect → Connect) : Sys :=
  { s with connects := Function.update s.connects c (f (s.connects c)) }

def emit (s : Sys) (e : Event) : Sys := { s with log := e :: s.log }

/-- The status word is read. -/
def observe (s : Sys) (c : ConnectId) : Sys :=
  s.modify c fun k => { k with observed := k.observed || k.completed }

def setEvent (s : Sys) (c : ConnectId) (event : ArmedEvent) : Sys :=
  s.modify c fun k => { k with event }

/-- An `AcceptSlot` dropped: the box, then the event. -/
def dropSlot (s : Sys) (c : ConnectId) (unregister : Bool) : Option Sys :=
  ((s.connects c).event.drop unregister).map fun event =>
    s.modify c fun k => { k with overlapped := .freed, event }

-- ---------------------------------------------------------------------------
-- Accepting
-- ---------------------------------------------------------------------------

/-- A client that connected and has gone makes the platform refuse every connect
until the instance is disconnected. -/
def answers (s : Sys) : Except HResult Unit → Bool
  | .error hr => hr = errorNoData ↔ s.line = .closing
  | .ok () => s.line ≠ .closing

/-- `Server::accept`, once `begin_accept` has returned. -/
def returnAccept (s : Sys) (r : Except Error Bool) : Sys :=
  let future : AcceptFuture :=
    match r with
    | .ok true => .ready
    | .ok false => .waiting
    | .error e => .failed e
  { s with future := some future, pc := .idle }.emit .began

/-- The connect that `begin_accept` submits. -/
def issue (s : Sys) (answer : Except HResult Unit) : Sys :=
  ({ s with nextConnect := s.nextConnect + 1 }.modify s.nextConnect fun _ => .new).emit
    (.issued s.nextConnect answer)

/-- `begin_accept` with nothing submitted. -/
def connect (s : Sys) (a : Answers) : Option (Sys × Except Error Bool) :=
  match a.arm with
  | some hr => some (s, .error (.ofHResult hr))
  | none =>
    if s.answers a.connect then
      let c := s.nextConnect
      let dropped := (s.issue a.connect).dropSlot c a.unregister
      match a.connect with
      | .ok () => dropped.map fun s => ({ s with accept := .connected, line := .listening }, .ok true)
      | .error hr =>
        if hr = errorIoPending then
          let pended := (s.issue a.connect).modify c fun k => { k with pended := true }
          some ({ pended with accept := .accepting c, line := .listening }, .ok false)
        else if hr = errorPipeConnected then
          dropped.map fun s => ({ s with accept := .connected, line := .listening }, .ok true)
        else
          dropped.map fun s => (s, .error (.ofHResult hr))
    else
      none

/-- `begin_accept`, up to its `collect` if it makes one. -/
def beginAccept (s : Sys) (a : Answers) : Option Sys :=
  match s.accept with
  | .connected => some (s.returnAccept (.ok true))
  | .accepting c =>
    if (s.connects c).completed then
      some { s.observe c with pc := .collecting .accept }
    else
      some (s.returnAccept (.ok false))
  | .fresh | .idle => (s.connect a).map fun (s, r) => s.returnAccept r

def collect (s : Sys) (unregister : Bool) : Option (Sys × Except Error Bool) :=
  match s.accept with
  | .accepting c =>
    let result := (s.connects c).getOverlappedResult
    let s := s.observe c
    let connected := (s.dropSlot c unregister).map fun s =>
      ({ s with accept := .connected }.emit (.collected c result), .ok true)
    match result with
    | .ok () => connected
    | .error hr =>
      if hr = errorPipeConnected then
        connected
      else if hr = errorIoIncomplete then
        some (s, .ok false)
      else
        some (s, .error (.ofHResult hr))
  | _ => some (s, .ok true)

def resolve (s : Sys) (r : Except Error Unit) : Sys :=
  { s with future := some .done, pc := .idle }.emit (.resolved r)

/-- `Accept::poll`, up to its `collect`. A future that has resolved panics. -/
def poll (s : Sys) (w : Waker) : Option Sys :=
  match s.future with
  | none | some .done => none
  | some .ready => some (s.resolve (.ok ()))
  | some (.failed e) => some (s.resolve (.error e))
  | some .waiting =>
    let s := s.emit (.polled w)
    match s.accept with
    | .accepting c =>
      let (event, signalled) := (s.connects c).event.pollSignalled w
      let s := s.setEvent c event
      some (if signalled then { s with pc := .collecting (.poll w) } else s)
    | .connected => some { s with pc := .collecting (.poll w) }
    | .fresh | .idle => some (s.resolve (.error .listening))

/-- What the caller of `collect` does with its answer. -/
def afterCollect (s : Sys) (r : Except Error Bool) : Caller → Sys
  | .accept => s.returnAccept r
  | .poll w =>
    match r with
    | .ok true => s.resolve (.ok ())
    | .ok false => { s with pc := .reparking w }
    | .error e => s.resolve (.error e)

/-- The rest of `Accept::poll` when the connect was found unfinished. -/
def repark (s : Sys) (w : Waker) : Sys :=
  match s.accept with
  | .accepting c =>
    let (event, signalled) := (s.connects c).event.pollSignalled w
    let s := { s.setEvent c event with pc := .idle }
    if signalled then s.emit (.wake w) else s
  | _ => { s with pc := .idle }

def disconnect (s : Sys) (failure : Option HResult) : Sys × Except Error Unit :=
  match s.accept with
  | .connected =>
    match failure with
    | none => ({ s with accept := .idle, line := .disconnected }.emit .disconnected, .ok ())
    | some hr => (s, .error (.ofHResult hr))
  | .fresh | .idle => (s, .error .listening)
  | .accepting _ => (s, .error .acceptOutstanding)

-- ---------------------------------------------------------------------------
-- `Drop for Server`
-- ---------------------------------------------------------------------------

def dropServer (s : Sys) : Sys :=
  match s.accept with
  | .accepting c =>
    let pc := if (s.connects c).completed then .cancelled c .located else .cancelling c
    { s.observe c with pc }
  | _ => { s with pc := .dropped }

/-- The slot forgotten, and a reference to the file with it. -/
def leakSlot (s : Sys) (c : ConnectId) : Sys :=
  { s.modify c fun k => { k with overlapped := .leaked } with
    accept := .idle
    pc := .dropped
    leakedFiles := s.leakedFiles + 1 }

def freeSlot (s : Sys) (c : ConnectId) (unregister : Bool) : Option Sys :=
  (s.dropSlot c unregister).map fun s => { s with accept := .idle, pc := .dropped }

def tearDown (s : Sys) (a : Answers) : Pc → Option Sys
  | .cancelling c =>
    let outcome := CancelOutcome.ofResult a.cancel
    some ({ s with pc := .cancelled c outcome }.emit (.cancelled c outcome))
  | .cancelled c outcome =>
    let action := teardownAction outcome (s.connects c).completed
    let s := s.observe c
    some (if action.frees then { s with pc := .releasing c } else s.leakSlot c)
  | .releasing c =>
    ((s.connects c).event.releaseRegistration a.unregister).map fun (event, release) =>
      let s := s.setEvent c event
      match releasePermitsCollect release with
      | none => { s with pc := .blocking c }
      | some _ => s.leakSlot c
  | .blocking c => some { s with pc := .returned c }
  | .returned c =>
    let action := collectFinishedIt (!(s.connects c).completed)
    let s := s.observe c
    if action.frees then s.freeSlot c a.unregister else some (s.leakSlot c)
  | _ => none

/-- The next stretch of the server's own code. -/
def advance (s : Sys) (a : Answers) : Option Sys :=
  match s.pc with
  | .collecting caller => (s.collect a.unregister).map fun (s, r) => s.afterCollect r caller
  | .reparking w => some (s.repark w)
  | pc => s.tearDown a pc

-- ---------------------------------------------------------------------------
-- The platform
-- ---------------------------------------------------------------------------

/-- A connect never finishes with the code that says it has not. -/
def complete (s : Sys) (c : ConnectId) (result : Except HResult Unit) : Option Sys :=
  if (s.connects c).outstanding ∧ result ≠ .error errorIoIncomplete then
    some ((s.modify c fun k => { k with internal := .terminal result }).emit (.completed c result))
  else
    none

def signal (s : Sys) (c : ConnectId) : Option Sys :=
  if (s.connects c).pended then some (s.setEvent c (s.connects c).event.signal) else none

/-- A client that had connected closes its end. None had while a connect is
outstanding. -/
def clientGone (s : Sys) : Option Sys :=
  if s.line = .listening ∧ ∀ c < s.nextConnect, (s.connects c).outstanding = false then
    some { s with line := .closing }
  else
    none

/-- No call is in progress and no future borrows the server. -/
def callable (s : Sys) : Bool := s.pc = .idle ∧ s.future = none

def step (s : Sys) : Action → Option Sys
  | .complete c result => s.complete c result
  | .signal c => s.signal c
  | .dispatch c => (s.connects c).event.dispatch.map (s.setEvent c)
  | .callback c => (s.connects c).callback.map fun k => s.modify c fun _ => k
  | .poolWake c w => ((s.connects c).event.wake w).map fun event => (s.setEvent c event).emit (.wake w)
  | .clientGone => s.clientGone
  | .accept a => if s.callable then s.beginAccept a else none
  | .poll w => if s.pc = .idle then s.poll w else none
  | .dropFuture => if s.pc = .idle ∧ s.future ≠ none then some { s with future := none } else none
  | .disconnect failure => if s.callable then some (s.disconnect failure).1 else none
  | .dropServer => if s.callable then some s.dropServer else none
  | .advance a => s.advance a

end Sys

def machine : Machine Sys Action where
  init s := s = .new
  step := Sys.step

theorem reachable_of_run {s : Sys} (h : machine.run .new as = some s) : machine.Reachable s :=
  Machine.Reachable.run (.init rfl) h

/-- A platform that refuses nothing, and no client there yet. -/
def Answers.willing : Answers where
  arm := none
  connect := .error errorIoPending
  cancel := .ok ()
  unregister := true

end WinIoring.Pipe
