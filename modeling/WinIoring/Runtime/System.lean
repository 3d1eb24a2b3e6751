import WinIoring.Machine.Run
import WinIoring.Runtime.Handle

/-!
# The whole system

One driver with everything that acts on it: the application and its futures, the
`drive` future or the dropped `Driver` that runs the loop, the platform, and the
pool thread behind the completion event. The driver's code is cut where caller
code or the platform can come between; what runs under one borrow with neither
is one step.
-/

namespace WinIoring.Runtime

open Slab

variable {ws : WordSize}

/-- The armed completion event. `poolWakes` are wakers a callback has taken and
not yet woken. -/
structure ArmedEvent where
  osEvent : Bool
  signalled : Bool
  waker : Option Waker
  poolWakes : List Waker

/-- Who runs the driver's loop: a poll of `drive`, or `Drop for Driver`. -/
inductive Task where
  | drive (w : Waker)
  | drop

inductive Loop where
  | pass
  | drain (steps : Nat)

/-- What follows once the collected wakers and reports have been delivered. -/
inductive Resume where
  | decide (shuttingDown retryOwed : Bool)
  | drained (steps : Nat) (outcome : StepOutcome)
  | finished

/-- Where the driver's own code stands. -/
inductive Pc where
  /-- No `drive` future exists. -/
  | idle
  /-- Reaping under the borrow. -/
  | reaping (task : Task) (loop : Loop) (wakers : List Waker)
  /-- Waking and reporting, the borrow released. -/
  | calling (task : Task) (wakers : List Waker) (reports : List Error) (resume : Resume)
  /-- `Park::poll` has recorded its waker and not yet looked at the event. -/
  | arming (w : Waker)
  /-- `Park::poll` has resolved. -/
  | disarming (w : Waker)
  | parked
  | yieldedPass
  | yieldedDrain (steps : Nat)
  /-- `close_and_release` has run and its borrow is still held. -/
  | released (task : Task) (wakers : List Waker) (reports : List Error)
  | dropped
  /-- The process aborted, or a panic is unwinding. -/
  | halted

/-- Who holds the driver's `RefCell`. -/
inductive Borrow where
  | free
  | driver
  | call
  deriving DecidableEq

structure Sys (ws : WordSize) where
  world : World ws
  event : ArmedEvent
  futures : SlotId → Option (Future ws)
  handles : List RegisteredBuf
  collections : List RegId
  /-- The `ShutdownComplete` futures that have been polled. -/
  waiters : List Nat
  observer : Bool
  pc : Pc
  borrow : Borrow
  /-- Caller code is on the stack of whoever holds the borrow. -/
  reentered : Bool

/-- The buffer of a request: an owned one, or a handle the application holds. -/
inductive BufArg where
  | owned (b : Buf)
  | handle (i : Nat)

inductive Request where
  | read (file : FileId) (buffer : BufArg) (len offset : Nat)
  | write (file : FileId) (buffer : BufArg) (len offset : Nat)
  | flush (file : FileId)
  | seqRead (file : FileId) (buffer : BufArg) (len : Nat)
  | seqWrite (file : FileId) (buffer : BufArg) (len : Nat)
  | registeredOp (target : FileTarget) (handle : Nat) (bufferOffset len fileOffset : Nat)
    (isWrite : Bool)
  | registerBuffers (buffers : List Buf)
  | registerFiles (files : List FileId)

/-- Whether the request's future records what it received in its buffer. -/
def Request.isRead : Request → Bool
  | .read .. | .seqRead .. => true
  | _ => false

/-- The file whose cursor the request's future advances. -/
def Request.sequential : Request → Option FileId
  | .seqRead file .. | .seqWrite file .. => some file
  | _ => none

inductive Action (ws : WordSize) where
  -- The platform and its pool thread.
  | execute (e : Sqe ws) (outcome : Outcome)
  | report (e : Sqe ws) (outcome : Outcome)
  | callback
  | poolWake
  -- The driver.
  | pollDrive (w : Waker) (a : Answers ws)
  | advance (a : Answers ws)
  | dropDrive
  | dropDriver (a : Answers ws)
  -- The application.
  | start (r : Request) (a : StartAnswers)
  | cancel (t : Token ws) (refusal : Option HResult)
  | poll (slot : SlotId) (w : Waker)
  | dropFuture (slot : SlotId) (refusal : Option HResult)
  | escalate (mode : ShutdownMode)
  | checkOut (collection index : Nat)
  | fill (handle len : Nat)
  | dropHandle (handle : Nat)
  | cloneCollection (collection : Nat)
  | dropCollection (collection : Nat)
  | setCursor (file : FileId) (position : Nat)
  | pollShutdown (waiter : Option Nat) (w : Waker)
  | dropShutdown (waiter : Nat)
  /-- Caller code that ran under a call's own borrow returns. -/
  | endCall

namespace Event

/-- Whether an event is caller code running under the driver's borrow. -/
def underBorrow : Event ws → Bool
  | .wake _ b | .dropWaker _ b | .observe _ b | .dropBuffer _ b => b
  | _ => false

end Event

namespace Sys

-- ---------------------------------------------------------------------------
-- Who may run
-- ---------------------------------------------------------------------------

def halt (s : Sys ws) : Sys ws := { s with pc := .halted }

/-- Whether caller code can be running: nobody holds the borrow, or whoever does
has called back. -/
def callerRuns (s : Sys ws) : Bool := s.borrow = .free ∨ s.reentered

/-- The events a stretch of code added. -/
def added (before after : World ws) : List (Event ws) :=
  after.log.take (after.log.length - before.log.length)

/-- Whether a stretch of code ran caller code under the borrow. -/
def calledBack (before after : World ws) : Bool := (added before after).any Event.underBorrow

/-- A call that borrows the driver: a panic if the borrow is held. -/
def call (s : Sys ws) (k : World ws → World ws) : Sys ws :=
  if s.borrow = .free then
    let world := k s.world
    let back := calledBack s.world world
    { s with world, borrow := if back then .call else .free, reentered := back }
  else
    s.halt

-- ---------------------------------------------------------------------------
-- The driver's loop
-- ---------------------------------------------------------------------------

/-- The driver's code takes or keeps the borrow and runs to a point where the
platform or caller code can act. -/
def driverStep (s : Sys ws) (world : World ws) (pc : Pc) : Sys ws :=
  { s with world, pc, borrow := .driver, reentered := calledBack s.world world }

/-- The driver's code runs with the borrow released. -/
def freeStep (s : Sys ws) (world : World ws) (pc : Pc) : Sys ws :=
  { s with world, pc, borrow := .free, reentered := false }

def beginPass (s : Sys ws) (w : Waker) (a : Answers ws) : Sys ws :=
  s.driverStep (s.world.setInner (s.world.inner.submitPending a)) (.reaping (.drive w) .pass [])

/-- A turn of either teardown loop. Only the `drive` one asks whether teardown
has already finished. -/
def beginDrain (s : Sys ws) (task : Task) (steps : Nat) (a : Answers ws) : Sys ws :=
  match task, s.world.inner.tornDown with
  | .drive _, true => s.freeStep s.world .idle
  | _, _ =>
    let (world, wakers) := s.world.drainBegin a
    s.driverStep world (.reaping task (.drain steps) wakers)

/-- The end of a stretch of reaping: what it established, with the borrow
released. -/
def endReaping (s : Sys ws) (task : Task) (loop : Loop) (wakers : List Waker) : Sys ws :=
  match loop with
  | .pass =>
    let (inner, reports) := s.world.inner.takeReports
    s.freeStep (s.world.setInner inner)
      (.calling task wakers reports (.decide (inner.shutdown ≠ .running) inner.pendingSubmit))
  | .drain steps =>
    let steps := min (steps + 1) u32Max
    let (inner, reports) := (s.world.inner.reportSlowDrain steps).takeReports
    s.freeStep (s.world.setInner inner)
      (.calling task wakers reports (.drained steps s.world.drainOutcome))

/-- Drops a waker the driver has let go of, outside any borrow. -/
def dropWakers (w : World ws) (wakers : List Waker) : World ws :=
  w.emitAll (wakers.map (.dropWaker · false))

/-- `Park::poll`, up to the armed event. -/
def parkPoll (s : Sys ws) (w : Waker) : Sys ws :=
  let inner := s.world.inner
  let evicted := inner.driverWaker.toList
  if inner.nudged then
    let world := s.world.setInner { inner with nudged := false, driverWaker := none }
    { s with event := { s.event with waker := none } }.freeStep
      (dropWakers world (evicted ++ s.event.waker.toList)) (.disarming w)
  else
    s.freeStep (dropWakers (s.world.setInner { inner with driverWaker := some w }) evicted) (.arming w)

/-- `poll_signalled`, and what `Park::poll` does with its answer. -/
def pollSignalled (s : Sys ws) (w : Waker) : Sys ws :=
  let stored := s.event.waker.toList
  if s.event.signalled then
    let evicted := s.world.inner.driverWaker.toList
    let world := s.world.setInner { s.world.inner with driverWaker := none }
    { s with event := { s.event with signalled := false, waker := none } }.freeStep
      (dropWakers world (stored ++ evicted)) (.disarming w)
  else
    { s with event := { s.event with waker := some w } }.freeStep (dropWakers s.world stored) .parked

/-- `Drop for Park`. -/
def dropPark (s : Sys ws) : Sys ws :=
  let world := s.world.setInner { s.world.inner with driverWaker := none }
  { s with
    event := { s.event with waker := none }
    world := dropWakers world (s.world.inner.driverWaker.toList ++ s.event.waker.toList) }

/-- `YieldNow`: the task wakes itself and suspends. -/
def yieldNow (s : Sys ws) (w : Waker) (pc : Pc) : Sys ws :=
  s.freeStep (s.world.emit (.wake w false)) pc

/-- `close_and_release`, whose borrow is still held afterwards. -/
def closing (s : Sys ws) (task : Task) (a : Answers ws) : Sys ws :=
  match s.world.closeAndRelease a.closeFails with
  | none => s.halt
  | some (world, wakers) =>
    let (inner, reports) := world.inner.takeReports
    s.driverStep (world.setInner inner) (.released task wakers reports)

def resume (s : Sys ws) (task : Task) (a : Answers ws) : Resume → Sys ws
  | .decide shuttingDown retryOwed =>
    match task with
    | .drop => s.beginDrain task 0 a
    | .drive w =>
      if shuttingDown then
        s.beginDrain task 0 a
      else if retryOwed then
        s.yieldNow w .yieldedPass
      else
        s.parkPoll w
  | .drained steps .progressing =>
    match task with
    | .drop => s.beginDrain task steps a
    | .drive w => s.yieldNow w (.yieldedDrain steps)
  | .drained _ _ => s.closing task a
  | .finished =>
    match task with
    | .drop => s.freeStep s.world .dropped
    | .drive _ => s.freeStep s.world .idle

/-- The next stretch of the driver's own code. -/
def advance (s : Sys ws) (a : Answers ws) : Option (Sys ws) :=
  match s.pc with
  | .reaping task loop wakers =>
    match s.world.reapOne a.pop with
    | (world, some more) => some (s.driverStep world (.reaping task loop (wakers ++ more)))
    | (world, none) => some ({ s with world }.endReaping task loop wakers)
  | .calling task (w :: rest) reports next =>
    some (s.freeStep (s.world.emit (.wake w false)) (.calling task rest reports next))
  | .calling task [] (e :: rest) next =>
    let world := if s.observer then s.world.emit (.observe e false) else s.world
    some (s.freeStep world (.calling task [] rest next))
  | .calling task [] [] next => some (s.resume task a next)
  | .arming w => some (s.pollSignalled w)
  | .disarming w => some (s.dropPark.beginPass w a)
  | .released task wakers reports => some (s.freeStep s.world (.calling task wakers reports .finished))
  | _ => none

/-- A poll of the `drive` future, or of a new one. -/
def pollDrive (s : Sys ws) (w : Waker) (a : Answers ws) : Option (Sys ws) :=
  match s.pc with
  | .idle | .yieldedPass => some (s.beginPass w a)
  | .yieldedDrain steps => some (s.beginDrain (.drive w) steps a)
  | .parked => some (s.parkPoll w)
  | _ => none

def dropDrive (s : Sys ws) : Option (Sys ws) :=
  match s.pc with
  | .yieldedPass | .yieldedDrain _ => some { s with pc := .idle }
  | .parked => some { s.dropPark with pc := .idle }
  | _ => none

/-- `Drop for Driver`, which escalates before it drains. -/
def dropDriver (s : Sys ws) (a : Answers ws) : Option (Sys ws) :=
  match s.pc with
  | .idle =>
    if s.world.inner.tornDown then
      some { s with pc := .dropped }
    else
      let shutdown := s.world.inner.shutdown.max .immediate
      some ({ s with world := s.world.setInner { s.world.inner with shutdown } }.beginDrain .drop 0 a)
  | _ => none

-- ---------------------------------------------------------------------------
-- The platform and the pool thread
-- ---------------------------------------------------------------------------

def setRing (s : Sys ws) (ring : IoRing ws) : Sys ws :=
  { s with world := s.world.setInner { s.world.inner with ring } }

def execute (s : Sys ws) (e : Sqe ws) (outcome : Outcome) : Option (Sys ws) :=
  let ring := s.world.inner.ring
  (ring.execute e outcome).map fun ring' =>
    let s := s.setRing ring'
    let event := .executed e outcome ring.filesInForce ring.buffersInForce
    { s with world := s.world.emit event }

/-- A report signals the completion event when the completion queue was empty. -/
def report (s : Sys ws) (e : Sqe ws) (outcome : Outcome) : Option (Sys ws) :=
  let ring := s.world.inner.ring
  (ring.report e outcome).map fun ring' =>
    let s := s.setRing ring'
    { s with
      world := s.world.emit (.reported { userData := e.userData, outcome })
      event := { s.event with osEvent := s.event.osEvent || ring.completions.isEmpty } }

/-- `armed_callback`, up to its wake. -/
def callback (s : Sys ws) : Option (Sys ws) :=
  if s.event.osEvent then
    some { s with event := {
      osEvent := false
      signalled := true
      waker := none
      poolWakes := s.event.poolWakes ++ s.event.waker.toList } }
  else
    none

def poolWake (s : Sys ws) : Option (Sys ws) :=
  match s.event.poolWakes with
  | [] => none
  | w :: rest =>
    some { s with
      event := { s.event with poolWakes := rest }
      world := s.world.emit (.wake w false) }

-- ---------------------------------------------------------------------------
-- The application
-- ---------------------------------------------------------------------------

def bufArg (s : Sys ws) : BufArg → Option Buffer
  | .owned b => some (.owned b)
  | .handle i => s.handles[i]?.map .handle

/-- The handles left once a request has taken its buffer. -/
def keepHandles (s : Sys ws) : BufArg → List RegisteredBuf
  | .owned _ => s.handles
  | .handle i => s.handles.eraseIdx i

/-- A request's result on the file surface, whose errors the driver's are among. -/
def onFile (r : World ws × Except (Rejection Error) (Token ws)) :
    World ws × Except (Rejection FileError) (Token ws) :=
  (r.1, r.2.mapError fun rejection => (.driver rejection.1, rejection.2))

/-- What an entry point makes of a request, and the handles it leaves with the
application. Nothing, if the request names a handle there is not. -/
def issue (s : Sys ws) (r : Request) (a : StartAnswers) :
    Option ((World ws × Except (Rejection FileError) (Token ws)) × List RegisteredBuf) :=
  let w := s.world
  match r with
  | .read file arg len offset =>
    (s.bufArg arg).map fun b => (onFile (w.tryRead file b len offset none a), s.keepHandles arg)
  | .write file arg len offset =>
    (s.bufArg arg).map fun b => (onFile (w.tryWrite file b len offset none a), s.keepHandles arg)
  | .flush file => some (onFile (w.tryFlush file a), s.handles)
  | .seqRead file arg len =>
    (s.bufArg arg).map fun b => (w.fileRead file b len a, s.keepHandles arg)
  | .seqWrite file arg len =>
    (s.bufArg arg).map fun b => (w.fileWrite file b len a, s.keepHandles arg)
  | .registeredOp target i bufferOffset len fileOffset isWrite =>
    s.handles[i]?.map fun h =>
      (onFile (w.tryRegisteredOp target h bufferOffset len fileOffset isWrite a),
        s.handles.eraseIdx i)
  | .registerBuffers buffers => some (onFile (w.startRegisterBuffers buffers a), s.handles)
  | .registerFiles files => some (onFile (w.startRegisterFiles files a), s.handles)

/-- An accepted request leaves the application a future in place of the handle it
moved in. A rejected one gives the handle back. -/
def start (s : Sys ws) (r : Request) (a : StartAnswers) : Option (Sys ws) :=
  (s.issue r a).map fun
    | ((world, .error (_, given)), handles) =>
      { s with world, handles := given.filterMap Buffer.handle? ++ handles }
    | ((world, .ok token), handles) =>
      let future := { token, isRead := r.isRead, sequential := r.sequential }
      { s with
        world
        handles
        futures := Function.update s.futures s.world.nextSlot (some future) }

/-- What a resolved future gives the application to hold. -/
def receive (s : Sys ws) : Option Boxed → Sys ws
  | some (.buffer (.handle h)) => { s with handles := s.handles ++ [h] }
  | some (.collection r) => { s with collections := s.collections ++ [r] }
  | _ => s

theorem receive_eq (s : Sys ws) (boxed : Option Boxed) :
    ∃ handles collections, s.receive boxed = { s with handles, collections } := by
  unfold receive
  split
  · exact ⟨_, _, rfl⟩
  · exact ⟨_, _, rfl⟩
  · exact ⟨_, _, rfl⟩

@[simp] theorem receive_world (s : Sys ws) (boxed : Option Boxed) :
    (s.receive boxed).world = s.world := by
  obtain ⟨_, _, h⟩ := s.receive_eq boxed
  rw [h]

@[simp] theorem receive_pc (s : Sys ws) (boxed : Option Boxed) : (s.receive boxed).pc = s.pc := by
  obtain ⟨_, _, h⟩ := s.receive_eq boxed
  rw [h]

@[simp] theorem receive_futures (s : Sys ws) (boxed : Option Boxed) :
    (s.receive boxed).futures = s.futures := by
  obtain ⟨_, _, h⟩ := s.receive_eq boxed
  rw [h]

def held (s : Sys ws) : Bool := s.borrow ≠ .free

def poll (s : Sys ws) (σ : SlotId) (w : Waker) : Option (Sys ws) :=
  (s.futures σ).map fun future =>
    match (s.world.results σ).completed with
    | none => { s with world := s.world.pollPending σ w s.held }
    | some completed =>
      let (world, boxed) := s.world.deliver σ future completed
      { s with world, futures := Function.update s.futures σ none }.receive boxed

/-- A future dropped. Its `Drop` reaches the driver only if nobody holds the
borrow. -/
def dropFuture (s : Sys ws) (σ : SlotId) (refusal : Option HResult) : Option (Sys ws) :=
  (s.futures σ).map fun future =>
    let s := { s with futures := Function.update s.futures σ none }
    if s.borrow = .free then
      s.call fun w => ((w.detachFuture future.token refusal).emit (.futureDropped σ true)).dropFutureRef
        σ false
    else
      { s with world := (s.world.emit (.futureDropped σ false)).dropFutureRef σ true }

def checkOut (s : Sys ws) (collection index : Nat) : Option (Sys ws) :=
  s.collections[collection]?.map fun r =>
    if s.borrow = .free then
      match s.world.checkOut r index with
      | (world, .ok h) => { s with world, handles := s.handles ++ [h] }
      | (world, .error _) => { s with world }
    else
      s.halt

/-- `RegisteredBuf::fill`. -/
def fill (s : Sys ws) (i len : Nat) : Option (Sys ws) :=
  s.handles[i]?.map fun h =>
    if len > h.extent then
      s
    else
      let registry := (s.world.registries h.registry).setInitialized h.index len
      { s with
        world := (s.world.setRegistry h.registry registry).emit (.copied h.registry h.index len)
        handles := s.handles.set i { h with initialized := len } }

def dropHandle (s : Sys ws) (i : Nat) : Option (Sys ws) :=
  s.handles[i]?.map fun h =>
    { s with world := s.world.dropHandle h s.held, handles := s.handles.eraseIdx i }

def cloneCollection (s : Sys ws) (i : Nat) : Option (Sys ws) :=
  s.collections[i]?.map fun r =>
    let registry := s.world.registries r
    { s with
      world := s.world.setRegistry r { registry with strong := registry.strong + 1 }
      collections := s.collections ++ [r] }

def dropCollection (s : Sys ws) (i : Nat) : Option (Sys ws) :=
  s.collections[i]?.map fun r =>
    { s with world := s.world.dropRegistryRef r s.held, collections := s.collections.eraseIdx i }

def pollShutdown (s : Sys ws) (waiter : Option Nat) (w : Waker) : Option (Sys ws) :=
  if s.borrow ≠ .free then
    some s.halt
  else if s.world.inner.tornDown then
    some s
  else
    match waiter with
    | none =>
      let (world, id) := s.world.pollShutdownFirst w
      some { s with world, waiters := s.waiters ++ [id] }
    | some id => if id ∈ s.waiters then some (s.call (·.pollShutdownAgain id w)) else none

def dropShutdown (s : Sys ws) (id : Nat) : Option (Sys ws) :=
  if id ∈ s.waiters then
    let s := { s with waiters := s.waiters.erase id }
    if s.borrow = .free then some (s.call (·.dropShutdown id)) else some s
  else
    none

/-- An application action, if caller code can be running. -/
def applicationStep (s : Sys ws) : Action ws → Option (Sys ws)
  | .start r a => if s.borrow = .free then s.start r a else some s.halt
  | .cancel t refusal =>
    if t.kind = .operation then some (s.call (·.cancel t refusal)) else none
  | .poll σ w => s.poll σ w
  | .dropFuture σ refusal => s.dropFuture σ refusal
  | .escalate mode => some (s.call (·.escalate mode))
  | .checkOut collection index => s.checkOut collection index
  | .fill i len => s.fill i len
  | .dropHandle i => s.dropHandle i
  | .cloneCollection i => s.cloneCollection i
  | .dropCollection i => s.dropCollection i
  | .setCursor file position => some { s with world := s.world.setCursor file position }
  | .pollShutdown waiter w => s.pollShutdown waiter w
  | .dropShutdown id => s.dropShutdown id
  | .pollDrive w a => if s.borrow = .free then s.pollDrive w a else none
  | .dropDrive => if s.borrow = .free then s.dropDrive else none
  | .dropDriver a => if s.borrow = .free then s.dropDriver a else none
  | _ => none

def step (s : Sys ws) (action : Action ws) : Option (Sys ws) :=
  match s.pc with
  | .halted => none
  | _ =>
    match action with
    | .execute e outcome => s.execute e outcome
    | .report e outcome => s.report e outcome
    | .callback => s.callback
    | .poolWake => s.poolWake
    | .advance a => if s.borrow = .call then none else s.advance a
    | .endCall =>
      if s.borrow = .call then some { s with borrow := .free, reentered := false } else none
    | action => if s.callerRuns then s.applicationStep action else none

/-- A new driver over a new ring, with nothing started. -/
structure Initial (s : Sys ws) : Prop where
  inner : s.world.inner = .new .create
  results : ∀ σ, s.futures σ = none
  nextSlot : s.world.nextSlot = 0
  nextRegistry : s.world.nextRegistry = 0
  files : ∀ f, (s.world.files f).sequentialOutstanding = false
  handles : s.handles = []
  collections : s.collections = []
  waiters : s.waiters = []
  event : s.event = { osEvent := false, signalled := false, waker := none, poolWakes := [] }
  pc : s.pc = .idle
  borrow : s.borrow = .free
  reentered : s.reentered = false
  log : s.world.log = []

/-- `Driver::new` over a process that has no files open. -/
def new : Sys ws where
  world :=
    { inner := .new .create
      results := fun _ => .new
      nextSlot := 0
      registries := fun _ => .new [] [] [] [] []
      nextRegistry := 0
      files := fun _ => { cursor := 0, sequentialOutstanding := false, fileType := none }
      log := [] }
  event := { osEvent := false, signalled := false, waker := none, poolWakes := [] }
  futures _ := none
  handles := []
  collections := []
  waiters := []
  observer := false
  pc := .idle
  borrow := .free
  reentered := false

theorem new_initial : (new : Sys ws).Initial := by
  constructor <;> first | rfl | exact fun _ => rfl

end Sys

def systemMachine (ws : WordSize) : Machine (Sys ws) (Action ws) where
  init := Sys.Initial
  step := Sys.step

/-- A platform that refuses nothing. -/
def Answers.willing : Answers ws where
  submit := none
  deferredCancel _ := none
  detachedCancel _ := none
  drainCancel _ := none
  wait := { failure := none, taken := fun _ => true }
  pop := none
  closeFails := 0

def StartAnswers.willing : StartAnswers where
  supported _ := true
  refusal := none
  fileType := 1

theorem reachable_of_run {s : Sys ws} (h : (systemMachine ws).run .new as = some s) :
    (systemMachine ws).Reachable s :=
  Machine.Reachable.run (.init Sys.new_initial) h

end WinIoring.Runtime
