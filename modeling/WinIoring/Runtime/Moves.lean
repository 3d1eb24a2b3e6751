import WinIoring.Runtime.System
import WinIoring.Runtime.Ledger

/-!
# Moves

One step of the system is a stretch of code: it cancels many operations, or
submits and then cancels. A move is the part of a stretch that changes one thing
the invariants speak of. Everything else a stretch does is quiet.
-/

namespace WinIoring.Runtime

open Slab

variable {ws : WordSize}

/-- The events that say what became of an operation. The others are caller code
being run. -/
def Event.traced : Event ws → Bool
  | .wake .. | .dropWaker .. | .observe .. | .dropBuffer .. => false
  | _ => true

def World.trace (w : World ws) : List (Event ws) := w.log.filter Event.traced

namespace Pc

/-- Where the code is bound to tear down: the mode was read and is not
running. -/
def draining : Pc → Bool
  | .reaping .drop _ _ | .reaping _ (.drain _) _ => true
  | .calling .drop _ _ _ | .calling _ _ _ (.drained ..) | .calling _ _ _ (.decide true _) => true
  | .yieldedDrain _ | .released .. => true
  | _ => false

/-- Where the last drain step is behind and the close ahead, caller code
between them. -/
def sealed : Pc → Bool
  | .calling _ _ _ (.drained _ outcome) => outcome ≠ .progressing
  | _ => false

theorem draining_of_sealed {pc : Pc} (h : pc.sealed) : pc.draining := by
  unfold sealed at h
  split at h
  · rename_i task _ _ _ _
    cases task <;> rfl
  · cases h

theorem draining_calling (task : Task) (next : Resume) (wakers wakers' : List Waker)
    (reports reports' : List Error) :
    (calling task wakers reports next).draining = (calling task wakers' reports' next).draining := by
  cases task with
  | drop => rfl
  | drive w =>
    cases next with
    | decide shuttingDown _ => cases shuttingDown <;> rfl
    | _ => rfl

theorem sealed_calling (task : Task) (next : Resume) (wakers wakers' : List Waker)
    (reports reports' : List Error) :
    (calling task wakers reports next).sealed = (calling task wakers' reports' next).sealed := by
  cases next <;> rfl

end Pc

-- ---------------------------------------------------------------------------
-- Quiet code
-- ---------------------------------------------------------------------------

structure DriverInner.Same (d d' : DriverInner ws) : Prop where
  slab : d'.slab = d.slab
  ring : d'.ring = d.ring
  pendingSubmit : d'.pendingSubmit = d.pendingSubmit
  tornDown : d'.tornDown = d.tornDown
  shutdown : d'.shutdown = d.shutdown
  bufferRegistration : d'.bufferRegistration = d.bufferRegistration
  retiredBufferRegistrations : d'.retiredBufferRegistrations = d.retiredBufferRegistrations
  registrationInFlight : d'.registrationInFlight = d.registrationInFlight
  fileRegistration : d'.fileRegistration = d.fileRegistration
  retiredFileRegistrations : d'.retiredFileRegistrations = d.retiredFileRegistrations
  cancelHolds : d'.cancelHolds = d.cancelHolds
  deferredCancels : d'.deferredCancels = d.deferredCancels
  submitFailures : d'.submitFailures = d.submitFailures
  submissions : d'.submissions = d.submissions

theorem DriverInner.Same.refl (d : DriverInner ws) : d.Same d := by
  constructor <;> rfl

theorem DriverInner.Same.trans {d d' d'' : DriverInner ws} (h : d.Same d') (h' : d'.Same d'') :
    d.Same d'' where
  slab := h'.slab.trans h.slab
  ring := h'.ring.trans h.ring
  pendingSubmit := h'.pendingSubmit.trans h.pendingSubmit
  tornDown := h'.tornDown.trans h.tornDown
  shutdown := h'.shutdown.trans h.shutdown
  bufferRegistration := h'.bufferRegistration.trans h.bufferRegistration
  retiredBufferRegistrations :=
    h'.retiredBufferRegistrations.trans h.retiredBufferRegistrations
  registrationInFlight := h'.registrationInFlight.trans h.registrationInFlight
  fileRegistration := h'.fileRegistration.trans h.fileRegistration
  retiredFileRegistrations := h'.retiredFileRegistrations.trans h.retiredFileRegistrations
  cancelHolds := h'.cancelHolds.trans h.cancelHolds
  deferredCancels := h'.deferredCancels.trans h.deferredCancels
  submitFailures := h'.submitFailures.trans h.submitFailures
  submissions := h'.submissions.trans h.submissions

/-- All of a registration but its reference count. -/
def RegistryInner.marks (r : RegistryInner) :
    List Buf × List Nat × List RegistrySlot × List BufferInfo :=
  (r.buffers, r.pointers, r.slots, r.descriptors)

structure World.Same (w w' : World ws) : Prop where
  inner : w.inner.Same w'.inner
  results : w'.results = w.results
  nextSlot : w'.nextSlot = w.nextSlot
  marks : ∀ r, (w'.registries r).marks = (w.registries r).marks
  nextRegistry : w'.nextRegistry = w.nextRegistry
  files : w'.files = w.files
  trace : w'.trace = w.trace

theorem World.Same.refl (w : World ws) : w.Same w where
  inner := .refl _
  results := rfl
  nextSlot := rfl
  marks _ := rfl
  nextRegistry := rfl
  files := rfl
  trace := rfl

theorem World.Same.trans {w w' w'' : World ws} (h : w.Same w') (h' : w'.Same w'') : w.Same w'' where
  inner := h.inner.trans h'.inner
  results := h'.results.trans h.results
  nextSlot := h'.nextSlot.trans h.nextSlot
  marks r := (h'.marks r).trans (h.marks r)
  nextRegistry := h'.nextRegistry.trans h.nextRegistry
  files := h'.files.trans h.files
  trace := h'.trace.trans h.trace

structure Quiet (s s' : Sys ws) : Prop where
  world : s.world.Same s'.world
  futures : s'.futures = s.futures
  handles : s'.handles = s.handles
  draining : s'.pc.draining → s.pc.draining ∨ s.world.inner.shutdown ≠ .running
  sealed : s'.pc.sealed → s.pc.sealed ∨ s.world.inner.slab.awaitingKernel = 0

-- ---------------------------------------------------------------------------
-- Starting an operation
-- ---------------------------------------------------------------------------

/-- What an entry point has checked of a payload it places. -/
structure Admitted (w : World ws) (p : OpPayload) : Prop where
  running : w.inner.shutdown = .running
  slot : p.slot = w.nextSlot
  registeredFile : ∀ i, p.registeredFile = some i → p.file = none ∧
    w.inner.checkRegisteredFile i = .ok ()
  registeredBuffer : ∀ i offset, p.registeredBuffer = some (i, offset) →
    ∃ h, p.buffer = some (.handle h) ∧ h.index = i ∧ w.inner.bufferRegistration = some h.registry
  registration : ∀ pending, p.pendingRegistration = some pending →
    p.buffer = none ∧ p.file = none ∧ p.registeredBuffer = none ∧ p.registeredFile = none ∧
      p.sequential = none
  replacing : ∀ buffers pointers extents watermarks descriptors,
    p.pendingRegistration = some (.buffers buffers pointers extents watermarks descriptors) →
    w.inner.registrationInFlight = false ∧
    (w.inner.bufferRegistration.bind fun r => (w.registries r).anyCheckedOut) = none
  watermarks : ∀ buffers pointers extents watermarks descriptors,
    p.pendingRegistration = some (.buffers buffers pointers extents watermarks descriptors) →
    watermarks = buffers.map fun b => min b.len b.registeredExtent
  sequential : ∀ f, p.sequential = some f → (w.files f).sequentialOutstanding = false

/-- Where in its buffer an operation's transfer begins. -/
def OpPayload.start (p : OpPayload) : Nat := (p.registeredBuffer.map (·.2)).getD 0

/-- What an entry point has checked of the range it transfers. An entry that
transfers nothing carries no buffer. -/
def RangeChecked (w : World ws) (p : OpPayload) : SqeOp ws → Prop
  | .read _ _ len _ => InRange len false
  | .write _ _ len _ => InRange len true
  | _ => p.buffer = none
where
  InRange (len : Nat) (isWrite : Bool) : Prop :=
    match p.registeredBuffer with
    | some (index, offset) => w.checkRegisteredBuffer index offset len isWrite = .ok ()
    | none => ∀ b, p.buffer = some b → len ≤ if isWrite then b.len else b.capacity

def OpPayload.handle (p : OpPayload) : Option RegisteredBuf := p.buffer.bind Buffer.handle?

def OpPayload.registersBuffers (p : OpPayload) : Bool :=
  p.pendingRegistration.any PendingRegistration.isBuffers

/-- The files a payload would register. -/
def OpPayload.newFiles (p : OpPayload) : Option (List FileId) :=
  match p.pendingRegistration with
  | some (.files files) => some files
  | _ => none

def Request.newFiles : Request → Option (List FileId)
  | .registerFiles files => some files
  | _ => none

def Request.registeredFile : Request → Option Nat
  | .registeredOp target .. => target.index
  | _ => none

/-- How a payload reflects the request it was made for. -/
structure Request.Made (r : Request) (p : OpPayload) : Prop where
  newFiles : p.newFiles = r.newFiles
  registeredFile : p.registeredFile = r.registeredFile
  sequential : p.sequential = r.sequential
  isRead : r.isRead = true → p.registeredBuffer = none

/-- A request the driver took: `e` is its entry and `f` the future it gave. -/
structure Accepted (s s' : Sys ws) (t : Token ws) (p : OpPayload) (e : Sqe ws) (f : Future ws) :
    Prop where
  admitted : Admitted s.world p
  kind : t.kind = .operation
  generation : firstGeneration ≤ t.generation
  unissued : ¬ s.world.inner.slab.Issued t.key
  cell : s'.world.inner.slab.cell = Function.update s.world.inner.slab.cell t.key
    (some (.live { lifecycle := .built, observer := .live, payload := p, cancel := .neverRequested }))
  issued : ∀ k, s'.world.inner.slab.Issued k ↔ s.world.inner.slab.Issued k ∨ k = t.key
  userData : e.userData = t.asUserData
  backs : Backs p e.op
  range : RangeChecked s.world p e.op
  isOpen : s.world.inner.ring.closed = false
  ring : s'.world.inner.ring = s.world.inner.ring.push e
  pendingSubmit : s'.world.inner.pendingSubmit = true
  tornDown : s'.world.inner.tornDown = s.world.inner.tornDown
  shutdown : s'.world.inner.shutdown = s.world.inner.shutdown
  bufferRegistration : s'.world.inner.bufferRegistration = s.world.inner.bufferRegistration
  registrationInFlight : s'.world.inner.registrationInFlight =
    (s.world.inner.registrationInFlight || p.registersBuffers)
  retiredBufferRegistrations :
    s'.world.inner.retiredBufferRegistrations = s.world.inner.retiredBufferRegistrations
  fileRegistration : s'.world.inner.fileRegistration = s.world.inner.fileRegistration
  retiredFileRegistrations :
    s'.world.inner.retiredFileRegistrations = s.world.inner.retiredFileRegistrations
  cancelHolds : s'.world.inner.cancelHolds = s.world.inner.cancelHolds
  deferredCancels : s'.world.inner.deferredCancels = s.world.inner.deferredCancels
  submitFailures : s'.world.inner.submitFailures = s.world.inner.submitFailures
  submissions : s'.world.inner.submissions = s.world.inner.submissions
  results : s'.world.results = Function.update s.world.results s.world.nextSlot .new
  nextSlot : s'.world.nextSlot = s.world.nextSlot + 1
  registries : s'.world.registries = s.world.registries
  nextRegistry : s'.world.nextRegistry = s.world.nextRegistry
  files : ∀ g, (s'.world.files g).cursor = (s.world.files g).cursor ∧
    (s'.world.files g).sequentialOutstanding =
      ((s.world.files g).sequentialOutstanding || p.sequential = some g)
  token : f.token = t
  sequential : f.sequential = p.sequential
  isRead : f.isRead = true → p.registeredBuffer = none
  futures : s'.futures = Function.update s.futures s.world.nextSlot (some f)
  handles : s.handles.Perm (p.handle.toList ++ s'.handles)
  pc : s'.pc = s.pc
  trace : s'.world.trace =
    p.sequential.toList.map (fun g => .seqStarted g s.world.nextSlot (s.world.files g).cursor) ++
      .accepted t p s.world.inner.fileRegistration :: s.world.trace

-- ---------------------------------------------------------------------------
-- The moves
-- ---------------------------------------------------------------------------

namespace Sys

def withInner (s : Sys ws) (d : DriverInner ws) : Sys ws := { s with world := s.world.setInner d }

def withWorld (s : Sys ws) (w : World ws) : Sys ws := { s with world := w }

end Sys

/-- The flag is up in code that may reap. -/
inductive Move : Bool → Sys ws → Sys ws → Prop
  | quiet (h : Quiet s s') : Move b s s'
  | escalated (h : s.world.inner.shutdown.rank < mode.rank) :
    Move b s (s.withInner { s.world.inner with shutdown := mode })
  | executed (h : s.world.inner.ring.execute e outcome = some ring) :
    Move b s (s.withWorld ((s.world.setInner { s.world.inner with ring }).emit
      (.executed e outcome s.world.inner.ring.filesInForce s.world.inner.ring.buffersInForce)))
  | reported (h : s.world.inner.ring.report e outcome = some ring) :
    Move b s (s.withWorld ((s.world.setInner { s.world.inner with ring }).emit
      (.reported { userData := e.userData, outcome })))
  /-- A request that left nothing behind but a spent slot generation. -/
  | refused (hcell : slab.cell = s.world.inner.slab.cell)
      (hissued : ∀ k, s.world.inner.slab.Issued k → slab.Issued k)
      (hfiles : ∀ f, (files f).cursor = (s.world.files f).cursor ∧
        (files f).sequentialOutstanding = (s.world.files f).sequentialOutstanding)
      (hhandles : handles.Perm s.handles) :
    Move b s { s with
      world := { s.world with inner := { s.world.inner with slab }, files }
      handles }
  | cancelled (htorn : s.world.inner.tornDown = false) (hopen : s.world.inner.ring.closed = false)
      (hkind : t.kind = .operation)
      (hcell : s.world.inner.slab.cell t.key = some (.live op)) (hlife : op.lifecycle = .submitted)
      (hcancel : op.cancel = .neverRequested) (htarget : op.payload.cancelTarget = some target)
      (hnonzero : t.asUserData ≠ 0) :
    Move b s (s.withInner { s.world.inner with
      slab := (s.world.inner.slab.registerCancel t).1
      ring := s.world.inner.ring.push
        ⟨.cancel target.handle t.asUserData, t.toCancel.asUserData⟩
      pendingSubmit := true
      cancelHolds := s.world.inner.cancelHolds ++ target.hold t.toCancel })
  /-- The ring refused a cancellation. -/
  | retracted {t : Token ws} (hkind : t.kind = .operation)
      (hcell : s.world.inner.slab.cell t.key = some (.live op))
      (hcancel : op.cancel = .neverRequested) :
    Move b s (s.withInner { s.world.inner with
      cancelHolds := s.world.inner.cancelHolds.filter fun hold => hold.1 ≠ t.toCancel })
  | submitted (hsealed : s.pc.sealed = false) (hopen : s.world.inner.ring.closed = false)
      (h : IoRing.Submitted s.world.inner.ring ring fun _ => true) :
    Move b s (s.withInner { s.world.inner with
      slab := s.world.inner.slab.promoteBuiltToSubmitted
      ring
      pendingSubmit := false
      submitFailures := 0
      submissions := s.world.inner.submissions + 1 })
  | faltered (hpending : s.world.inner.pendingSubmit = true) :
    Move b s (s.withInner { s.world.inner with submitFailures })
  /-- A cancellation waits for its operation to be submitted. -/
  | deferred {t : Token ws} (hcell : s.world.inner.slab.cell t.key = some (.live op))
      (hlife : op.lifecycle ≠ .submitted) :
    Move b s (s.withInner { s.world.inner with deferredCancels := s.world.inner.deferredCancels ++ [t] })
  /-- The deferred cancellations are gone through, with nothing built. -/
  | recalled (hbuilt : ∀ k op, s.world.inner.slab.cell k = some (.live op) → op.lifecycle ≠ .built) :
    Move b s (s.withInner { s.world.inner with deferredCancels := [] })
  /-- The drain waited, with nothing built. -/
  | waited (hsealed : s.pc.sealed = false) (hopen : s.world.inner.ring.closed = false)
      (hbuilt : ∀ k op, s.world.inner.slab.cell k = some (.live op) → op.lifecycle ≠ .built)
      (h : IoRing.Submitted s.world.inner.ring ring taken) :
    Move b s (s.withInner { s.world.inner with ring })
  | reapedCancel (hsealed : s.pc.sealed = false)
      (hring : s.world.inner.ring.completions = cqe :: rest) (hkind : cqe.token.kind = .cancel) :
    Move true s (s.withInner { s.world.inner with
      slab := (s.world.inner.slab.completeCancel cqe.token).1
      ring := { s.world.inner.ring with completions := rest }
      cancelHolds := s.world.inner.cancelHolds.filter fun hold => hold.1 ≠ cqe.token })
  | reapedStray (hsealed : s.pc.sealed = false)
      (hring : s.world.inner.ring.completions = cqe :: rest) (hkind : cqe.token.kind = .operation)
      (hcell : ∀ op, s.world.inner.slab.cell cqe.token.key ≠ some (.live op)) :
    Move true s (s.withInner { s.world.inner with
      ring := { s.world.inner.ring with completions := rest } })
  | resolved (hsealed : s.pc.sealed = false)
      (hring : s.world.inner.ring.completions = cqe :: rest) (hkind : cqe.token.kind = .operation)
      (hcell : s.world.inner.slab.cell cqe.token.key = some (.live op)) :
    Move true s (s.withWorld ((s.world.setInner { s.world.inner with
      slab := (s.world.inner.slab.complete cqe.token).1
      ring := { s.world.inner.ring with completions := rest } }).resolveCompletion op.payload cqe).1)
  | released (hsealed : s.pc.sealed = true) (hclosed : ring = { s.world.inner.ring with closed := true }) :
    Move b s (s.withWorld (s.world.setInner { s.world.inner with ring }).release.1)
  | detached (t : Token ws) :
    Move b s (s.withInner { s.world.inner with slab := (s.world.inner.slab.detach t).1 })
  | polled (hfuture : s.futures σ = some future) (hempty : (s.world.results σ).completed = none) :
    Move b s (s.withWorld ((s.world.setResult σ
      { s.world.results σ with waker := some w }).emit (.polled σ w)))
  | delivered (hfuture : s.futures σ = some future)
      (hfilled : (s.world.results σ).completed = some completed) :
    Move b s (Sys.receive
      { s with
        world := (s.world.deliver σ future completed).1
        futures := Function.update s.futures σ none }
      (s.world.deliver σ future completed).2)
  | forgotten (detached underBorrow : Bool) (hfuture : s.futures σ = some future) :
    Move b s { s with
      world := (s.world.emit (.futureDropped σ detached)).dropFutureRef σ underBorrow
      futures := Function.update s.futures σ none }
  | checkedOut (htorn : s.world.inner.tornDown = false) (hrunning : s.world.inner.shutdown = .running)
      (hidle : s.world.inner.registrationInFlight = false)
      (hcurrent : s.world.inner.bufferRegistration = some r)
      (hclaim : (s.world.registries r).claim r index = .ok (registry, h)) :
    Move b s { s with world := s.world.setRegistry r registry, handles := s.handles ++ [h] }
  | filled (hhandle : s.handles[i]? = some h) (hlen : len ≤ h.extent) :
    Move b s { s with
      world := (s.world.setRegistry h.registry
        ((s.world.registries h.registry).setInitialized h.index len)).emit
          (.copied h.registry h.index len)
      handles := s.handles.set i { h with initialized := len } }
  | handleDropped (hhandle : s.handles[i]? = some h) :
    Move b s { s with
      world := s.world.dropHandle h underBorrow
      handles := s.handles.eraseIdx i }

abbrev Moves (b : Bool) : Sys ws → Sys ws → Prop := Relation.ReflTransGen (Move b)

/-- What one step comes to. -/
inductive Stride (s s' : Sys ws) : Action ws → Prop
  | moves (h : Moves b s s')
      (hcalm : b = true → s'.world.inner.ring.history = s.world.inner.ring.history) : Stride s s' a
  | accepted (hmade : request.Made p) (h : Accepted s s' t p e f) :
    Stride s s' (.start request answers)
  | setCursor (h : s' = s.withWorld (s.world.setCursor file position)) :
    Stride s s' (.setCursor file position)

end WinIoring.Runtime
