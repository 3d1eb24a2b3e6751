import WinIoring.Runtime.Registry
import WinIoring.Runtime.Slab.Tracked

/-!
# The driver's state

`DriverInner` with every field the driver reads, the objects it shares with
futures and handles, and a log of what a caller can observe, newest first.
-/

namespace WinIoring.Runtime

open Slab

abbrev SlotId := Nat

abbrev Waker := Nat

/-- What moves through an operation as its buffer: `Box<dyn Any>` over an owned
buffer or over a registered one's handle. -/
inductive Buffer where
  | owned (b : Buf)
  | handle (h : RegisteredBuf)
  deriving DecidableEq

def Buffer.ptr : Buffer → Nat
  | .owned b => b.address
  | .handle h => h.ptr

def Buffer.capacity : Buffer → Nat
  | .owned b => b.capacity
  | .handle h => h.extent

def Buffer.len : Buffer → Nat
  | .owned b => b.len
  | .handle h => h.initialized

/-- The handle a buffer is. -/
def Buffer.handle? : Buffer → Option RegisteredBuf
  | .owned _ => none
  | .handle h => some h

/-- A registration that has been built but whose completion has not arrived. -/
inductive PendingRegistration where
  | buffers (buffers : List Buf) (pointers extents watermarks : List Nat)
    (descriptors : List BufferInfo)
  | files (files : List FileId)
  deriving DecidableEq

def PendingRegistration.isBuffers : PendingRegistration → Bool
  | .buffers .. => true
  | .files _ => false

/-- What travels back to the caller with a result. -/
inductive Boxed where
  | buffer (b : Buffer)
  | collection (r : RegId)
  | pending (p : PendingRegistration)
  deriving DecidableEq

abbrev Transferred := Nat

abbrev CompletedOp := Except Error Transferred × Option Boxed

/-- Where a completed operation's result is left. `awaited` is the future's
reference to it; the payload holds the other. -/
structure ResultSlot where
  completed : Option CompletedOp
  waker : Option Waker
  awaited : Bool

def ResultSlot.new : ResultSlot := { completed := none, waker := none, awaited := true }

/-- The driver-owned state of one in-flight operation. -/
structure OpPayload where
  buffer : Option Buffer
  file : Option FileId
  slot : SlotId
  registeredBuffer : Option (Nat × Nat)
  registeredFile : Option Nat
  pendingRegistration : Option PendingRegistration
  /-- The sequential guard: the file whose outstanding flag it clears. -/
  sequential : Option FileId

structure FileRegistration where
  files : List FileId
  count : Nat
  deriving DecidableEq

inductive ShutdownMode where
  | running
  | graceful
  | immediate
  deriving DecidableEq

/-- The order of escalation. -/
def ShutdownMode.rank : ShutdownMode → Nat
  | .running => 0
  | .graceful => 1
  | .immediate => 2

def ShutdownMode.max (a b : ShutdownMode) : ShutdownMode := if a.rank < b.rank then b else a

structure DriverInner (ws : WordSize) where
  ring : IoRing ws
  slab : OpSlab ws OpPayload
  bufferRegistration : Option RegId
  retiredBufferRegistrations : List RegId
  registrationInFlight : Bool
  fileRegistration : Option FileRegistration
  retiredFileRegistrations : List FileRegistration
  cancelHolds : List (Token ws × FileId)
  deferredCancels : List (Token ws)
  nudged : Bool
  driverWaker : Option Waker
  pendingSubmit : Bool
  shutdown : ShutdownMode
  tornDown : Bool
  shutdownWaiters : List (Nat × Waker)
  nextWaiterId : Nat
  deferredReports : List Error
  submitFailures : Nat
  submissions : Nat
  submittedEntries : Nat

def DriverInner.new (ring : IoRing ws) : DriverInner ws where
  ring
  slab := .new
  bufferRegistration := none
  retiredBufferRegistrations := []
  registrationInFlight := false
  fileRegistration := none
  retiredFileRegistrations := []
  cancelHolds := []
  deferredCancels := []
  nudged := false
  driverWaker := none
  pendingSubmit := false
  shutdown := .running
  tornDown := false
  shutdownWaiters := []
  nextWaiterId := 0
  deferredReports := []
  submitFailures := 0
  submissions := 0
  submittedEntries := 0

/-- What two clones of a `File` share. -/
structure FileState where
  cursor : Nat
  sequentialOutstanding : Bool
  fileType : Option Nat

-- ---------------------------------------------------------------------------
-- What a caller can observe
-- ---------------------------------------------------------------------------

/-- Why a result slot was filled. -/
inductive Cause (ws : WordSize) where
  | completion (cqe : Cqe ws)
  | abandoned

inductive Event (ws : WordSize) where
  | accepted (t : Token ws) (payload : OpPayload) (files : Option FileRegistration)
  | polled (slot : SlotId) (w : Waker)
  | filled (slot : SlotId) (completed : CompletedOp) (waker : Option Waker) (cause : Cause ws)
  | delivered (slot : SlotId) (completed : CompletedOp)
  | futureDropped (slot : SlotId) (detached : Bool)
  | executed (e : Sqe ws) (outcome : Outcome) (files : List FileId) (buffers : List BufferInfo)
  | reported (cqe : Cqe ws)
  | seqStarted (file : FileId) (slot : SlotId) (offset : Nat)
  | setCursor (file : FileId) (position : Nat)
  | copied (r : RegId) (index len : Nat)
  | wake (w : Waker) (underBorrow : Bool)
  | dropWaker (w : Waker) (underBorrow : Bool)
  | observe (e : Error) (underBorrow : Bool)
  | dropBuffer (b : Buf) (underBorrow : Bool)

/-- The driver, the reference-counted objects it shares, and the log. -/
structure World (ws : WordSize) where
  inner : DriverInner ws
  results : SlotId → ResultSlot
  nextSlot : SlotId
  registries : RegId → RegistryInner
  nextRegistry : RegId
  files : FileId → FileState
  log : List (Event ws)

namespace World

variable {ws : WordSize}

@[simps -fullyApplied] def emit (w : World ws) (e : Event ws) : World ws := { w with log := e :: w.log }

@[simps -fullyApplied] def emitAll (w : World ws) (es : List (Event ws)) : World ws := { w with log := es.reverse ++ w.log }

@[simps -fullyApplied] def setInner (w : World ws) (inner : DriverInner ws) : World ws := { w with inner }

@[simps -fullyApplied] def setResult (w : World ws) (σ : SlotId) (slot : ResultSlot) : World ws :=
  { w with results := Function.update w.results σ slot }

@[simps -fullyApplied] def setRegistry (w : World ws) (r : RegId) (registry : RegistryInner) : World ws :=
  { w with registries := Function.update w.registries r registry }

@[simps -fullyApplied] def setFile (w : World ws) (f : FileId) (state : FileState) : World ws :=
  { w with files := Function.update w.files f state }

-- ---------------------------------------------------------------------------
-- Drops
-- ---------------------------------------------------------------------------

/-- Lets go of one reference to a registration. The last takes the caller's
buffers with it. -/
def dropRegistryRef (w : World ws) (r : RegId) (underBorrow : Bool) : World ws :=
  let registry := w.registries r
  let w := w.setRegistry r { registry with strong := registry.strong - 1 }
  if registry.strong ≤ 1 then
    w.emitAll (registry.buffers.map (.dropBuffer · underBorrow))
  else
    w

/-- `Drop for RegisteredBuf`, then its reference. -/
def dropHandle (w : World ws) (h : RegisteredBuf) (underBorrow : Bool) : World ws :=
  (w.setRegistry h.registry ((w.registries h.registry).release h.index)).dropRegistryRef
    h.registry underBorrow

def dropBuffer (w : World ws) (b : Buffer) (underBorrow : Bool) : World ws :=
  match b with
  | .owned b => w.emit (.dropBuffer b underBorrow)
  | .handle h => w.dropHandle h underBorrow

def dropBoxed (w : World ws) (b : Boxed) (underBorrow : Bool) : World ws :=
  match b with
  | .buffer b => w.dropBuffer b underBorrow
  | .collection r => w.dropRegistryRef r underBorrow
  | .pending (.buffers buffers ..) => w.emitAll (buffers.map (.dropBuffer · underBorrow))
  | .pending (.files _) => w

def dropOptional (w : World ws) (b : Option Boxed) (underBorrow : Bool) : World ws :=
  match b with
  | some b => w.dropBoxed b underBorrow
  | none => w

/-- `Drop for SequentialGuard`. -/
def dropGuard (w : World ws) (guard : Option FileId) : World ws :=
  match guard with
  | some f => w.setFile f { w.files f with sequentialOutstanding := false }
  | none => w

-- ---------------------------------------------------------------------------
-- What a drop leaves alone
-- ---------------------------------------------------------------------------

section Drops

variable (w : World ws) (r : RegId) (h : RegisteredBuf) (b : Buffer) (boxed : Boxed)
  (resources : Option Boxed) (guard : Option FileId) (u : Bool)

/-- A drop of a caller's resources reaches the registrations and the log only. -/
theorem dropRegistryRef_eq : ∃ registries log,
    w.dropRegistryRef r u = { w with registries, log } := by
  simp only [dropRegistryRef]
  split
  · exact ⟨_, _, rfl⟩
  · exact ⟨_, _, rfl⟩

theorem dropBuffer_eq : ∃ registries log, w.dropBuffer b u = { w with registries, log } := by
  cases b with
  | owned b => exact ⟨_, _, rfl⟩
  | handle h =>
    obtain ⟨registries, log, hdrop⟩ := dropRegistryRef_eq
      (w.setRegistry h.registry ((w.registries h.registry).release h.index)) h.registry u
    exact ⟨registries, log, hdrop⟩

theorem dropOptional_eq : ∃ registries log,
    w.dropOptional resources u = { w with registries, log } := by
  match resources with
  | none => exact ⟨_, _, rfl⟩
  | some (.buffer b) => exact w.dropBuffer_eq b u
  | some (.collection r) => exact w.dropRegistryRef_eq r u
  | some (.pending (.buffers ..)) => exact ⟨_, _, rfl⟩
  | some (.pending (.files _)) => exact ⟨_, _, rfl⟩

@[simp] theorem inner_dropRegistryRef : (w.dropRegistryRef r u).inner = w.inner := by
  obtain ⟨_, _, h⟩ := w.dropRegistryRef_eq r u
  rw [h]

@[simp] theorem results_dropRegistryRef : (w.dropRegistryRef r u).results = w.results := by
  obtain ⟨_, _, h⟩ := w.dropRegistryRef_eq r u
  rw [h]

@[simp] theorem nextSlot_dropRegistryRef : (w.dropRegistryRef r u).nextSlot = w.nextSlot := by
  obtain ⟨_, _, h⟩ := w.dropRegistryRef_eq r u
  rw [h]

@[simp] theorem nextRegistry_dropRegistryRef :
    (w.dropRegistryRef r u).nextRegistry = w.nextRegistry := by
  obtain ⟨_, _, h⟩ := w.dropRegistryRef_eq r u
  rw [h]

@[simp] theorem files_dropRegistryRef : (w.dropRegistryRef r u).files = w.files := by
  obtain ⟨_, _, h⟩ := w.dropRegistryRef_eq r u
  rw [h]

@[simp] theorem inner_dropOptional : (w.dropOptional resources u).inner = w.inner := by
  obtain ⟨_, _, h⟩ := w.dropOptional_eq resources u
  rw [h]

@[simp] theorem results_dropOptional : (w.dropOptional resources u).results = w.results := by
  obtain ⟨_, _, h⟩ := w.dropOptional_eq resources u
  rw [h]

@[simp] theorem nextSlot_dropOptional : (w.dropOptional resources u).nextSlot = w.nextSlot := by
  obtain ⟨_, _, h⟩ := w.dropOptional_eq resources u
  rw [h]

@[simp] theorem nextRegistry_dropOptional :
    (w.dropOptional resources u).nextRegistry = w.nextRegistry := by
  obtain ⟨_, _, h⟩ := w.dropOptional_eq resources u
  rw [h]

@[simp] theorem files_dropOptional : (w.dropOptional resources u).files = w.files := by
  obtain ⟨_, _, h⟩ := w.dropOptional_eq resources u
  rw [h]

@[simp] theorem inner_dropGuard : (w.dropGuard guard).inner = w.inner := by
  cases guard <;> rfl

@[simp] theorem results_dropGuard : (w.dropGuard guard).results = w.results := by
  cases guard <;> rfl

@[simp] theorem nextSlot_dropGuard : (w.dropGuard guard).nextSlot = w.nextSlot := by
  cases guard <;> rfl

@[simp] theorem registries_dropGuard : (w.dropGuard guard).registries = w.registries := by
  cases guard <;> rfl

@[simp] theorem nextRegistry_dropGuard : (w.dropGuard guard).nextRegistry = w.nextRegistry := by
  cases guard <;> rfl

@[simp] theorem log_dropGuard : (w.dropGuard guard).log = w.log := by
  cases guard <;> rfl

theorem files_dropGuard (f : FileId) : (w.dropGuard guard).files f =
    if guard = some f then { w.files f with sequentialOutstanding := false } else w.files f := by
  cases guard with
  | none => rfl
  | some g =>
    simp only [dropGuard, setFile_files, Function.update_apply, Option.some.injEq, eq_comm (a := f)]
    split
    · rename_i h
      rw [h]
    · rfl

end Drops

end World

end WinIoring.Runtime
