import WinIoring.Runtime.Driver

/-!
# Handles and futures

The calls an application makes: starting operations, cancelling, shutting down,
checking buffers out, and polling and dropping the futures it was given.
-/

namespace WinIoring.Runtime

open Slab

variable {ws : WordSize}

/-- Names the file an operation targets. -/
inductive FileTarget where
  | owned (file : FileId)
  | registered (index : Nat)
  deriving DecidableEq

def FileTarget.file : FileTarget → Option FileId
  | .owned file => some file
  | .registered _ => none

def FileTarget.index : FileTarget → Option Nat
  | .owned _ => none
  | .registered index => some index

def FileTarget.handle : FileTarget → HandleRef
  | .owned file => .raw file
  | .registered index => .registered index

def Buf.registeredExtent (b : Buf) : Nat := min b.capacity u32Max

/-- The platform's answers to the start of an operation: which op codes it
supports, its refusal of the entry, and a handle's type. -/
structure StartAnswers where
  supported : OpCode → Bool
  refusal : Option HResult
  fileType : Nat

/-- A future that has not resolved: what an `OpFuture` holds, whether a read
must record what it received, and the file a sequential operation advances. -/
structure Future (ws : WordSize) where
  token : Token ws
  isRead : Bool
  sequential : Option FileId

-- ---------------------------------------------------------------------------
-- What a rejected request gives back
-- ---------------------------------------------------------------------------

/-- The concrete types behind a `Box<dyn Any>`. -/
inductive BufferType where
  | owned
  | handle
  deriving DecidableEq

def Buffer.type : Buffer → BufferType
  | .owned _ => .owned
  | .handle _ => .handle

def Buffer.downcast (b : Buffer) (type : BufferType) : Option Buffer :=
  if b.type = type then some b else none

/-- Both `expect`s failing is giving nothing back. -/
def unboxPayloadOne (type : BufferType) (payload : OpPayload) : List Buffer :=
  (payload.buffer.bind (·.downcast type)).toList

def unboxPending : Option PendingRegistration → List Buffer
  | some (.buffers buffers ..) => (buffers.map Buffer.owned).filterMap (·.downcast .owned)
  | _ => []

def unboxPayload (payload : OpPayload) : List Buffer := unboxPending payload.pendingRegistration

@[simp] theorem Buffer.downcast_type (b : Buffer) : b.downcast b.type = some b := if_pos rfl

/-- A buffer comes out of a payload as the type it went in with. -/
theorem unboxPayloadOne_type {payload : OpPayload} {b : Buffer} (h : payload.buffer = some b) :
    unboxPayloadOne b.type payload = [b] := by
  simp [unboxPayloadOne, h]

/-- A registration's buffers come back in the order they were given. -/
theorem unboxPayload_buffers {payload : OpPayload} (h : payload.pendingRegistration =
    some (.buffers buffers pointers extents watermarks descriptors)) :
    unboxPayload payload = buffers.map .owned := by
  rw [unboxPayload, h, unboxPending, List.filterMap_map]
  exact congrFun List.filterMap_eq_map buffers

/-- An error, and the buffers that go back to the caller with it. -/
abbrev Rejection (ε : Type) := ε × List Buffer

/-- Where a request's buffers come from at each point it can be rejected: the
caller's own before a slot is asked for, and the payload, or not, once the slab
or the ring has refused it. -/
structure Recovery where
  checks : List Buffer
  full : OpPayload → List Buffer
  refused : OpPayload → List Buffer

namespace World

def wakeOptional (w : World ws) (waker : Option Waker) : World ws :=
  w.emitAll (waker.toList.map (.wake · false))

/-- Records that the driver owes a pass, and wakes it if it is parked. -/
def nudgeDriver (w : World ws) : World ws :=
  let (inner, waker) := w.inner.nudge
  (w.setInner inner).wakeOptional waker

-- ---------------------------------------------------------------------------
-- Starting an operation
-- ---------------------------------------------------------------------------

/-- What every entry point does once its own checks have answered: the payload
is placed and completed, its entry built, and the driver nudged. Whatever is
refused leaves no slot behind. -/
def start (w : World ws) (checks : Except Error Unit) (payload : OpPayload)
    (place : OpPayload → OpPayload)
    (build : IoRing ws → BitVec ws.bits → IoRing ws × Except RingError Unit)
    (accept : DriverInner ws → DriverInner ws) (recovery : Recovery) :
    World ws × Except (Rejection Error) (Token ws) :=
  match checks with
  | .error e => (w.dropGuard payload.sequential, .error (e, recovery.checks))
  | .ok _ =>
    match w.inner.slab.insert payload with
    | (_, .error payload) =>
      (w.dropGuard payload.sequential, .error (.tooManyOperations, recovery.full payload))
    | (slab, .ok t) =>
      let slab := slab.payloadMut t place
      match build w.inner.ring t.asUserData with
      | (_, .error e) =>
        let (slab, completed) := slab.complete t
        let recovered := completed.toList.flatMap recovery.refused
        let w := w.setInner { w.inner with slab }
        (w.dropGuard payload.sequential, .error (.ring e, recovered))
      | (ring, .ok _) =>
        let w := w.setInner (accept { w.inner with
          ring
          slab := (slab.setLifecycle t .built).1
          pendingSubmit := true })
        let w := { w.setResult w.nextSlot .new with nextSlot := w.nextSlot + 1 }
        ((w.emit (.accepted t (place payload) w.inner.fileRegistration)).nudgeDriver, .ok t)

/-- The checks that come first everywhere. -/
def checkAccepting (w : World ws) (a : StartAnswers) (op : OpCode) : Except Error Unit :=
  if w.inner.shutdown ≠ .running then
    .error .shuttingDown
  else
    (w.inner.ring.ensureOpSupported a.supported op).mapError .ring

def checkReadCapacity (buffer : Buffer) (requested : Nat) : Except Error Unit :=
  if requested > buffer.capacity then
    .error (.buf (.tooSmall requested buffer.capacity))
  else
    .ok ()

def checkWriteInitialized (buffer : Buffer) (requested : Nat) : Except Error Unit :=
  if requested > buffer.len then
    .error (.buf (.uninitializedWriteRange requested buffer.len))
  else
    .ok ()

def tryRead (w : World ws) (file : FileId) (buffer : Buffer) (len offset : Nat)
    (sequential : Option FileId) (a : StartAnswers) :
    World ws × Except (Rejection Error) (Token ws) :=
  w.start
    (do
      w.checkAccepting a .read
      checkReadCapacity buffer len)
    { buffer := none
      file := some file
      slot := w.nextSlot
      registeredBuffer := none
      registeredFile := none
      pendingRegistration := none
      sequential }
    (fun payload => { payload with buffer := some buffer })
    (fun ring userData =>
      ring.buildReadFile (.raw file) (.raw buffer.ptr) len offset userData a.refusal)
    id
    { checks := [buffer], full := fun _ => [buffer], refused := unboxPayloadOne buffer.type }

def tryWrite (w : World ws) (file : FileId) (buffer : Buffer) (len offset : Nat)
    (sequential : Option FileId) (a : StartAnswers) :
    World ws × Except (Rejection Error) (Token ws) :=
  w.start
    (do
      w.checkAccepting a .write
      checkWriteInitialized buffer len)
    { buffer := none
      file := some file
      slot := w.nextSlot
      registeredBuffer := none
      registeredFile := none
      pendingRegistration := none
      sequential }
    (fun payload => { payload with buffer := some buffer })
    (fun ring userData =>
      ring.buildWriteFile (.raw file) (.raw buffer.ptr) len offset userData a.refusal)
    id
    { checks := [buffer], full := fun _ => [buffer], refused := unboxPayloadOne buffer.type }

def tryFlush (w : World ws) (file : FileId) (a : StartAnswers) :
    World ws × Except (Rejection Error) (Token ws) :=
  w.start (w.checkAccepting a .flush)
    { buffer := none
      file := some file
      slot := w.nextSlot
      registeredBuffer := none
      registeredFile := none
      pendingRegistration := none
      sequential := none }
    id
    (fun ring userData => ring.buildFlushFile (.raw file) userData a.refusal)
    id
    { checks := [], full := fun _ => [], refused := fun _ => [] }

/-- Refuses a registration while another is in flight, and while any buffer of
the current one is checked out. -/
def checkRegisterBuffers (w : World ws) (a : StartAnswers) : Except Error Unit :=
  if w.inner.shutdown ≠ .running then
    .error .shuttingDown
  else if w.inner.registrationInFlight then
    .error .registrationPending
  else
    match w.inner.bufferRegistration.bind fun r => (w.registries r).anyCheckedOut with
    | some index => .error (.bufferCheckedOut index)
    | none => (w.inner.ring.ensureOpSupported a.supported .registerBuffers).mapError .ring

def startRegisterBuffers (w : World ws) (buffers : List Buf) (a : StartAnswers) :
    World ws × Except (Rejection Error) (Token ws) :=
  let descriptors := buffers.map fun b => { address := b.address, length := b.registeredExtent }
  w.start
    (if buffers = [] then .error (.missingField "buffers") else w.checkRegisterBuffers a)
    { buffer := none
      file := none
      slot := w.nextSlot
      registeredBuffer := none
      registeredFile := none
      pendingRegistration := some (.buffers buffers
        (buffers.map (·.address))
        (buffers.map (·.registeredExtent))
        (buffers.map fun b => min b.len (b.registeredExtent))
        descriptors)
      sequential := none }
    id
    (fun ring userData => ring.buildRegisterBuffers descriptors userData a.refusal)
    (fun inner => { inner with registrationInFlight := true })
    { checks := buffers.map .owned, full := unboxPayload, refused := unboxPayload }

def startRegisterFiles (w : World ws) (files : List FileId) (a : StartAnswers) :
    World ws × Except (Rejection Error) (Token ws) :=
  w.start
    (if files = [] then .error (.missingField "files") else w.checkAccepting a .registerFiles)
    { buffer := none
      file := none
      slot := w.nextSlot
      registeredBuffer := none
      registeredFile := none
      pendingRegistration := some (.files files)
      sequential := none }
    id
    (fun ring userData => ring.buildRegisterFileHandles files userData a.refusal)
    id
    { checks := [], full := fun _ => [], refused := fun _ => [] }

/-- The handle must belong to this driver's current registration. -/
def checkRegistration (w : World ws) (h : RegisteredBuf) : Except Error Unit :=
  match w.inner.bufferRegistration with
  | some current => if current = h.registry then .ok () else .error .registrationSuperseded
  | none => .error (.invalidRegisteredIndex h.index)

def checkTarget (w : World ws) : FileTarget → Except Error Unit
  | .owned _ => .ok ()
  | .registered index => w.inner.checkRegisteredFile index

def tryRegisteredOp (w : World ws) (target : FileTarget) (buffer : RegisteredBuf)
    (bufferOffset len fileOffset : Nat) (isWrite : Bool) (a : StartAnswers) :
    World ws × Except (Rejection Error) (Token ws) :=
  w.start
    (do
      w.checkAccepting a (if isWrite then .write else .read)
      w.checkRegistration buffer
      w.checkRegisteredBuffer buffer.index bufferOffset len isWrite
      w.checkTarget target)
    { buffer := some (.handle buffer)
      file := target.file
      slot := w.nextSlot
      registeredBuffer := some (buffer.index, bufferOffset)
      registeredFile := target.index
      pendingRegistration := none
      sequential := none }
    id
    (fun ring userData =>
      let data := .registered buffer.index bufferOffset
      if isWrite then
        ring.buildWriteFile (target.handle) data len fileOffset userData a.refusal
      else
        ring.buildReadFile (target.handle) data len fileOffset userData a.refusal)
    id
    { checks := [.handle buffer]
      full := unboxPayloadOne .handle
      refused := unboxPayloadOne .handle }

-- ---------------------------------------------------------------------------
-- Sequential operations
-- ---------------------------------------------------------------------------

def fileTypeChar : Nat := 2

def fileTypePipe : Nat := 3

/-- Refuses the sequential API on a handle that has no file offset. The type is
asked for once and kept. -/
def checkHasFileOffset (w : World ws) (file : FileId) (a : StartAnswers) :
    World ws × Except FileError Unit :=
  let fileType := (w.files file).fileType.getD a.fileType
  let w := w.setFile file { w.files file with fileType := some fileType }
  if fileType = fileTypePipe ∨ fileType = fileTypeChar then
    (w, .error (.notSeekable fileType))
  else
    (w, .ok ())

/-- What `File::read` and `File::write` share: the cursor gives the offset, and
one operation at a time holds the file's guard. -/
def sequential (w : World ws) (file : FileId) (buffer : Buffer) (a : StartAnswers)
    (issue : World ws → Nat → World ws × Except (Rejection Error) (Token ws)) :
    World ws × Except (Rejection FileError) (Token ws) :=
  match w.checkHasFileOffset file a with
  | (w, .error e) => (w, .error (e, [buffer]))
  | (w, .ok _) =>
    let offset := (w.files file).cursor
    if (w.files file).sequentialOutstanding then
      (w, .error (.operationOutstanding, [buffer]))
    else
      let slot := w.nextSlot
      match issue (w.setFile file { w.files file with sequentialOutstanding := true }) offset with
      | (w, .error (e, given)) => (w, .error (.driver e, given))
      | (w, .ok t) => (w.emit (.seqStarted file slot offset), .ok t)

def fileRead (w : World ws) (file : FileId) (buffer : Buffer) (len : Nat) (a : StartAnswers) :
    World ws × Except (Rejection FileError) (Token ws) :=
  w.sequential file buffer a fun w offset => w.tryRead file buffer len offset (some file) a

def fileWrite (w : World ws) (file : FileId) (buffer : Buffer) (len : Nat) (a : StartAnswers) :
    World ws × Except (Rejection FileError) (Token ws) :=
  w.sequential file buffer a fun w offset => w.tryWrite file buffer len offset (some file) a

def setCursor (w : World ws) (file : FileId) (position : Nat) : World ws :=
  (w.setFile file { w.files file with cursor := position }).emit (.setCursor file position)

/-- Advances the cursor by the bytes a completed sequential operation moved. -/
def advanceOnSuccess (w : World ws) (file : Option FileId) (result : Except Error Transferred) :
    World ws :=
  match file, result with
  | some f, .ok transferred =>
    w.setFile f { w.files f with cursor := min ((w.files f).cursor + transferred) u64Max }
  | _, _ => w

-- ---------------------------------------------------------------------------
-- Cancelling and shutting down
-- ---------------------------------------------------------------------------

def cancel (w : World ws) (t : Token ws) (refusal : Option HResult) : World ws :=
  let (inner, waker) := (w.inner.requestCancel t refusal).takeDriverWaker
  (w.setInner inner).wakeOptional waker

/-- Raises the shutdown mode, never lowers it. -/
def escalate (w : World ws) (mode : ShutdownMode) : World ws :=
  if w.inner.shutdown.rank ≥ mode.rank then
    w
  else
    (w.setInner { w.inner with shutdown := mode }).nudgeDriver

-- ---------------------------------------------------------------------------
-- Registered buffers
-- ---------------------------------------------------------------------------

def checkOut (w : World ws) (r : RegId) (index : Nat) : World ws × Except Error RegisteredBuf :=
  if w.inner.tornDown ∨ w.inner.shutdown ≠ .running then
    (w, .error .shuttingDown)
  else if w.inner.registrationInFlight then
    (w, .error .registrationPending)
  else if w.inner.bufferRegistration ≠ some r then
    (w, .error .registrationSuperseded)
  else
    match (w.registries r).claim r index with
    | .error e => (w, .error e)
    | .ok (registry, h) => (w.setRegistry r registry, .ok h)

/-- `set_buf_init` on a handle: the mark is set outright. -/
def setBufInit (w : World ws) (h : RegisteredBuf) (len : Nat) : World ws × RegisteredBuf :=
  (w.setRegistry h.registry ((w.registries h.registry).setInitialized h.index (min len h.extent)),
    { h with initialized := min len h.extent })

-- ---------------------------------------------------------------------------
-- Futures
-- ---------------------------------------------------------------------------

/-- `poll_resolution` when nothing has been left yet. -/
def pollPending (w : World ws) (σ : SlotId) (waker : Waker) (underBorrow : Bool) : World ws :=
  let slot := w.results σ
  let w := w.setResult σ { slot with waker := some waker }
  (w.emitAll (slot.waker.toList.map (.dropWaker · underBorrow))).emit (.polled σ waker)

/-- What a read's future records in the buffer it received. -/
def recordRead (w : World ws) (future : Future ws) (completed : CompletedOp) :
    World ws × Option Boxed :=
  match completed with
  | (.ok transferred, some (.buffer (.handle h))) =>
    if future.isRead then
      let (w, h) := w.setBufInit h transferred
      (w, some (.buffer (.handle h)))
    else
      (w, completed.2)
  | _ => (w, completed.2)

/-- A poll that resolves: the result leaves the slot, a read marks what it
received, and a sequential operation moves its cursor. -/
def deliver (w : World ws) (σ : SlotId) (future : Future ws) (completed : CompletedOp) :
    World ws × Option Boxed :=
  let w := w.setResult σ { w.results σ with completed := none, awaited := false }
  let w := w.emit (.delivered σ completed)
  let (w, boxed) := w.recordRead future completed
  (w.advanceOnSuccess future.sequential completed.1, boxed)

/-- A payload dropped unresolved. -/
def dropPayload (w : World ws) (payload : OpPayload) : World ws :=
  let w := w.dropOptional (payload.buffer.map Boxed.buffer) true
  let w := w.dropSlotRef payload.slot
  let w := w.dropOptional (payload.pendingRegistration.map Boxed.pending) true
  w.dropGuard payload.sequential

/-- `Drop for OpFuture` with the driver's borrow free: the operation is
detached, and cancelled if the kernel has it. -/
def detachFuture (w : World ws) (t : Token ws) (refusal : Option HResult) : World ws :=
  match w.inner.slab.detach t with
  | (slab, some .described) =>
    match slab.complete t with
    | (slab, some payload) => (w.setInner { w.inner with slab }).dropPayload payload
    | (slab, none) => w.setInner { w.inner with slab }
  | (slab, some .built) => w.setInner { w.inner with slab }
  | (slab, some .submitted) =>
    let (inner, waker) := ({ w.inner with slab }.requestCancel t refusal).takeDriverWaker
    (w.setInner inner).wakeOptional waker
  | (_, none) => w

/-- The future's reference to its result slot goes, with whatever was left there
for it. -/
def dropFutureRef (w : World ws) (σ : SlotId) (underBorrow : Bool) : World ws :=
  let slot := w.results σ
  (w.setResult σ { slot with completed := none, awaited := false }).dropOptional
    (slot.completed.bind (·.2)) underBorrow

-- ---------------------------------------------------------------------------
-- What a future leaves alone
-- ---------------------------------------------------------------------------

/-- What a read records reaches its registration only. -/
theorem recordRead_eq (w : World ws) (future : Future ws) (completed : CompletedOp) :
    ∃ registries, (w.recordRead future completed).1 = { w with registries } := by
  unfold recordRead
  split
  · split
    · exact ⟨_, rfl⟩
    · exact ⟨_, rfl⟩
  · exact ⟨_, rfl⟩

theorem advanceOnSuccess_eq (w : World ws) (file : Option FileId) (result : Except Error Transferred) :
    ∃ files, w.advanceOnSuccess file result = { w with files } := by
  unfold advanceOnSuccess
  split
  · exact ⟨_, rfl⟩
  · exact ⟨_, rfl⟩

theorem deliver_eq (w : World ws) (σ : SlotId) (future : Future ws) (completed : CompletedOp) :
    ∃ registries files, (w.deliver σ future completed).1 =
      { (w.setResult σ { w.results σ with completed := none, awaited := false }).emit
          (.delivered σ completed) with
        registries
        files } := by
  simp only [deliver]
  obtain ⟨registries, hrecord⟩ := recordRead_eq
    ((w.setResult σ { w.results σ with completed := none, awaited := false }).emit
      (.delivered σ completed)) future completed
  obtain ⟨files, hadvance⟩ := advanceOnSuccess_eq
    ((((w.setResult σ { w.results σ with completed := none, awaited := false }).emit
      (.delivered σ completed)).recordRead future completed).1) future.sequential completed.1
  refine ⟨registries, files, hadvance.trans ?_⟩
  rw [hrecord]

@[simp] theorem inner_deliver (w : World ws) (σ : SlotId) (future : Future ws)
    (completed : CompletedOp) : (w.deliver σ future completed).1.inner = w.inner := by
  obtain ⟨_, _, h⟩ := w.deliver_eq σ future completed
  rw [h]
  rfl

@[simp] theorem inner_dropFutureRef (w : World ws) (σ : SlotId) (u : Bool) :
    (w.dropFutureRef σ u).inner = w.inner := by
  simp [dropFutureRef]

@[simp] theorem inner_dropHandle (w : World ws) (h : RegisteredBuf) (u : Bool) :
    (w.dropHandle h u).inner = w.inner := by
  simp [dropHandle]

-- ---------------------------------------------------------------------------
-- Waiting for the end of teardown
-- ---------------------------------------------------------------------------

/-- A `ShutdownComplete` polled for the first time. -/
def pollShutdownFirst (w : World ws) (waker : Waker) : World ws × Nat :=
  let id := w.inner.nextWaiterId
  (w.setInner { w.inner with
    nextWaiterId := id + 1
    shutdownWaiters := w.inner.shutdownWaiters ++ [(id, waker)] }, id)

/-- Polled again: its entry is replaced, and the waker it held is dropped. -/
def pollShutdownAgain (w : World ws) (id : Nat) (waker : Waker) : World ws :=
  let evicted := w.inner.shutdownWaiters.find? (·.1 = id)
  let waiters := match evicted with
    | some _ => w.inner.shutdownWaiters.map fun entry => if entry.1 = id then (id, waker) else entry
    | none => w.inner.shutdownWaiters ++ [(id, waker)]
  (w.setInner { w.inner with shutdownWaiters := waiters }).emitAll
    (evicted.toList.map fun entry => .dropWaker entry.2 true)

/-- `Drop for ShutdownComplete`: its entries are removed, and their wakers
dropped. -/
def dropShutdown (w : World ws) (id : Nat) : World ws :=
  let (gone, waiters) := w.inner.shutdownWaiters.partition (·.1 = id)
  (w.setInner { w.inner with shutdownWaiters := waiters }).emitAll
    (gone.map fun entry => .dropWaker entry.2 true)

end World

end WinIoring.Runtime
