import WinIoring.Runtime.State

/-!
# The driver

The functions of `DriverInner`, each under the driver's borrow. What the
platform answers to the calls a function makes is an argument of it.
-/

namespace WinIoring.Runtime

open Slab

variable {ws : WordSize}

/-- The platform's answers to one stretch of driver code. A cancellation may be
asked for at three places in it, each with its own answer. -/
structure Answers (ws : WordSize) where
  submit : Option HResult
  deferredCancel : Token ws → Option HResult
  detachedCancel : Token ws → Option HResult
  drainCancel : Token ws → Option HResult
  wait : SubmitAnswer ws
  pop : Option HResult
  closeFails : Nat

inductive StepOutcome where
  | quiescent
  | progressing
  | unsubmittableResidue
  deriving DecidableEq

def residueAttempts : Nat := 8

def closeAttempts : Nat := 3

def slowDrainSteps : Nat := 8

def slowDrainInterval : Nat := 8

def u32Max : Nat := 2 ^ 32 - 1

def u64Max : Nat := 2 ^ 64 - 1

/-- How a cancellation names the file its target named. -/
inductive CancelTarget where
  | owned (file : FileId)
  | registered (index : Nat)

def OpPayload.cancelTarget (p : OpPayload) : Option CancelTarget :=
  match p.file, p.registeredFile with
  | some file, _ => some (.owned file)
  | none, some index => some (.registered index)
  | none, none => none

def CancelTarget.handle : CancelTarget → HandleRef
  | .owned file => .raw file
  | .registered index => .registered index

def CancelTarget.hold (cancel : Token ws) : CancelTarget → List (Token ws × FileId)
  | .owned file => [(cancel, file)]
  | .registered _ => []

namespace DriverInner

def report (d : DriverInner ws) (e : Error) : DriverInner ws :=
  { d with deferredReports := d.deferredReports ++ [e] }

def takeReports (d : DriverInner ws) : DriverInner ws × List Error :=
  ({ d with deferredReports := [] }, d.deferredReports)

def markNudged (d : DriverInner ws) : DriverInner ws := { d with nudged := true }

def takeDriverWaker (d : DriverInner ws) : DriverInner ws × Option Waker :=
  ({ d with driverWaker := none }, d.driverWaker)

def nudge (d : DriverInner ws) : DriverInner ws × Option Waker := d.markNudged.takeDriverWaker

def takeNudge (d : DriverInner ws) : DriverInner ws × Bool := ({ d with nudged := false }, d.nudged)

/-- Records a failed submission and queues a report, without flooding. -/
def noteSubmitFailure (d : DriverInner ws) (e : Error) : DriverInner ws :=
  let d := { d with submitFailures := min (d.submitFailures + 1) u32Max }
  if d.submitFailures = 1 ∨ d.submitFailures % 64 = 0 then d.report e else d

-- ---------------------------------------------------------------------------
-- Cancellation
-- ---------------------------------------------------------------------------

/-- Builds and queues a cancellation for an operation the kernel has. -/
def issueCancel (d : DriverInner ws) (t : Token ws) (refusal : Option HResult) : DriverInner ws :=
  if d.tornDown then
    d
  else if t.asUserData = 0 then
    d
  else if (d.slab.state t).map Prod.fst ≠ some .submitted then
    d
  else
    match (d.slab.payload t).bind OpPayload.cancelTarget with
    | none => d
    | some target =>
      match d.slab.registerCancel t with
      | (_, none) => d
      | (slab, some cancel) =>
        let d := { d with slab, cancelHolds := d.cancelHolds ++ target.hold cancel }
        match d.ring.buildCancelRequest target.handle t.asUserData cancel.asUserData refusal with
        | (_, .error _) =>
          -- Nothing was queued, so a later attempt may try again.
          { d with
            cancelHolds := d.cancelHolds.filter fun hold => hold.1 ≠ cancel
            slab := (d.slab.cancelRequestNotEnqueued cancel).1 }
        | (ring, .ok _) => { d with ring, pendingSubmit := true }.markNudged

/-- Requests cancellation of an operation, now or as soon as possible. -/
def requestCancel (d : DriverInner ws) (t : Token ws) (refusal : Option HResult) : DriverInner ws :=
  if d.tornDown then
    d
  else
    match d.slab.state t with
    | some (.submitted, _) => d.issueCancel t refusal
    | some _ =>
      if t ∈ d.deferredCancels then d else { d with deferredCancels := d.deferredCancels ++ [t] }
    | none => d

/-- Asks for each of the listed operations to be cancelled. -/
def issueCancels (d : DriverInner ws) (ts : List (Token ws)) (refusal : Token ws → Option HResult) :
    DriverInner ws :=
  ts.foldl (fun d t => d.issueCancel t (refusal t)) d

/-- Cancels operations whose cancellation could not be issued earlier. -/
def cancelAbandoned (d : DriverInner ws) (a : Answers ws) : DriverInner ws :=
  let deferred := d.deferredCancels
  let d := { d with deferredCancels := [] }.issueCancels deferred a.deferredCancel
  d.issueCancels d.slab.detachedSubmittedUncancelled a.detachedCancel

-- ---------------------------------------------------------------------------
-- Submission
-- ---------------------------------------------------------------------------

/-- Hands queued entries to the kernel. -/
def submitPending (d : DriverInner ws) (a : Answers ws) : DriverInner ws :=
  if !d.pendingSubmit then
    d
  else
    match d.ring.submit 0 { failure := a.submit, taken := fun _ => false } with
    | (ring, .ok entries) =>
      { d with
        ring
        submissions := d.submissions + 1
        submittedEntries := d.submittedEntries + entries
        pendingSubmit := false
        submitFailures := 0
        slab := d.slab.promoteBuiltToSubmitted }.cancelAbandoned a
    | (ring, .error e) => { d with ring }.noteSubmitFailure (.ring e)

/-- Validates a registered file index. -/
def checkRegisteredFile (d : DriverInner ws) (index : Nat) : Except Error Unit :=
  match d.fileRegistration with
  | none => .error (.invalidRegisteredIndex index)
  | some registration =>
    if index < registration.count then .ok () else .error (.invalidRegisteredIndex index)

/-- Reports a drain that is taking an unusual number of steps. -/
def reportSlowDrain (d : DriverInner ws) (steps : Nat) : DriverInner ws :=
  if steps < slowDrainSteps ∨ steps % slowDrainInterval ≠ 0 then
    d
  else if d.slab.outstanding = 0 then
    d
  else
    d.report (.shutdownStalled d.slab.outstanding)

end DriverInner

namespace World

/-- Validates a registered buffer reference. Reads may target the whole extent;
writes are bounded by what is initialized. -/
def checkRegisteredBuffer (w : World ws) (index offset len : Nat) (forWrite : Bool) :
    Except Error Unit :=
  match w.inner.bufferRegistration with
  | none => .error (.invalidRegisteredIndex index)
  | some r =>
    match (w.registries r).extent index, (w.registries r).initialized index with
    | some extent, some initialized =>
      let bound := if forWrite then initialized else extent
      if offset + len > bound then
        .error (.registeredRangeOutOfBounds index offset len bound)
      else
        .ok ()
    | _, _ => .error (.invalidRegisteredIndex index)

-- ---------------------------------------------------------------------------
-- Completions
-- ---------------------------------------------------------------------------

/-- Installs a completed registration, superseding any predecessor. A buffer
registration is handed back for the caller. -/
def adoptRegistration (w : World ws) : PendingRegistration → World ws × Option RegId
  | .buffers buffers pointers extents watermarks descriptors =>
    let r := w.nextRegistry
    let registry := RegistryInner.new buffers pointers extents watermarks descriptors
    let w := { w.setRegistry r { registry with strong := registry.strong + 1 } with
      nextRegistry := r + 1 }
    (w.setInner { w.inner with
      bufferRegistration := some r
      retiredBufferRegistrations :=
        w.inner.retiredBufferRegistrations ++ w.inner.bufferRegistration.toList }, some r)
  | .files files =>
    (w.setInner { w.inner with
      fileRegistration := some { files, count := files.length }
      retiredFileRegistrations :=
        w.inner.retiredFileRegistrations ++ w.inner.fileRegistration.toList }, none)

def completionResult (outcome : Outcome) : Except Error Transferred :=
  if outcome.resultCode.failed then
    .error (.ofHResult outcome.resultCode)
  else
    .ok (outcome.information % 2 ^ 32)

/-- What a completed operation hands back, with a registration adopted or its
resources recovered. -/
def settleRegistration (w : World ws) (payload : OpPayload) (result : Except Error Transferred) :
    World ws × Option Boxed :=
  let buffer := payload.buffer.map Boxed.buffer
  match payload.pendingRegistration with
  | none => (w, buffer)
  | some pending =>
    let w := if pending.isBuffers then
        w.setInner { w.inner with registrationInFlight := false }
      else
        w
    match result with
    | .ok _ =>
      match w.adoptRegistration pending with
      | (w, some r) => (w, some (.collection r))
      | (w, none) => (w, buffer)
    | .error _ => (w, some (.pending pending))

/-- A completed transfer into a registered buffer may extend its initialized
prefix. The registration is reached through the handle the operation carried. -/
def raiseTransfer (w : World ws) (payload : OpPayload) (result : Except Error Transferred)
    (boxed : Option Boxed) : World ws :=
  match payload.registeredBuffer, result, boxed with
  | some (index, offset), .ok transferred, some (.buffer (.handle h)) =>
    w.setRegistry h.registry ((w.registries h.registry).raiseInitialized index offset transferred)
  | _, _, _ => w

def refreshHandle (w : World ws) (h : RegisteredBuf) : RegisteredBuf :=
  { h with initialized := ((w.registries h.registry).initialized h.index).getD h.initialized }

/-- Refreshes a handle's cached count before it is handed back. -/
def refresh (w : World ws) : Option Boxed → Option Boxed
  | some (.buffer (.handle h)) => some (.buffer (.handle (w.refreshHandle h)))
  | boxed => boxed

/-- The payload's reference to the result slot goes. If the future's is gone
too, so is what was left there. -/
def dropSlotRef (w : World ws) (σ : SlotId) : World ws :=
  let slot := w.results σ
  if slot.awaited then
    w
  else
    (w.setResult σ { slot with completed := none }).dropOptional (slot.completed.bind (·.2)) true

/-- Leaves a result for the future, takes its waker, and drops the payload. -/
def fill (w : World ws) (payload : OpPayload) (completed : CompletedOp) (cause : Cause ws) :
    World ws × Option Waker :=
  let slot := w.results payload.slot
  let w := w.emit (.filled payload.slot completed slot.waker cause)
  let w := w.setResult payload.slot { slot with completed := some completed, waker := none }
  ((w.dropSlotRef payload.slot).dropGuard payload.sequential, slot.waker)

/-- One operation's own completion. -/
def resolveCompletion (w : World ws) (payload : OpPayload) (cqe : Cqe ws) :
    World ws × Option Waker :=
  let result := completionResult cqe.outcome
  let (w, boxed) := w.settleRegistration payload result
  let w := w.raiseTransfer payload result boxed
  w.fill payload (result, w.refresh boxed) (.completion cqe)

/-- One turn of `reap_completions`: the wakers it collected, or nothing once the
loop returns. -/
def reapOne (w : World ws) (failure : Option HResult) : World ws × Option (List Waker) :=
  match w.inner.ring.popCompletion failure with
  | (_, .error e) => (w.setInner (w.inner.report (.ring e)), none)
  | (_, .ok none) => (w, none)
  | (ring, .ok (some cqe)) =>
    let inner := { w.inner with ring }
    let t := Token.fromUserData cqe.userData
    if t.kind = .cancel then
      (w.setInner { inner with
        slab := (inner.slab.completeCancel t).1
        cancelHolds := inner.cancelHolds.filter fun hold => hold.1 ≠ t }, some [])
    else
      match inner.slab.complete t with
      | (_, none) => (w.setInner inner, some [])
      | (slab, some payload) =>
        let (w, waker) := (w.setInner { inner with slab }).resolveCompletion payload cqe
        (w, some waker.toList)

def reapLoop (w : World ws) (wakers : List Waker) : Nat → World ws × List Waker
  | 0 => (w, wakers)
  | n + 1 =>
    match w.reapOne none with
    | (w, none) => (w, wakers)
    | (w, some more) => w.reapLoop (wakers ++ more) n

/-- Drains the completion queue, with no completion arriving meanwhile. -/
def reapCompletions (w : World ws) : World ws × List Waker :=
  w.reapLoop [] (w.inner.ring.completions.length + 1)

-- ---------------------------------------------------------------------------
-- Teardown
-- ---------------------------------------------------------------------------

/-- Resolves a payload the driver ended itself, returning the caller's
resources. -/
def resolveAbandoned (w : World ws) (payload : OpPayload) : World ws × Option Waker :=
  let resources := match payload.pendingRegistration with
    | some pending => some (.pending pending)
    | none => payload.buffer.map Boxed.buffer
  w.fill payload (.error .abandonedAtShutdown, resources) .abandoned

def resolveAllAbandoned (w : World ws) (payloads : List OpPayload) : World ws × List Waker :=
  payloads.foldl (fun (w, wakers) payload =>
    let (w, waker) := w.resolveAbandoned payload
    (w, wakers ++ waker.toList)) (w, [])

/-- Resolves slots that hold no queue entry, returning their buffers. -/
def resolveUnqueued (w : World ws) : World ws × List Waker :=
  w.inner.slab.described.foldl (fun (w, wakers) t =>
    match w.inner.slab.complete t with
    | (_, none) => (w, wakers)
    | (slab, some payload) =>
      let (w, waker) := (w.setInner { w.inner with slab }).resolveAbandoned payload
      (w, wakers ++ waker.toList)) (w, [])

/-- `drain_step` up to the reaping: whatever is queued is handed over, an
immediate shutdown cancels, and the driver waits if nothing is unaccepted. -/
def drainBegin (w : World ws) (a : Answers ws) : World ws × List Waker :=
  let (w, wakers) := w.resolveUnqueued
  let inner := w.inner.submitPending a
  let inner := if inner.shutdown.rank ≥ ShutdownMode.immediate.rank then
      inner.issueCancels inner.slab.submittedUncancelled a.drainCancel
    else
      inner
  let waiting := inner.slab.outstanding
  let inner := if inner.slab.built.length = 0 ∧ waiting > 0 then
      { inner with ring := (inner.ring.submit waiting a.wait).1 }
    else
      inner
  (w.setInner inner, wakers)

/-- What `drain_step` concludes once it has reaped. -/
def drainOutcome (w : World ws) : StepOutcome :=
  if w.inner.slab.outstanding = 0 then
    .quiescent
  else if w.inner.slab.awaitingKernel = 0 ∧ w.inner.submitFailures ≥ residueAttempts then
    .unsubmittableResidue
  else
    .progressing

/-- One bounded unit of teardown work. -/
def drainStep (w : World ws) (a : Answers ws) : World ws × List Waker × StepOutcome :=
  let (w, wakers) := w.drainBegin a
  let (w, more) := w.reapCompletions
  (w, wakers ++ more, w.drainOutcome)

def closeLoop (ring : IoRing ws) (fails : Nat) : Nat → Option (IoRing ws)
  | 0 => none
  | attempts + 1 =>
    match ring.close (fails > 0) with
    | (ring, true) => some ring
    | (ring, false) => closeLoop ring (fails - 1) attempts

/-- The driver's references to its registrations go. -/
def dropRegistrations (w : World ws) (registrations : List RegId) : World ws :=
  registrations.foldl (fun w r => w.dropRegistryRef r true) w

/-- What `close_and_release` lets go of once the ring is closed. -/
def release (w : World ws) : World ws × List Waker :=
  let (slab, payloads) := w.inner.slab.drain
  let (w, wakers) := (w.setInner { w.inner with slab }).resolveAllAbandoned payloads
  let registrations := w.inner.bufferRegistration.toList ++ w.inner.retiredBufferRegistrations
  let waiters := w.inner.shutdownWaiters.map (·.2)
  let w := w.dropRegistrations registrations
  let w := w.emitAll (w.inner.driverWaker.toList.map (.dropWaker · true))
  (w.setInner { w.inner with
    cancelHolds := []
    bufferRegistration := none
    retiredBufferRegistrations := []
    registrationInFlight := false
    fileRegistration := none
    retiredFileRegistrations := []
    driverWaker := none
    nudged := false
    tornDown := true
    shutdownWaiters := [] }, wakers ++ waiters)

/-- Closes the ring and releases everything it was keeping alive. Nothing means
the process was aborted, the ring having refused to close. -/
def closeAndRelease (w : World ws) (closeFails : Nat) : Option (World ws × List Waker) :=
  (closeLoop w.inner.ring closeFails closeAttempts).map fun ring =>
    (w.setInner { w.inner with ring }).release

-- ---------------------------------------------------------------------------
-- What resolving leaves alone
-- ---------------------------------------------------------------------------

@[simp] theorem inner_dropSlotRef (w : World ws) (σ : SlotId) : (w.dropSlotRef σ).inner = w.inner := by
  simp only [dropSlotRef]
  split
  · rfl
  · simp

@[simp] theorem files_dropSlotRef (w : World ws) (σ : SlotId) : (w.dropSlotRef σ).files = w.files := by
  simp only [dropSlotRef]
  split
  · rfl
  · simp

@[simp] theorem nextSlot_dropSlotRef (w : World ws) (σ : SlotId) :
    (w.dropSlotRef σ).nextSlot = w.nextSlot := by
  simp only [dropSlotRef]
  split
  · rfl
  · simp

@[simp] theorem nextRegistry_dropSlotRef (w : World ws) (σ : SlotId) :
    (w.dropSlotRef σ).nextRegistry = w.nextRegistry := by
  simp only [dropSlotRef]
  split
  · rfl
  · simp

section Fill

variable (w : World ws) (p : OpPayload) (completed : CompletedOp) (cause : Cause ws)

@[simp] theorem inner_fill : (w.fill p completed cause).1.inner = w.inner := by
  simp [fill]

@[simp] theorem nextSlot_fill : (w.fill p completed cause).1.nextSlot = w.nextSlot := by
  simp [fill]

@[simp] theorem nextRegistry_fill : (w.fill p completed cause).1.nextRegistry = w.nextRegistry := by
  simp [fill]

theorem files_fill (f : FileId) : (w.fill p completed cause).1.files f =
    if p.sequential = some f then { w.files f with sequentialOutstanding := false } else w.files f := by
  simp [fill, files_dropGuard]

/-- A slot nobody awaits keeps nothing. -/
theorem results_fill : (w.fill p completed cause).1.results = Function.update w.results p.slot
    { completed := if (w.results p.slot).awaited then some completed else none
      waker := none
      awaited := (w.results p.slot).awaited } := by
  simp only [fill, results_dropGuard, dropSlotRef]
  cases (w.results p.slot).awaited <;> simp

end Fill

/-- Settling a registration reaches the driver's registrations only. -/
theorem settleRegistration_inner (w : World ws) (p : OpPayload) (result : Except Error Transferred) :
    ∃ bufferRegistration retiredBufferRegistrations registrationInFlight fileRegistration
      retiredFileRegistrations, (w.settleRegistration p result).1.inner = { w.inner with
        bufferRegistration
        retiredBufferRegistrations
        registrationInFlight
        fileRegistration
        retiredFileRegistrations } := by
  unfold settleRegistration
  cases p.pendingRegistration with
  | none => exact ⟨_, _, _, _, _, rfl⟩
  | some pending =>
    cases pending <;> cases result <;> exact ⟨_, _, _, _, _, rfl⟩

@[simp] theorem inner_raiseTransfer (w : World ws) (p : OpPayload) (result : Except Error Transferred)
    (boxed : Option Boxed) : (w.raiseTransfer p result boxed).inner = w.inner := by
  unfold raiseTransfer
  split <;> rfl

theorem resolveCompletion_inner (w : World ws) (p : OpPayload) (cqe : Cqe ws) :
    (w.resolveCompletion p cqe).1.inner =
      (w.settleRegistration p (completionResult cqe.outcome)).1.inner := by
  simp [resolveCompletion]

section Resolve

variable (w : World ws) (p : OpPayload) (cqe : Cqe ws)

theorem resolveCompletion_books : ∃ bufferRegistration retiredBufferRegistrations
    registrationInFlight fileRegistration retiredFileRegistrations,
    (w.resolveCompletion p cqe).1.inner = { w.inner with
      bufferRegistration
      retiredBufferRegistrations
      registrationInFlight
      fileRegistration
      retiredFileRegistrations } := by
  rw [resolveCompletion_inner]
  exact settleRegistration_inner ..

@[simp] theorem slab_resolveCompletion :
    (w.resolveCompletion p cqe).1.inner.slab = w.inner.slab := by
  obtain ⟨_, _, _, _, _, h⟩ := w.resolveCompletion_books p cqe
  rw [h]

@[simp] theorem ring_resolveCompletion :
    (w.resolveCompletion p cqe).1.inner.ring = w.inner.ring := by
  obtain ⟨_, _, _, _, _, h⟩ := w.resolveCompletion_books p cqe
  rw [h]

@[simp] theorem pendingSubmit_resolveCompletion :
    (w.resolveCompletion p cqe).1.inner.pendingSubmit = w.inner.pendingSubmit := by
  obtain ⟨_, _, _, _, _, h⟩ := w.resolveCompletion_books p cqe
  rw [h]

@[simp] theorem tornDown_resolveCompletion :
    (w.resolveCompletion p cqe).1.inner.tornDown = w.inner.tornDown := by
  obtain ⟨_, _, _, _, _, h⟩ := w.resolveCompletion_books p cqe
  rw [h]

@[simp] theorem shutdown_resolveCompletion :
    (w.resolveCompletion p cqe).1.inner.shutdown = w.inner.shutdown := by
  obtain ⟨_, _, _, _, _, h⟩ := w.resolveCompletion_books p cqe
  rw [h]

end Resolve

@[simp] theorem inner_resolveAbandoned (w : World ws) (p : OpPayload) :
    (w.resolveAbandoned p).1.inner = w.inner := by
  simp [resolveAbandoned]

/-- The rule for a batch of payloads resolved one after another. -/
theorem resolveAllAbandoned_induction {P : World ws → Prop} (payloads : List OpPayload) (w : World ws)
    (hw : P w) (hstep : ∀ w p, p ∈ payloads → P w → P (w.resolveAbandoned p).1) :
    P (w.resolveAllAbandoned payloads).1 := by
  suffices ∀ (ps : List OpPayload) (acc : World ws × List Waker), (∀ p ∈ ps, p ∈ payloads) →
      P acc.1 → P (ps.foldl (fun (w, wakers) payload =>
        ((w.resolveAbandoned payload).1, wakers ++ (w.resolveAbandoned payload).2.toList)) acc).1 from
    this payloads (w, []) (fun _ => id) hw
  intro ps
  induction ps with
  | nil => exact fun _ _ h => h
  | cons p ps ih =>
    intro acc hmem h
    exact ih _ (fun q hq => hmem q (List.mem_cons_of_mem _ hq))
      (hstep _ p (hmem p List.mem_cons_self) h)

/-- The rule for a batch that uses each payload up. -/
theorem resolveAllAbandoned_consumes {P : List OpPayload → World ws → Prop}
    (hstep : ∀ p ps w, P (p :: ps) w → P ps (w.resolveAbandoned p).1) (ps : List OpPayload)
    (w : World ws) (h : P ps w) : P [] (w.resolveAllAbandoned ps).1 := by
  suffices ∀ (ps : List OpPayload) (acc : World ws × List Waker), P ps acc.1 →
      P [] (ps.foldl (fun (w, wakers) payload =>
        ((w.resolveAbandoned payload).1, wakers ++ (w.resolveAbandoned payload).2.toList)) acc).1 from
    this ps (w, []) h
  intro ps
  induction ps with
  | nil => exact fun _ h => h
  | cons p ps ih => exact fun acc h => ih _ (hstep p ps acc.1 h)

@[simp] theorem inner_resolveAllAbandoned (w : World ws) (payloads : List OpPayload) :
    (w.resolveAllAbandoned payloads).1.inner = w.inner :=
  resolveAllAbandoned_induction (P := fun w' => w'.inner = w.inner) payloads w rfl
    fun w' p _ h => (inner_resolveAbandoned w' p).trans h

theorem dropRegistrations_eq (w : World ws) (rs : List RegId) :
    ∃ registries log, w.dropRegistrations rs = { w with registries, log } := by
  induction rs generalizing w with
  | nil => exact ⟨_, _, rfl⟩
  | cons r rs ih =>
    obtain ⟨registries, log, h⟩ := ih (w.dropRegistryRef r true)
    obtain ⟨registries', log', h'⟩ := w.dropRegistryRef_eq r true
    refine ⟨registries, log, h.trans ?_⟩
    rw [h']

@[simp] theorem inner_dropRegistrations (w : World ws) (rs : List RegId) :
    (w.dropRegistrations rs).inner = w.inner := by
  obtain ⟨_, _, h⟩ := w.dropRegistrations_eq rs
  rw [h]

theorem release_inner (w : World ws) : w.release.1.inner = { w.inner with
    slab := w.inner.slab.drain.1
    cancelHolds := []
    bufferRegistration := none
    retiredBufferRegistrations := []
    registrationInFlight := false
    fileRegistration := none
    retiredFileRegistrations := []
    driverWaker := none
    nudged := false
    tornDown := true
    shutdownWaiters := [] } := by
  simp [release]

end World

end WinIoring.Runtime
