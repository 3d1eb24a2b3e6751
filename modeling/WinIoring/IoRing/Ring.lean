import WinIoring.Runtime.Slab.Token

/-!
# The ring and the platform behind it

The wrapper's calls, over a model of what the platform keeps for one ring: the
submission queue, the entries it has accepted, those it has run but not yet
reported, and the completion queue. What the platform answers is an argument of
each call.
-/

namespace WinIoring

abbrev FileId := Nat

abbrev HResult := BitVec 32

/-- `HRESULT::ok`: the sign bit marks a failure. -/
def HResult.failed (hr : HResult) : Bool := hr.msb

/-- `IORING_E_SUBMISSION_QUEUE_FULL`. -/
def submissionQueueFull : HResult := 0x80460002

inductive OpCode where
  | read
  | registerFiles
  | registerBuffers
  | cancel
  | write
  | flush
  deriving DecidableEq

inductive RingError where
  | queueFull
  | unsupportedOp (op : OpCode)
  | ringClosed
  | other (hr : HResult)
  deriving DecidableEq

def RingError.ofHResult (hr : HResult) : RingError :=
  if hr = submissionQueueFull then .queueFull else .other hr

-- ---------------------------------------------------------------------------
-- Queue entries
-- ---------------------------------------------------------------------------

/-- How an entry names its file: `IORING_HANDLE_REF`. -/
inductive HandleRef where
  | raw (file : FileId)
  | registered (index : Nat)
  deriving DecidableEq

/-- How an entry names its data: `IORING_BUFFER_REF`. -/
inductive DataRef where
  | raw (address : Nat)
  | registered (index offset : Nat)
  deriving DecidableEq

structure BufferInfo where
  address : Nat
  length : Nat
  deriving DecidableEq

inductive SqeOp (ws : WordSize) where
  | read (handle : HandleRef) (data : DataRef) (len offset : Nat)
  | write (handle : HandleRef) (data : DataRef) (len offset : Nat)
  | flush (handle : HandleRef)
  | cancel (handle : HandleRef) (opToCancel : BitVec ws.bits)
  | registerBuffers (buffers : List BufferInfo)
  | registerFiles (handles : List FileId)
  deriving DecidableEq

structure Sqe (ws : WordSize) where
  op : SqeOp ws
  userData : BitVec ws.bits
  deriving DecidableEq

/-- How the platform ran an entry. -/
structure Outcome where
  resultCode : HResult
  information : Nat
  deriving DecidableEq

structure Cqe (ws : WordSize) where
  userData : BitVec ws.bits
  outcome : Outcome
  deriving DecidableEq

/-- A ring, and what the platform holds for it. `history` is every entry ever
built, newest first; nothing reads it. -/
structure IoRing (ws : WordSize) where
  closed : Bool
  queue : List (Sqe ws)
  inflight : List (Sqe ws)
  executed : List (Sqe ws × Outcome)
  completions : List (Cqe ws)
  buffersInForce : List BufferInfo
  filesInForce : List FileId
  history : List (Sqe ws)

/-- What `SubmitIoRing` does: its error, if it reports one, and which queued
entries a waiting call takes whether or not it does. -/
structure SubmitAnswer (ws : WordSize) where
  failure : Option HResult
  taken : Sqe ws → Bool

namespace IoRing

variable {ws : WordSize}

def create : IoRing ws where
  closed := false
  queue := []
  inflight := []
  executed := []
  completions := []
  buffersInForce := []
  filesInForce := []
  history := []

-- ---------------------------------------------------------------------------
-- The wrapper's calls
-- ---------------------------------------------------------------------------

def ensureOpen (r : IoRing ws) : Except RingError Unit :=
  if r.closed then .error .ringClosed else .ok ()

def ensureOpSupported (r : IoRing ws) (supported : OpCode → Bool) (op : OpCode) :
    Except RingError Unit :=
  if !r.closed && supported op then .ok () else .error (.unsupportedOp op)

/-- What the `build_*` calls share: the entry joins the submission queue unless
the ring is closed or the platform refuses it. -/
def build (r : IoRing ws) (e : Sqe ws) (refusal : Option HResult) : IoRing ws × Except RingError Unit :=
  match r.ensureOpen with
  | .error err => (r, .error err)
  | .ok _ =>
    match refusal with
    | some hr => (r, .error (.ofHResult hr))
    | none => ({ r with queue := r.queue ++ [e], history := e :: r.history }, .ok ())

def buildReadFile (r : IoRing ws) (handle : HandleRef) (data : DataRef) (len offset : Nat)
    (userData : BitVec ws.bits) (refusal : Option HResult) : IoRing ws × Except RingError Unit :=
  r.build { op := .read handle data len offset, userData } refusal

def buildWriteFile (r : IoRing ws) (handle : HandleRef) (data : DataRef) (len offset : Nat)
    (userData : BitVec ws.bits) (refusal : Option HResult) : IoRing ws × Except RingError Unit :=
  r.build { op := .write handle data len offset, userData } refusal

def buildFlushFile (r : IoRing ws) (handle : HandleRef) (userData : BitVec ws.bits)
    (refusal : Option HResult) : IoRing ws × Except RingError Unit :=
  r.build { op := .flush handle, userData } refusal

def buildCancelRequest (r : IoRing ws) (handle : HandleRef) (opToCancel userData : BitVec ws.bits)
    (refusal : Option HResult) : IoRing ws × Except RingError Unit :=
  r.build { op := .cancel handle opToCancel, userData } refusal

def buildRegisterBuffers (r : IoRing ws) (buffers : List BufferInfo) (userData : BitVec ws.bits)
    (refusal : Option HResult) : IoRing ws × Except RingError Unit :=
  r.build { op := .registerBuffers buffers, userData } refusal

def buildRegisterFileHandles (r : IoRing ws) (handles : List FileId) (userData : BitVec ws.bits)
    (refusal : Option HResult) : IoRing ws × Except RingError Unit :=
  r.build { op := .registerFiles handles, userData } refusal

/-- `submit(0, 0)` takes every queued entry or, on failure, none. A waiting call
may take any of them either way, and its count is lost on failure. -/
def submit (r : IoRing ws) (waitOperations : Nat) (answer : SubmitAnswer ws) :
    IoRing ws × Except RingError Nat :=
  match r.ensureOpen with
  | .error err => (r, .error err)
  | .ok _ =>
    let taken := if waitOperations = 0 then fun _ => answer.failure.isNone else answer.taken
    let accepted := r.queue.filter taken
    let r := { r with
      queue := r.queue.filter fun e => !taken e
      inflight := r.inflight ++ accepted }
    match answer.failure with
    | some hr => (r, .error (.ofHResult hr))
    | none => (r, .ok accepted.length)

def popCompletion (r : IoRing ws) (failure : Option HResult) :
    IoRing ws × Except RingError (Option (Cqe ws)) :=
  match r.ensureOpen with
  | .error err => (r, .error err)
  | .ok _ =>
    match failure with
    | some hr => (r, .error (.other hr))
    | none =>
      match r.completions with
      | [] => (r, .ok none)
      | cqe :: rest => ({ r with completions := rest }, .ok (some cqe))

/-- Closing is idempotent, and a failure leaves the ring open. -/
def close (r : IoRing ws) (fails : Bool) : IoRing ws × Bool :=
  if r.closed then (r, true) else if fails then (r, false) else ({ r with closed := true }, true)

-- ---------------------------------------------------------------------------
-- The platform's own steps
-- ---------------------------------------------------------------------------

/-- Runs an accepted entry. A registration that succeeds replaces the set in
force. -/
def execute (r : IoRing ws) (e : Sqe ws) (outcome : Outcome) : Option (IoRing ws) :=
  if e ∈ r.inflight then
    let r := { r with
      inflight := r.inflight.erase e
      executed := r.executed ++ [(e, outcome)] }
    if outcome.resultCode.failed then
      some r
    else
      match e.op with
      | .registerBuffers buffers => some { r with buffersInForce := buffers }
      | .registerFiles handles => some { r with filesInForce := handles }
      | _ => some r
  else
    none

/-- Reports an entry that has been run. -/
def report (r : IoRing ws) (e : Sqe ws) (outcome : Outcome) : Option (IoRing ws) :=
  if (e, outcome) ∈ r.executed then
    some { r with
      executed := r.executed.erase (e, outcome)
      completions := r.completions ++ [{ userData := e.userData, outcome }] }
  else
    none

end IoRing

end WinIoring
