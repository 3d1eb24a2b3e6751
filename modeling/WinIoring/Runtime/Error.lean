import WinIoring.IoRing.Ring

/-!
# Errors of the driver surface

The driver names what it recognises and carries every other platform code as it
came.
-/

namespace WinIoring.Runtime

inductive BufError where
  | tooSmall (requested available : Nat)
  | uninitializedWriteRange (requested initialized : Nat)
  deriving DecidableEq

inductive Error where
  | ring (e : RingError)
  | buf (e : BufError)
  | shuttingDown
  | abandonedAtShutdown
  | shutdownStalled (outstanding : Nat)
  | missingField (field : String)
  | tooManyOperations
  | invalidRegisteredIndex (index : Nat)
  | registeredRangeOutOfBounds (index offset length extent : Nat)
  | bufferCheckedOut (index : Nat)
  | registrationSuperseded
  | registrationPending
  | other (hr : HResult)
  deriving DecidableEq

/-- `From<HRESULT>`: whatever the ring surface names stays named. -/
def Error.ofHResult (hr : HResult) : Error :=
  match RingError.ofHResult hr with
  | .other hr => .other hr
  | named => .ring named

/-- Errors of the file surface's sequential operations. -/
inductive FileError where
  | driver (e : Error)
  | notSeekable (fileType : Nat)
  | operationOutstanding
  deriving DecidableEq

end WinIoring.Runtime
