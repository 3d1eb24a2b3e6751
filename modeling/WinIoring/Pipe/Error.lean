import WinIoring.Runtime.Error

/-!
# Errors of the pipe surface

The only surface that names a pipe condition. Every other code is the ring
surface's to name.
-/

namespace WinIoring.Pipe

/-- `WIN32_ERROR::to_hresult`. -/
def toHResult (code : BitVec 16) : HResult := 0x8007#16 ++ code

def errorBrokenPipe : HResult := toHResult 109

def errorPipeBusy : HResult := toHResult 231

def errorNoData : HResult := toHResult 232

def errorPipeConnected : HResult := toHResult 535

def errorPipeListening : HResult := toHResult 536

def errorIoIncomplete : HResult := toHResult 996

def errorIoPending : HResult := toHResult 997

def errorNotFound : HResult := toHResult 1168

inductive PipeCondition where
  | busy
  | broken
  | noPeer
  | listening
  deriving DecidableEq

def pipeTable : List (HResult × PipeCondition) :=
  [(errorPipeBusy, .busy), (errorBrokenPipe, .broken), (errorNoData, .noPeer),
    (errorPipeListening, .listening)]

def classifyPipe (hr : HResult) : Option PipeCondition :=
  (pipeTable.find? fun row => row.1 = hr).map (·.2)

inductive Error where
  | busy
  | broken
  | noPeer
  | listening
  | acceptOutstanding
  | ring (e : RingError)
  | buf (e : Runtime.BufError)
  | shuttingDown
  | missingField (field : String)
  | abandonedAtShutdown
  | tooManyOperations
  | driver (e : Runtime.Error)
  | other (hr : HResult)
  deriving DecidableEq

/-- `From<HRESULT>`. -/
def Error.ofHResult (hr : HResult) : Error :=
  match classifyPipe hr with
  | some .busy => .busy
  | some .broken => .broken
  | some .noPeer => .noPeer
  | some .listening => .listening
  | none =>
    match RingError.ofHResult hr with
    | .other hr => .other hr
    | named => .ring named

end WinIoring.Pipe
