import WinIoring.Pipe.Error

/-!
# Errors of the file surface, and the routes to both surfaces

A platform code reaches the file or the pipe surface straight, from the driver, or
from the ring and then the driver. Which of these keep what the surface could have
named.
-/

namespace WinIoring

inductive RingCondition where
  | queueFull
  deriving DecidableEq

def ringTable : List (HResult × RingCondition) := [(submissionQueueFull, .queueFull)]

def classifyRing (hr : HResult) : Option RingCondition := (ringTable.find? fun row => row.1 = hr).map (·.2)

theorem RingError.ofHResult_eq (hr : HResult) : RingError.ofHResult hr =
    match classifyRing hr with
    | some .queueFull => .queueFull
    | none => .other hr := by
  unfold RingError.ofHResult
  by_cases h : hr = submissionQueueFull
  · subst h
    rfl
  · have hrow : classifyRing hr = none := by
      simp [classifyRing, ringTable, Ne.symm h]
    rw [if_neg h, hrow]

def RingError.osError : RingError → Option HResult
  | .other hr => some hr
  | .queueFull | .unsupportedOp _ | .ringClosed => none

namespace Runtime.Error

/-- `From<io_ring::Error>`. -/
def ofRing (e : RingError) : Error := .ring e

def osError : Error → Option HResult
  | .ring e => e.osError
  | .other hr => some hr
  | _ => none

end Runtime.Error

namespace File

inductive Error where
  | ring (e : RingError)
  | buf (e : Runtime.BufError)
  | shuttingDown
  | missingField (field : String)
  | abandonedAtShutdown
  | operationOutstanding
  | tooManyOperations
  | notSeekable (fileType : Nat)
  | driver (e : Runtime.Error)
  | other (hr : HResult)
  deriving DecidableEq

namespace Error

/-- `From<HRESULT>`. -/
def ofHResult (hr : HResult) : Error :=
  match RingError.ofHResult hr with
  | .other hr => .other hr
  | named => .ring named

/-- `From<io_ring::Error>`. -/
def ofRing (e : RingError) : Error := .ring e

/-- `From<runtime::Error>`. -/
def ofRuntime : Runtime.Error → Error
  | .ring e => .ring e
  | .buf e => .buf e
  | .shuttingDown => .shuttingDown
  | .abandonedAtShutdown => .abandonedAtShutdown
  | .missingField field => .missingField field
  | .tooManyOperations => .tooManyOperations
  | .other hr => .ofHResult hr
  | named => .driver named

def osError : Error → Option HResult
  | .ring e => e.osError
  | .driver e => e.osError
  | .other hr => some hr
  | _ => none

/-- The ring condition a file error names. -/
def condition : Error → Option RingCondition
  | .ring .queueFull => some .queueFull
  | _ => none

end Error

end File

namespace Pipe.Error

/-- `From<io_ring::Error>`. -/
def ofRing (e : RingError) : Error := .ring e

/-- `From<runtime::Error>`: a code the driver carried is looked up again. -/
def ofRuntime : Runtime.Error → Error
  | .ring e => .ring e
  | .buf e => .buf e
  | .shuttingDown => .shuttingDown
  | .abandonedAtShutdown => .abandonedAtShutdown
  | .missingField field => .missingField field
  | .tooManyOperations => .tooManyOperations
  | .other hr => .ofHResult hr
  | named => .driver named

def osError : Error → Option HResult
  | .ring e => e.osError
  | .driver e => e.osError
  | .other hr => some hr
  | _ => none

/-- The pipe condition an error names. -/
def condition : Error → Option PipeCondition
  | .busy => some .busy
  | .broken => some .broken
  | .noPeer => some .noPeer
  | .listening => some .listening
  | _ => none

/-- The ring condition a pipe error names. -/
def ringCondition : Error → Option RingCondition
  | .ring .queueFull => some .queueFull
  | _ => none

end Pipe.Error

-- ---------------------------------------------------------------------------
-- The tables
-- ---------------------------------------------------------------------------

theorem mem_pipeTable {hr : HResult} {c : Pipe.PipeCondition} :
    (hr, c) ∈ Pipe.pipeTable ↔ Pipe.classifyPipe hr = some c := by
  constructor
  · intro h
    simp only [Pipe.pipeTable, List.mem_cons, Prod.mk.injEq, List.not_mem_nil, or_false] at h
    rcases h with ⟨rfl, rfl⟩ | ⟨rfl, rfl⟩ | ⟨rfl, rfl⟩ | ⟨rfl, rfl⟩
    all_goals decide
  · intro h
    obtain ⟨⟨code, c⟩, hfound, rfl⟩ := Option.map_eq_some_iff.mp h
    have hcode := List.find?_some hfound
    obtain rfl := of_decide_eq_true hcode
    exact List.mem_of_find?_eq_some hfound

theorem mem_ringTable {hr : HResult} {c : RingCondition} :
    (hr, c) ∈ ringTable ↔ classifyRing hr = some c := by
  constructor
  · intro h
    obtain ⟨rfl, rfl⟩ := Prod.mk.inj (List.mem_singleton.mp h)
    decide
  · intro h
    obtain ⟨⟨code, c⟩, hfound, rfl⟩ := Option.map_eq_some_iff.mp h
    have hcode := List.find?_some hfound
    obtain rfl := of_decide_eq_true hcode
    exact List.mem_of_find?_eq_some hfound

/-- The two tables name disjoint codes. -/
theorem classifyRing_of_pipe {hr : HResult} {c : Pipe.PipeCondition} (h : Pipe.classifyPipe hr = some c) :
    classifyRing hr = none := by
  have hmem := mem_pipeTable.mpr h
  simp only [Pipe.pipeTable, List.mem_cons, Prod.mk.injEq, List.not_mem_nil, or_false] at hmem
  rcases hmem with ⟨rfl, -⟩ | ⟨rfl, -⟩ | ⟨rfl, -⟩ | ⟨rfl, -⟩
  all_goals decide

-- ---------------------------------------------------------------------------
-- Routes
-- ---------------------------------------------------------------------------

/-- The conversions a platform code goes through before a surface's own. -/
inductive Route where
  | direct
  | runtime
  | ring
  | ringRuntime
  deriving DecidableEq

/-- Whether the ring's error wraps the code on the way. -/
def Route.throughRing : Route → Bool
  | .direct | .runtime => false
  | .ring | .ringRuntime => true

def pipeError (route : Route) (hr : HResult) : Pipe.Error :=
  match route with
  | .direct => .ofHResult hr
  | .runtime => .ofRuntime (.ofHResult hr)
  | .ring => .ofRing (.ofHResult hr)
  | .ringRuntime => .ofRuntime (.ofRing (.ofHResult hr))

def fileError (route : Route) (hr : HResult) : File.Error :=
  match route with
  | .direct => .ofHResult hr
  | .runtime => .ofRuntime (.ofHResult hr)
  | .ring => .ofRing (.ofHResult hr)
  | .ringRuntime => .ofRuntime (.ofRing (.ofHResult hr))

/-- An error keeps its code or names a condition, and names just what the tables
have for the code. -/
def PipeKept (e : Pipe.Error) (hr : HResult) : Prop :=
  (e.osError = some hr ∨ e.condition ≠ none ∨ e.ringCondition ≠ none) ∧
  (∀ c, e.condition = some c ↔ (hr, c) ∈ Pipe.pipeTable) ∧
  ∀ c, e.ringCondition = some c ↔ (hr, c) ∈ ringTable

def FileKept (e : File.Error) (hr : HResult) : Prop :=
  (e.osError = some hr ∨ e.condition ≠ none) ∧ ∀ c, e.condition = some c ↔ (hr, c) ∈ ringTable

/-- The file surface sees the same of a code whatever the route. -/
theorem fileKept (route : Route) (hr : HResult) : FileKept (fileError route hr) hr := by
  simp only [FileKept, mem_ringTable]
  cases hring : classifyRing hr with
  | none =>
    have hcode : RingError.ofHResult hr = .other hr := by rw [RingError.ofHResult_eq, hring]
    cases route
    all_goals
      simp [fileError, File.Error.ofHResult, File.Error.ofRuntime, File.Error.ofRing, Runtime.Error.ofHResult,
        Runtime.Error.ofRing, hcode, File.Error.osError, RingError.osError, File.Error.condition]
  | some c =>
    have hcode : RingError.ofHResult hr = .queueFull := by rw [RingError.ofHResult_eq, hring]
    cases route
    all_goals
      simp [fileError, File.Error.ofHResult, File.Error.ofRuntime, File.Error.ofRing, Runtime.Error.ofHResult,
        Runtime.Error.ofRing, hcode, File.Error.condition]

/-- A code no table has, or only the ring's, is kept on every route. -/
theorem pipeKept_of_none (route : Route) {hr : HResult} (h : Pipe.classifyPipe hr = none) :
    PipeKept (pipeError route hr) hr := by
  simp only [PipeKept, mem_ringTable, mem_pipeTable, h]
  cases hring : classifyRing hr with
  | none =>
    have hcode : RingError.ofHResult hr = .other hr := by rw [RingError.ofHResult_eq, hring]
    cases route
    all_goals
      simp [pipeError, Pipe.Error.ofHResult, h, Pipe.Error.ofRuntime, Pipe.Error.ofRing, Runtime.Error.ofHResult,
        Runtime.Error.ofRing, hcode, Pipe.Error.osError, RingError.osError, Pipe.Error.condition,
        Pipe.Error.ringCondition]
  | some c =>
    have hcode : RingError.ofHResult hr = .queueFull := by rw [RingError.ofHResult_eq, hring]
    cases route
    all_goals
      simp [pipeError, Pipe.Error.ofHResult, h, Pipe.Error.ofRuntime, Pipe.Error.ofRing, Runtime.Error.ofHResult,
        Runtime.Error.ofRing, hcode, Pipe.Error.condition, Pipe.Error.ringCondition]

/-- A pipe's code is named where it comes straight or from the driver alone. -/
theorem pipeKept_of_some {route : Route} {hr : HResult} {c : Pipe.PipeCondition}
    (h : Pipe.classifyPipe hr = some c) : PipeKept (pipeError route hr) hr ↔ route.throughRing = false := by
  have hring := classifyRing_of_pipe h
  have hcode : RingError.ofHResult hr = .other hr := by rw [RingError.ofHResult_eq, hring]
  simp only [PipeKept, mem_ringTable, mem_pipeTable, h, hring]
  cases route
  case direct | runtime =>
    cases c
    all_goals
      simp [pipeError, Pipe.Error.ofHResult, h, Pipe.Error.ofRuntime, Runtime.Error.ofHResult, hcode,
        Pipe.Error.condition, Pipe.Error.ringCondition, Route.throughRing]
  case ring | ringRuntime =>
    simp [pipeError, Pipe.Error.ofRuntime, Pipe.Error.ofRing, Runtime.Error.ofRing, hcode, Pipe.Error.condition,
      Route.throughRing]

/-- What is lost of a code depends on the route only for the pipe's own codes
behind a ring error. -/
theorem kept_iff (route : Route) (hr : HResult) :
    PipeKept (pipeError route hr) hr ∧ FileKept (fileError route hr) hr ↔
      route.throughRing = false ∨ Pipe.classifyPipe hr = none := by
  rw [and_iff_left (fileKept route hr)]
  cases h : Pipe.classifyPipe hr with
  | none => exact iff_of_true (pipeKept_of_none route h) (.inr rfl)
  | some c => rw [pipeKept_of_some h, or_iff_left nofun]

/-- A broken pipe the ring refused an entry with is not reported as one. -/
theorem not_kept_errorBrokenPipe : ¬ ∀ route hr,
    PipeKept (pipeError route hr) hr ∧ FileKept (fileError route hr) hr := by
  intro h
  obtain ⟨⟨-, hcondition, -⟩, -⟩ := h .ringRuntime Pipe.errorBrokenPipe
  have hnamed := (hcondition .broken).mpr (by decide)
  revert hnamed
  decide

end WinIoring
