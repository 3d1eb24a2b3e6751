import WinIoring.Runtime.Slab.Token

/-!
# The operation slab

Storage for in-flight operations: a growing list of slots, a free list threaded
through the vacant ones, and the operations over them. The payload type is left
abstract, as the source leaves it to `Box<dyn Any>`.
-/

namespace WinIoring.Slab

/-- How far an operation has progressed. -/
inductive Lifecycle where
  | described
  | built
  | submitted
  deriving DecidableEq

/-- Whether a change of lifecycle moves forward. -/
def Lifecycle.forward : Lifecycle → Lifecycle → Bool
  | .described, .built => true
  | .described, .submitted => true
  | .built, .submitted => true
  | _, _ => false

/-- Whether a future is still waiting on an operation. -/
inductive Observer where
  | live
  | detached
  deriving DecidableEq

/-- Whether a cancellation has ever been requested against an operation. -/
inductive CancelState where
  | neverRequested
  | pending
  | completed
  deriving DecidableEq

/-- What an occupied slot holds. -/
structure Occupant (α : Type u) where
  lifecycle : Lifecycle
  observer : Observer
  payload : α
  cancel : CancelState

inductive SlotState (α : Type u) where
  | vacant (nextFree : Option Nat)
  | occupied (op : Occupant α)
  /-- The operation completed while a cancellation against it was outstanding. -/
  | tombstone
  /-- The generation counter is exhausted. -/
  | retired

structure Slot (α : Type u) where
  generation : Nat
  state : SlotState α

def Occupant.promote (op : Occupant α) : Occupant α :=
  if op.lifecycle = .built then { op with lifecycle := .submitted } else op

def Slot.promote (slot : Slot α) : Slot α :=
  match slot with
  | { generation, state := .occupied op } => { generation, state := .occupied op.promote }
  | slot => slot

def Slot.outstanding (slot : Slot α) : Bool :=
  match slot.state with
  | .vacant _ | .retired => false
  | .occupied _ | .tombstone => true

def Slot.awaitingKernel (slot : Slot α) : Bool :=
  match slot.state with
  | .occupied op => op.lifecycle = .submitted
  | .tombstone => true
  | _ => false

/-- The outcome of looking a token up. -/
inductive Lookup where
  | live
  | tombstoned
  | unknown
  deriving DecidableEq

/-- The slab's fields, with nothing said about how they agree. -/
structure RawSlab (ws : WordSize) (α : Type u) where
  slots : List (Slot α)
  freeHead : Option Nat
  occupied : Nat

namespace RawSlab

variable {ws : WordSize} {α : Type u}

def new : RawSlab ws α := { slots := [], freeHead := none, occupied := 0 }

def setSlot (s : RawSlab ws α) (index : Nat) (slot : Slot α) : RawSlab ws α :=
  { s with slots := s.slots.set index slot }

/-- The index `insert` will fill, with the free list popped or the storage
grown. The outer `none` is the source's `unreachable!`. -/
def allocate (s : RawSlab ws α) : Option (Option (RawSlab ws α × Nat)) :=
  match s.freeHead with
  | some index =>
    match s.slots[index]? with
    | some { state := .vacant nextFree, .. } => some (some ({ s with freeHead := nextFree }, index))
    | _ => none
  | none =>
    if s.slots.length ≥ maxSlots then
      some none
    else
      let slot := { generation := firstGeneration, state := .vacant none }
      some (some ({ s with slots := s.slots ++ [slot] }, s.slots.length))

/-- Places a payload and returns its operation token, or the payload unchanged
if the slab is full. -/
def insert (s : RawSlab ws α) (payload : α) : Option (RawSlab ws α × Except α (Token ws)) :=
  match s.allocate with
  | none => none
  | some none => some (s, .error payload)
  | some (some (s, index)) =>
    match s.slots[index]? with
    | none => none
    | some slot =>
      let op := {
        lifecycle := .described
        observer := .live
        payload
        cancel := .neverRequested }
      let s := s.setSlot index { slot with state := .occupied op }
      some ({ s with occupied := s.occupied + 1 }, .ok (Token.new .operation index slot.generation))

def slotFor (s : RawSlab ws α) (t : Token ws) : Option (Slot α) :=
  match s.slots[t.index]? with
  | some slot => if slot.generation = t.generation then some slot else none
  | none => none

/-- The live operation a token names, if it names one. -/
def occupant (s : RawSlab ws α) (t : Token ws) : Option (Occupant α) :=
  match s.slotFor t with
  | some { state := .occupied op, .. } => some op
  | _ => none

def lookup (s : RawSlab ws α) (t : Token ws) : Lookup :=
  match s.slotFor t with
  | some { state := .occupied _, .. } => .live
  | some { state := .tombstone, .. } => .tombstoned
  | _ => .unknown

def payload (s : RawSlab ws α) (t : Token ws) : Option α := (s.occupant t).map (·.payload)

/-- Writes a new occupant into the slot a token names. -/
def setOccupant (s : RawSlab ws α) (t : Token ws) (op : Occupant α) : RawSlab ws α :=
  s.setSlot t.index { generation := t.generation, state := .occupied op }

/-- `payload_mut` followed by a write through the reference it returns. -/
def payloadMut (s : RawSlab ws α) (t : Token ws) (f : α → α) : RawSlab ws α :=
  match s.occupant t with
  | some op => s.setOccupant t { op with payload := f op.payload }
  | none => s

def state (s : RawSlab ws α) (t : Token ws) : Option (Lifecycle × Observer) :=
  (s.occupant t).map fun op => (op.lifecycle, op.observer)

/-- Advances a slot's lifecycle, and says whether the token names a live slot.
An attempt to move it backwards is ignored. -/
def setLifecycle (s : RawSlab ws α) (t : Token ws) (next : Lifecycle) : RawSlab ws α × Bool :=
  match s.occupant t with
  | some op =>
    if op.lifecycle.forward next then
      (s.setOccupant t { op with lifecycle := next }, true)
    else
      (s, true)
  | none => (s, false)

/-- Marks that the future awaiting an operation has been dropped, and returns
the lifecycle the operation had reached. -/
def detach (s : RawSlab ws α) (t : Token ws) : RawSlab ws α × Option Lifecycle :=
  match s.occupant t with
  | some op => (s.setOccupant t { op with observer := .detached }, some op.lifecycle)
  | none => (s, none)

/-- Records that a cancellation request has been issued, and returns the token
it is to carry. Refused for an operation that was ever cancelled before. -/
def registerCancel (s : RawSlab ws α) (t : Token ws) : RawSlab ws α × Option (Token ws) :=
  if t.kind ≠ .operation then
    (s, none)
  else
    match s.occupant t with
    | some op =>
      if op.cancel = .neverRequested then
        (s.setOccupant t { op with cancel := .pending }, some t.toCancel)
      else
        (s, none)
    | none => (s, none)

/-- Frees a slot and bumps its generation, or retires it once the counter is
exhausted. -/
def freeSlot (s : RawSlab ws α) (index : Nat) : RawSlab ws α :=
  match s.slots[index]? with
  | none => s
  | some slot =>
    if slot.generation ≥ generationMask ws then
      s.setSlot index { slot with state := .retired }
    else
      let freed := { generation := slot.generation + 1, state := .vacant s.freeHead }
      { s.setSlot index freed with freeHead := some index }

/-- What both cancellation reports do: move a pending cancellation of a live
operation on to `next`, or free the tombstone that was waiting for it. -/
def settleCancel (s : RawSlab ws α) (t : Token ws) (next : CancelState) : RawSlab ws α × Bool :=
  if t.kind ≠ .cancel then
    (s, false)
  else
    match s.slotFor t with
    | some { state := .occupied op, .. } =>
      if op.cancel = .pending then
        (s.setOccupant t { op with cancel := next }, true)
      else
        (s, false)
    | some { state := .tombstone, .. } => (s.freeSlot t.index, true)
    | _ => (s, false)

/-- Records that a cancellation request was never actually enqueued, so that a
later one may try again. -/
def cancelRequestNotEnqueued (s : RawSlab ws α) (t : Token ws) : RawSlab ws α × Bool :=
  s.settleCancel t .neverRequested

/-- Handles a cancellation request's own completion. -/
def completeCancel (s : RawSlab ws α) (t : Token ws) : RawSlab ws α × Bool :=
  s.settleCancel t .completed

/-- Handles an operation's own terminal completion and returns its payload. The
slot becomes a tombstone while a cancellation is outstanding, and is freed
otherwise. -/
def complete (s : RawSlab ws α) (t : Token ws) : RawSlab ws α × Option α :=
  if t.kind ≠ .operation then
    (s, none)
  else
    match s.occupant t with
    | some op =>
      let taken := { s with occupied := s.occupied - 1 }
      if op.cancel = .pending then
        (taken.setSlot t.index { generation := t.generation, state := .tombstone }, some op.payload)
      else
        let vacated := { generation := t.generation, state := .vacant none }
        ((taken.setSlot t.index vacated).freeSlot t.index, some op.payload)
    | none => (s, none)

/-- One turn of the loop in `drain`. -/
def drainSlot (s : RawSlab ws α) (index : Nat) : RawSlab ws α × Option α :=
  match s.slots[index]? with
  | some { state := .occupied op, generation } =>
    let taken := { s with occupied := s.occupied - 1 }
    ((taken.setSlot index { generation, state := .vacant none }).freeSlot index, some op.payload)
  | _ => (s, none)

/-- The loop of `drain` over the first `n` slots. -/
def drainUpTo (s : RawSlab ws α) : Nat → RawSlab ws α × List α
  | 0 => (s, [])
  | n + 1 =>
    let (s, out) := s.drainUpTo n
    let (s, payload) := s.drainSlot n
    (s, out ++ payload.toList)

/-- Removes every remaining payload. -/
def drain (s : RawSlab ws α) : RawSlab ws α × List α := s.drainUpTo s.slots.length

/-- Moves every operation that has been built into the submission queue on to
submitted. -/
def promoteBuiltToSubmitted (s : RawSlab ws α) : RawSlab ws α :=
  { s with slots := s.slots.map Slot.promote }

-- ---------------------------------------------------------------------------
-- Queries over every slot
-- ---------------------------------------------------------------------------

/-- The operation tokens of the live slots that meet `p`, in slot order. -/
def tokensWhere (s : RawSlab ws α) (p : Occupant α → Bool) : List (Token ws) :=
  s.slots.zipIdx.filterMap fun (slot, index) =>
    match slot.state with
    | .occupied op => if p op then some (Token.new .operation index slot.generation) else none
    | _ => none

def described (s : RawSlab ws α) : List (Token ws) :=
  s.tokensWhere fun op => op.lifecycle = .described

def built (s : RawSlab ws α) : List (Token ws) :=
  s.tokensWhere fun op => op.lifecycle = .built

def submittedUncancelled (s : RawSlab ws α) : List (Token ws) :=
  s.tokensWhere fun op => op.lifecycle = .submitted ∧ op.cancel = .neverRequested

def detachedSubmittedUncancelled (s : RawSlab ws α) : List (Token ws) :=
  s.tokensWhere fun op =>
    op.lifecycle = .submitted ∧ op.observer = .detached ∧ op.cancel = .neverRequested

/-- The number of slots that still expect a completion of any kind. -/
def outstanding (s : RawSlab ws α) : Nat := s.slots.countP Slot.outstanding

/-- The number of slots the kernel has accepted, or whose cancellation is still
outstanding. -/
def awaitingKernel (s : RawSlab ws α) : Nat := s.slots.countP Slot.awaitingKernel

end RawSlab

end WinIoring.Slab
