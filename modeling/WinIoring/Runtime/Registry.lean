import WinIoring.Runtime.Error

/-!
# Registered buffers

A registration's storage and bookkeeping, and the handles checked out of it.
References to a registration are counted, since the last one to go drops the
caller's buffers.
-/

namespace WinIoring.Runtime

abbrev RegId := Nat

/-- A caller's owned buffer: where its bytes are, how many fit, and how many are
initialized. -/
structure Buf where
  address : Nat
  capacity : Nat
  len : Nat
  deriving DecidableEq

/-- Exclusive access to one registered buffer. -/
structure RegisteredBuf where
  registry : RegId
  index : Nat
  ptr : Nat
  extent : Nat
  initialized : Nat
  deriving DecidableEq

/-- The per-buffer bookkeeping a registration keeps. -/
structure RegistrySlot where
  extent : Nat
  initialized : Nat
  checkedOut : Bool
  deriving DecidableEq

structure RegistryInner where
  buffers : List Buf
  pointers : List Nat
  slots : List RegistrySlot
  descriptors : List BufferInfo
  /-- `Rc` references to this registration. -/
  strong : Nat
  deriving DecidableEq

namespace RegistryInner

/-- The caller holds the one reference. -/
def new (buffers : List Buf) (pointers extents initialized : List Nat)
    (descriptors : List BufferInfo) : RegistryInner where
  buffers
  pointers
  slots := extents.zipWith (fun extent initialized =>
    { extent, initialized := min initialized extent, checkedOut := false }) initialized
  descriptors
  strong := 1

def anyCheckedOut (r : RegistryInner) : Option Nat := r.slots.findIdx? (·.checkedOut)

def len (r : RegistryInner) : Nat := r.pointers.length

def extent (r : RegistryInner) (index : Nat) : Option Nat := r.slots[index]?.map (·.extent)

def initialized (r : RegistryInner) (index : Nat) : Option Nat :=
  r.slots[index]?.map (·.initialized)

def modifySlot (r : RegistryInner) (index : Nat) (f : RegistrySlot → RegistrySlot) : RegistryInner :=
  { r with slots := r.slots.modify index f }

/-- Raises a buffer's initialized prefix to cover a completed transfer, unless
the transfer left a gap in front of it. -/
def raiseInitialized (r : RegistryInner) (index start transferred : Nat) : RegistryInner :=
  r.modifySlot index fun slot =>
    if start > slot.initialized then
      slot
    else
      { slot with initialized := max slot.initialized (min (start + transferred) slot.extent) }

/-- Sets a buffer's initialized prefix outright. -/
def setInitialized (r : RegistryInner) (index len : Nat) : RegistryInner :=
  r.modifySlot index fun slot => { slot with initialized := min len slot.extent }

/-- Claims a buffer. The handle holds a reference. -/
def claim (r : RegistryInner) (self : RegId) (index : Nat) :
    Except Error (RegistryInner × RegisteredBuf) :=
  match r.slots[index]? with
  | none => .error (.invalidRegisteredIndex index)
  | some slot =>
    if slot.checkedOut then
      .error (.bufferCheckedOut index)
    else
      let claimed := r.modifySlot index fun slot => { slot with checkedOut := true }
      .ok ({ claimed with strong := r.strong + 1 },
        { registry := self
          index
          ptr := r.pointers.getD index 0
          extent := slot.extent
          initialized := slot.initialized })

/-- Returns a buffer to the collection. -/
def release (r : RegistryInner) (index : Nat) : RegistryInner :=
  r.modifySlot index fun slot => { slot with checkedOut := false }

end RegistryInner

end WinIoring.Runtime
