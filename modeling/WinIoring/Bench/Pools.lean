import WinIoring.Bench.Alignment
import WinIoring.Machine.Pool
import WinIoring.Runtime.Registry

/-!
# Buffer pools

Every backend takes its buffers out of a pool and puts them back. Six pools do it,
each with its own ways to refuse after the buffer has come off the free list; all
but two put back what they refuse.
-/

namespace WinIoring.Bench

open WinIoring.Machine WinIoring.Runtime

/-- An owned buffer: which allocation it is, how many bytes fit, and how many a read
left in it. -/
structure PoolBuffer where
  allocation : Nat
  capacity : Nat
  len : Nat
  deriving DecidableEq

inductive TakeError where
  | wouldBlock
  | tooSmall (capacity shortfall : Nat)
  | exceedsRegistered (capacity registered : Nat)
  | nothingRegistered
  | checkOut (e : Runtime.Error)
  | poisoned
  /-- A panic, out of which the taken buffer does not return. -/
  | capacityOverflow
  deriving DecidableEq

/-- `count` new buffers. The free lists here have their last element first, which is
where they are popped and pushed. -/
def allocate (count capacity len : Nat) : List PoolBuffer :=
  ((List.range count).map fun allocation => { allocation, capacity, len }).reverse

-- ---------------------------------------------------------------------------
-- Owned buffers
-- ---------------------------------------------------------------------------

/-- The shared pool of the buffered arms. -/
structure BufferPool where
  free : List PoolBuffer

namespace BufferPool

def new (count capacity : Nat) : BufferPool := ⟨allocate count capacity capacity⟩

/-- Takes a buffer, growing it if the caller needs more than it holds. No vector
grows past `isize::MAX`. -/
def take (ws : WordSize) (pool : BufferPool) (capacity : Nat) :
    BufferPool × Except TakeError PoolBuffer :=
  match pool.free with
  | [] => (pool, .error .wouldBlock)
  | buffer :: free =>
    if isizeMax ws < capacity then
      (⟨free⟩, .error .capacityOverflow)
    else
      (⟨free⟩, .ok { buffer with capacity := max buffer.capacity capacity, len := capacity })

def put (pool : BufferPool) (buffer : PoolBuffer) : BufferPool := ⟨buffer :: pool.free⟩

end BufferPool

/-- Takes an aligned buffer, which cannot grow. -/
def takeAligned (free : List PoolBuffer) (capacity : Nat) :
    List PoolBuffer × Except TakeError PoolBuffer :=
  match free with
  | [] => (free, .error .wouldBlock)
  | buffer :: free =>
    if buffer.capacity < capacity then
      (buffer :: free, .error (.tooSmall capacity buffer.capacity))
    else
      (free, .ok buffer)

structure UnbufferedIoRing where
  buffers : List PoolBuffer

namespace UnbufferedIoRing

def new (pool capacity : Nat) : UnbufferedIoRing := ⟨allocate pool capacity 0⟩

def takeBuffer (b : UnbufferedIoRing) (capacity : Nat) : UnbufferedIoRing × Except TakeError PoolBuffer :=
  let (buffers, result) := takeAligned b.buffers capacity
  (⟨buffers⟩, result)

def putBuffer (b : UnbufferedIoRing) (buffer : PoolBuffer) : UnbufferedIoRing := ⟨buffer :: b.buffers⟩

end UnbufferedIoRing

structure UnbufferedCompio where
  buffers : List PoolBuffer

namespace UnbufferedCompio

def new (pool capacity : Nat) : UnbufferedCompio := ⟨allocate pool capacity 0⟩

/-- The same steps as `take_aligned`, written out. -/
def takeBuffer (b : UnbufferedCompio) (capacity : Nat) : UnbufferedCompio × Except TakeError PoolBuffer :=
  let (buffers, result) := takeAligned b.buffers capacity
  (⟨buffers⟩, result)

def putBuffer (b : UnbufferedCompio) (buffer : PoolBuffer) : UnbufferedCompio := ⟨buffer :: b.buffers⟩

end UnbufferedCompio

/-- The thread pool's backend keeps its buffers behind a lock. -/
structure UnbufferedTokioFs where
  buffers : List PoolBuffer
  poisoned : Bool

namespace UnbufferedTokioFs

def new (pool capacity : Nat) : UnbufferedTokioFs := ⟨allocate pool capacity 0, false⟩

def takeBuffer (b : UnbufferedTokioFs) (capacity : Nat) : UnbufferedTokioFs × Except TakeError PoolBuffer :=
  if b.poisoned then
    (b, .error .poisoned)
  else
    let (buffers, result) := takeAligned b.buffers capacity
    ({ b with buffers }, result)

/-- Behind a poisoned lock the buffer is dropped. -/
def putBuffer (b : UnbufferedTokioFs) (buffer : PoolBuffer) : UnbufferedTokioFs :=
  if b.poisoned then b else { b with buffers := buffer :: b.buffers }

end UnbufferedTokioFs

-- ---------------------------------------------------------------------------
-- Registered buffers
-- ---------------------------------------------------------------------------

/-- `RegisteredBuffers::check_out`. `guard` is what the driver has to say: whether it
runs, has no registration in flight, and has this one as its current one. -/
def checkOut (guard : Except Runtime.Error Unit) (registry : RegistryInner) (index : Nat) :
    Except Runtime.Error (RegistryInner × RegisteredBuf) :=
  match guard with
  | .error e => .error e
  | .ok () => registry.claim 0 index

structure IoRingRegistered where
  buffers : Option RegistryInner
  free : List Nat

/-- A request for a buffer, and what the driver would say of it. -/
structure RegisteredTake where
  capacity : Nat
  guard : Except Runtime.Error Unit

/-- `(0..count as u32).rev()`. -/
def registeredIndices (count : Nat) : List Nat := List.range (UInt32.ofNat count).toNat

namespace IoRingRegistered

def new : IoRingRegistered := { buffers := none, free := [] }

/-- What `register` leaves once the registration is accepted. -/
def register (registry : RegistryInner) (count : Nat) : IoRingRegistered where
  buffers := some registry
  free := registeredIndices count

/-- Unlike the other pools this one does not put back what it refuses. -/
def takeBuffer (b : IoRingRegistered) (request : RegisteredTake) :
    IoRingRegistered × Except TakeError RegisteredBuf :=
  match b.free with
  | [] => (b, .error .wouldBlock)
  | index :: free =>
    match b.buffers with
    | none => ({ b with free }, .error .nothingRegistered)
    | some registry =>
      match checkOut request.guard registry index with
      | .error e => ({ b with free }, .error (.checkOut e))
      | .ok (registry, buffer) => ({ buffers := some registry, free }, .ok buffer)

/-- Dropping the handle releases its index in the registration. -/
def putBuffer (b : IoRingRegistered) (buffer : RegisteredBuf) : IoRingRegistered where
  buffers := b.buffers.map (·.release buffer.index)
  free := buffer.index :: b.free

end IoRingRegistered

structure UnbufferedIoRingRegistered where
  buffers : Option RegistryInner
  free : List Nat
  bufferLen : Nat

namespace UnbufferedIoRingRegistered

def new : UnbufferedIoRingRegistered := { buffers := none, free := [], bufferLen := 0 }

def register (registry : RegistryInner) (count capacity : Nat) : UnbufferedIoRingRegistered where
  buffers := some registry
  free := registeredIndices count
  bufferLen := capacity

def takeBuffer (b : UnbufferedIoRingRegistered) (request : RegisteredTake) :
    UnbufferedIoRingRegistered × Except TakeError RegisteredBuf :=
  if request.capacity > b.bufferLen then
    (b, .error (.exceedsRegistered request.capacity b.bufferLen))
  else
    match b.free with
    | [] => (b, .error .wouldBlock)
    | index :: free =>
      match b.buffers with
      | none => ({ b with free := index :: free }, .error .nothingRegistered)
      | some registry =>
        match checkOut request.guard registry index with
        | .error e => ({ b with free := index :: free }, .error (.checkOut e))
        | .ok (registry, buffer) => ({ b with buffers := some registry, free }, .ok buffer)

def putBuffer (b : UnbufferedIoRingRegistered) (buffer : RegisteredBuf) : UnbufferedIoRingRegistered :=
  { b with
    buffers := b.buffers.map (·.release buffer.index)
    free := buffer.index :: b.free }

end UnbufferedIoRingRegistered


-- ---------------------------------------------------------------------------
-- The pools of owned buffers
-- ---------------------------------------------------------------------------

theorem nodup_allocate (count capacity len : Nat) :
    ((allocate count capacity len).map PoolBuffer.allocation).Nodup := by
  have hmap : (allocate count capacity len).map PoolBuffer.allocation = (List.range count).reverse := by
    rw [allocate, List.map_reverse, List.map_map]
    exact congrArg List.reverse (List.map_id' (List.range count))
  rw [hmap]
  exact List.nodup_reverse.mpr List.nodup_range

def BufferPool.pool (ws : WordSize) : Pool BufferPool Nat TakeError PoolBuffer Nat where
  free p := p.free.map PoolBuffer.allocation
  key := PoolBuffer.allocation
  take := BufferPool.take ws
  put := BufferPool.put

/-- A buffer is there to be taken only for a size a vector may have. -/
def BufferPool.Fits (ws : WordSize) (p : BufferPool) (capacity : Nat) : Prop :=
  p.free = [] ∨ capacity ≤ isizeMax ws

theorem BufferPool.lawful (ws : WordSize) : (BufferPool.pool ws).Lawful (fun _ => True) (Fits ws) where
  take_ok := by
    intro p capacity p' b htake
    simp only [pool, take] at htake ⊢
    split at htake
    · cases htake
    · rename_i buffer free hfree
      split at htake
      · cases htake
      · cases htake
        rw [hfree]
        exact .refl _
  take_error := by
    intro p capacity p' e hfits htake
    simp only [pool, take] at htake
    split at htake
    · cases htake
      rfl
    · rename_i buffer free hfree
      rcases hfits with hnil | hle
      · rw [hfree] at hnil
        cases hnil
      · rw [if_neg (Nat.not_lt.mpr hle)] at htake
        cases htake
  put _ := .refl _
  inv_take _ := trivial
  inv_put _ := trivial

theorem BufferPool.fits_of_intact {ws : WordSize} (p : BufferPool) (capacity : Nat)
    (h : (BufferPool.pool ws).Intact p capacity) : Fits ws p capacity := by
  obtain ⟨free⟩ := p
  cases free with
  | nil => exact .inl rfl
  | cons buffer free =>
    refine .inr (Nat.not_lt.mp fun hbig => ?_)
    have hlost := h ⟨free⟩ .capacityOverflow (by simp [pool, take, hbig])
    exact List.cons_ne_self buffer free (congrArg BufferPool.free hlost).symm

/-- A refusal puts the buffer back, and otherwise it is the one on top that is out. -/
theorem takeAligned_cases (free : List PoolBuffer) (capacity : Nat) :
    (∃ e, takeAligned free capacity = (free, .error e)) ∨
      ∃ rest buffer, takeAligned free capacity = (rest, .ok buffer) ∧ free = buffer :: rest := by
  unfold takeAligned
  split
  · exact .inl ⟨_, rfl⟩
  · split
    · exact .inl ⟨_, rfl⟩
    · exact .inr ⟨_, _, rfl, rfl⟩

def UnbufferedIoRing.pool : Pool UnbufferedIoRing Nat TakeError PoolBuffer Nat where
  free b := b.buffers.map PoolBuffer.allocation
  key := PoolBuffer.allocation
  take := UnbufferedIoRing.takeBuffer
  put := UnbufferedIoRing.putBuffer

theorem UnbufferedIoRing.lawful : UnbufferedIoRing.pool.Lawful (fun _ => True) fun _ _ => True := by
  refine .of_cases (fun b capacity => ?_) (fun b buffer _ => .refl _) (fun _ _ _ => trivial)
    fun _ _ _ => trivial
  rcases takeAligned_cases b.buffers capacity with ⟨e, htake⟩ | ⟨rest, buffer, htake, hfree⟩
  · exact .inl ⟨e, by simp only [pool, takeBuffer, htake]⟩
  · exact .inr ⟨⟨rest⟩, buffer, by simp only [pool, takeBuffer, htake], by simp [pool, hfree]⟩

def UnbufferedCompio.pool : Pool UnbufferedCompio Nat TakeError PoolBuffer Nat where
  free b := b.buffers.map PoolBuffer.allocation
  key := PoolBuffer.allocation
  take := UnbufferedCompio.takeBuffer
  put := UnbufferedCompio.putBuffer

theorem UnbufferedCompio.lawful : UnbufferedCompio.pool.Lawful (fun _ => True) fun _ _ => True := by
  refine .of_cases (fun b capacity => ?_) (fun b buffer _ => .refl _) (fun _ _ _ => trivial)
    fun _ _ _ => trivial
  rcases takeAligned_cases b.buffers capacity with ⟨e, htake⟩ | ⟨rest, buffer, htake, hfree⟩
  · exact .inl ⟨e, by simp only [pool, takeBuffer, htake]⟩
  · exact .inr ⟨⟨rest⟩, buffer, by simp only [pool, takeBuffer, htake], by simp [pool, hfree]⟩

def UnbufferedTokioFs.pool : Pool UnbufferedTokioFs Nat TakeError PoolBuffer Nat where
  free b := b.buffers.map PoolBuffer.allocation
  key := PoolBuffer.allocation
  take := UnbufferedTokioFs.takeBuffer
  put := UnbufferedTokioFs.putBuffer

/-- Nothing poisons the lock, since nothing panics while it is held. -/
theorem UnbufferedTokioFs.lawful :
    UnbufferedTokioFs.pool.Lawful (fun b => b.poisoned = false) fun _ _ => True := by
  refine .of_cases (fun b capacity => ?_) (fun b buffer hopen => ?_) (fun b capacity hopen => ?_)
    fun b buffer hopen => ?_
  · obtain ⟨buffers, poisoned⟩ := b
    cases poisoned with
    | true => exact .inl ⟨.poisoned, rfl⟩
    | false =>
      rcases takeAligned_cases buffers capacity with ⟨e, htake⟩ | ⟨rest, buffer, htake, hfree⟩
      · exact .inl ⟨e, by simp [pool, takeBuffer, htake]⟩
      · exact .inr ⟨⟨rest, false⟩, buffer, by simp [pool, takeBuffer, htake], by simp [pool, hfree]⟩
  · simp [pool, putBuffer, hopen]
  · simp [pool, takeBuffer, hopen]
  · simp [pool, putBuffer, hopen]

-- ---------------------------------------------------------------------------
-- The pools of registered buffers
-- ---------------------------------------------------------------------------

/-- A check-out hands out the index it was asked for, or refuses. -/
theorem checkOut_cases (guard : Except Runtime.Error Unit) (registry : RegistryInner) (index : Nat) :
    (∃ e, checkOut guard registry index = .error e ∧
      ¬ (guard = .ok () ∧ ∃ slot, registry.slots[index]? = some slot ∧ slot.checkedOut = false)) ∨
      ∃ claimed buffer, checkOut guard registry index = .ok (claimed, buffer) ∧ buffer.index = index ∧
        guard = .ok () ∧ ∃ slot, registry.slots[index]? = some slot ∧ slot.checkedOut = false := by
  cases guard with
  | error e => exact .inl ⟨e, rfl, fun h => nomatch h.1⟩
  | ok =>
    cases hslot : registry.slots[index]? with
    | none =>
      exact .inl ⟨.invalidRegisteredIndex index, by simp only [checkOut, RegistryInner.claim, hslot], by simp⟩
    | some slot =>
      cases hout : slot.checkedOut with
      | true =>
        exact .inl ⟨.bufferCheckedOut index, by simp only [checkOut, RegistryInner.claim, hslot, hout, if_true],
          by simp [hout]⟩
      | false =>
        exact .inr ⟨_, _, by simp only [checkOut, RegistryInner.claim, hslot, hout]; rfl, rfl, rfl, slot,
          rfl, hout⟩

def IoRingRegistered.pool : Pool IoRingRegistered RegisteredTake TakeError RegisteredBuf Nat where
  free := IoRingRegistered.free
  key := RegisteredBuf.index
  take := IoRingRegistered.takeBuffer
  put := IoRingRegistered.putBuffer

/-- The check-out of the index on top will be granted, if there is one. -/
def IoRingRegistered.Granted (b : IoRingRegistered) (request : RegisteredTake) : Prop :=
  ∀ index, b.free.head? = some index → ∃ registry, b.buffers = some registry ∧
    request.guard = .ok () ∧ ∃ slot, registry.slots[index]? = some slot ∧ slot.checkedOut = false

theorem IoRingRegistered.take_cases (b : IoRingRegistered) (request : RegisteredTake) :
    (b.free = [] ∧ b.takeBuffer request = (b, .error .wouldBlock)) ∨
    (∃ e index free, b.free = index :: free ∧ ¬ b.Granted request ∧
      b.takeBuffer request = ({ b with free }, .error e)) ∨
    ∃ b' buffer, b.Granted request ∧ b.takeBuffer request = (b', .ok buffer) ∧
      b.free = buffer.index :: b'.free := by
  obtain ⟨buffers, free⟩ := b
  cases free with
  | nil => exact .inl ⟨rfl, rfl⟩
  | cons index free =>
    cases buffers with
    | none =>
      refine .inr (.inl ⟨_, index, free, rfl, fun h => ?_, rfl⟩)
      obtain ⟨registry, hnone, -⟩ := h index rfl
      cases hnone
    | some registry =>
      rcases checkOut_cases request.guard registry index with ⟨e, hout, hno⟩ | ⟨claimed, buffer, hout, hindex, hyes⟩
      · refine .inr (.inl ⟨.checkOut e, index, free, rfl, fun h => ?_, by simp only [takeBuffer, hout]⟩)
        obtain ⟨registry', hsome, hgranted⟩ := h index rfl
        obtain rfl := Option.some.inj hsome
        exact hno hgranted
      · refine .inr (.inr ⟨⟨some claimed, free⟩, buffer, ?_, by simp only [takeBuffer, hout], by rw [hindex]⟩)
        intro i hi
        obtain rfl := Option.some.inj hi
        exact ⟨registry, rfl, hyes⟩

theorem IoRingRegistered.lawful :
    IoRingRegistered.pool.Lawful (fun _ => True) IoRingRegistered.Granted where
  take_ok := by
    intro b request b' buffer htake
    rcases take_cases b request with ⟨-, heq⟩ | ⟨e, index, free, -, -, heq⟩ | ⟨b'', buffer', -, heq, hfree⟩
    all_goals
      have htake : b.takeBuffer request = (b', .ok buffer) := htake
      rw [heq] at htake
      cases htake
    simp only [pool, hfree]
    exact .refl _
  take_error := by
    intro b request b' e hgranted htake
    have htake : b.takeBuffer request = (b', .error e) := htake
    rcases take_cases b request with ⟨-, heq⟩ | ⟨e, index, free, -, hno, -⟩ | ⟨b'', buffer', -, heq, -⟩
    · rw [heq] at htake
      cases htake
      rfl
    · exact absurd hgranted hno
    · rw [heq] at htake
      cases htake
  put _ := .refl _
  inv_take _ := trivial
  inv_put _ := trivial

theorem IoRingRegistered.granted_of_intact (b : IoRingRegistered) (request : RegisteredTake)
    (h : IoRingRegistered.pool.Intact b request) : b.Granted request := by
  rcases take_cases b request with ⟨hnil, -⟩ | ⟨e, index, free, hfree, -, heq⟩ | ⟨b', buffer, hgranted, -, -⟩
  · intro index hi
    rw [hnil] at hi
    cases hi
  · have hlost := congrArg IoRingRegistered.free (h _ e heq)
    rw [hfree] at hlost
    exact absurd hlost.symm (List.cons_ne_self index free)
  · exact hgranted

def UnbufferedIoRingRegistered.pool :
    Pool UnbufferedIoRingRegistered RegisteredTake TakeError RegisteredBuf Nat where
  free := UnbufferedIoRingRegistered.free
  key := RegisteredBuf.index
  take := UnbufferedIoRingRegistered.takeBuffer
  put := UnbufferedIoRingRegistered.putBuffer

theorem UnbufferedIoRingRegistered.lawful :
    UnbufferedIoRingRegistered.pool.Lawful (fun _ => True) fun _ _ => True := by
  refine .of_cases (fun b request => ?_) (fun b buffer _ => .refl _) (fun _ _ _ => trivial)
    fun _ _ _ => trivial
  obtain ⟨buffers, free, bufferLen⟩ := b
  simp only [pool, takeBuffer]
  by_cases hlarge : request.capacity > bufferLen
  · exact .inl ⟨_, by rw [if_pos hlarge]⟩
  · rw [if_neg hlarge]
    cases free with
    | nil => exact .inl ⟨_, rfl⟩
    | cons index free =>
      cases buffers with
      | none => exact .inl ⟨_, rfl⟩
      | some registry =>
        rcases checkOut_cases request.guard registry index with ⟨e, hout, -⟩ | ⟨claimed, buffer, hout, hindex, -⟩
        · exact .inl ⟨.checkOut e, by simp only [hout]⟩
        · exact .inr ⟨⟨some claimed, free, bufferLen⟩, buffer, by simp only [hout], by rw [hindex]⟩


-- ---------------------------------------------------------------------------
-- Conservation
-- ---------------------------------------------------------------------------

theorem conserves_always {σ : Type u} {ι : Type v} {β : Type w} {p : Pool σ ι TakeError β Nat} {inv : σ → Prop}
    (h : p.Lawful inv fun _ _ => True) {start : σ} (hstart : inv start) (hnodup : (p.free start).Nodup) :
    p.Conserves start fun _ _ => True :=
  h.conserves hstart hnodup fun _ _ _ => trivial

/-- Four of the six pools conserve their buffers whatever is asked of them. The shared
one does for sizes a vector can have, and the registered one of the buffered arm for
takes whose check-out is granted: that is exactly when a refusal leaves them alone. -/
theorem pools_conserve (ws : WordSize) (count capacity : Nat) (registry : RegistryInner) :
    (BufferPool.pool ws).Conserves (.new count capacity) (BufferPool.Fits ws) ∧
    UnbufferedIoRing.pool.Conserves (.new count capacity) (fun _ _ => True) ∧
    UnbufferedCompio.pool.Conserves (.new count capacity) (fun _ _ => True) ∧
    UnbufferedTokioFs.pool.Conserves (.new count capacity) (fun _ _ => True) ∧
    (∀ start ∈ [IoRingRegistered.new, .register registry count],
      IoRingRegistered.pool.Conserves start IoRingRegistered.Granted) ∧
    ∀ start ∈ [UnbufferedIoRingRegistered.new, .register registry count capacity],
      UnbufferedIoRingRegistered.pool.Conserves start fun _ _ => True := by
  refine ⟨?_, ?_, ?_, ?_, ?_, ?_⟩
  · exact (BufferPool.lawful ws).conserves trivial (nodup_allocate ..) BufferPool.fits_of_intact
  · exact conserves_always UnbufferedIoRing.lawful trivial (nodup_allocate ..)
  · exact conserves_always UnbufferedCompio.lawful trivial (nodup_allocate ..)
  · exact conserves_always UnbufferedTokioFs.lawful rfl (nodup_allocate ..)
  · intro start hstart
    have hnodup : start.free.Nodup := by
      simp only [List.mem_cons, List.not_mem_nil, or_false] at hstart
      rcases hstart with rfl | rfl
      · exact List.nodup_nil
      · exact List.nodup_range
    exact IoRingRegistered.lawful.conserves trivial hnodup IoRingRegistered.granted_of_intact
  · intro start hstart
    have hnodup : start.free.Nodup := by
      simp only [List.mem_cons, List.not_mem_nil, or_false] at hstart
      rcases hstart with rfl | rfl
      · exact List.nodup_nil
      · exact List.nodup_range
    exact conserves_always UnbufferedIoRingRegistered.lawful trivial hnodup

/-- A registration of one buffer. -/
def oneRegistered : RegistryInner := .new [⟨0, 512, 0⟩] [0] [512] [0] []

/-- A check-out refused while another registration is in flight costs the pool its only
index, and nobody has it. -/
theorem ioRingRegistered_loses : ∃ s, (IoRingRegistered.pool.machine (.register oneRegistered 1)).run
      { pool := .register oneRegistered 1, out := [] }
      [.take { capacity := 512, guard := .error .registrationPending }] = some s ∧
    s.out.length = 0 ∧ s.pool.free.length = 0 ∧
    (IoRingRegistered.register oneRegistered 1).free.length = 1 ∧
    ¬ IoRingRegistered.pool.Conserves (.register oneRegistered 1) fun _ _ => True := by
  obtain ⟨s, hrun, hout, hfree⟩ : ∃ s,
      (IoRingRegistered.pool.machine (.register oneRegistered 1)).run
        { pool := .register oneRegistered 1, out := [] }
        [.take { capacity := 512, guard := .error .registrationPending }] = some s ∧
      s.out.length = 0 ∧ s.pool.free.length = 0 := ⟨_, rfl, rfl, rfl⟩
  refine ⟨s, hrun, hout, hfree, rfl, fun h => ?_⟩
  have hr : (IoRingRegistered.pool.machine (.register oneRegistered 1)).Reachable s := .run (.init rfl) hrun
  have hsound : (IoRingRegistered.pool.machine (.register oneRegistered 1)).ReachableBy
      (Pool.Sound fun _ _ => True) s := hr.mono fun _ a _ => by cases a <;> trivial
  have hcount : s.pool.free.length + s.out.length = 1 := h.count s hsound
  omega

/-- The same pool, asked when nothing stands in the way: the one buffer goes out and
comes back. -/
theorem pools_conserve_registered : ∃ s,
    (IoRingRegistered.pool.machine (.register oneRegistered 1)).ReachableBy
      (Pool.Sound IoRingRegistered.Granted) s ∧ s.out.length = 1 ∧
    s.pool.free.length + s.out.length = 1 ∧ (s.out.map RegisteredBuf.index).Nodup := by
  obtain ⟨-, -, -, -, hregistered, -⟩ := pools_conserve .w64 1 512 oneRegistered
  have hconserves := hregistered (.register oneRegistered 1) (by simp)
  obtain ⟨s, hstep, hout⟩ : ∃ s, (IoRingRegistered.pool.machine (.register oneRegistered 1)).step
      { pool := .register oneRegistered 1, out := [] } (.take { capacity := 512, guard := .ok () }) =
        some s ∧ s.out.length = 1 := ⟨_, rfl, rfl⟩
  have hgranted : Pool.Sound IoRingRegistered.Granted
      ({ pool := .register oneRegistered 1, out := [] } : Pool.Lending IoRingRegistered RegisteredBuf)
      (.take { capacity := 512, guard := .ok () }) := by
    intro index hindex
    obtain rfl : 0 = index := Option.some.inj hindex
    exact ⟨oneRegistered, rfl, rfl, _, rfl, rfl⟩
  have hr : (IoRingRegistered.pool.machine (.register oneRegistered 1)).ReachableBy
      (Pool.Sound IoRingRegistered.Granted) s := .step (.init rfl) hgranted hstep
  exact ⟨s, hr, hout, hconserves.count s hr, hconserves.once s hr⟩

end WinIoring.Bench
