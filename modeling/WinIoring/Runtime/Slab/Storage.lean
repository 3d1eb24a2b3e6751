import WinIoring.Runtime.Slab.History

/-!
# The slab's storage

The calls with their panics. `complete` and `drain` overwrite a slot before they
look at what was in it, count down without checking, and free by index; `insert`
trusts the free list. Each place that would panic is `none` here, and no sequence
of calls reaches one: the calls are those of `OpSlab`, step by step, so the
storage invariant holds wherever they lead.
-/

namespace WinIoring.Slab

variable {ws : WordSize} {α : Type u}

def Slot.isTombstone (slot : Slot α) : Bool :=
  match slot.state with
  | .tombstone => true
  | _ => false

namespace RawSlab

/-- `free_slot`, which indexes the storage. -/
def freeSlot? (s : RawSlab ws α) (index : Nat) : Option (RawSlab ws α) :=
  if index < s.slots.length then some (s.freeSlot index) else none

/-- The count after one live operation has gone. -/
def countDown? (s : RawSlab ws α) : Option (RawSlab ws α) :=
  if s.occupied = 0 then none else some { s with occupied := s.occupied - 1 }

/-- `complete`: what the slot held is replaced, and matched afterwards. -/
def complete? (s : RawSlab ws α) (t : Token ws) : Option (RawSlab ws α × Option α) :=
  if t.kind ≠ .operation then
    some (s, none)
  else
    match s.slots[t.index]? with
    | none => some (s, none)
    | some slot =>
      if slot.generation ≠ t.generation then
        some (s, none)
      else if ¬ slot.isOccupied then
        some (s, none)
      else
        let replaced := s.setSlot t.index { slot with state := .vacant none }
        match slot.state with
        | .occupied op => do
          let s ← replaced.countDown?
          if op.cancel = .pending then
            some (s.setSlot t.index { slot with state := .tombstone }, some op.payload)
          else
            let s ← s.freeSlot? t.index
            some (s, some op.payload)
        | _ => none

/-- What both cancellation reports do. -/
def settleCancel? (s : RawSlab ws α) (t : Token ws) (next : CancelState) :
    Option (RawSlab ws α × Bool) :=
  if t.kind ≠ .cancel then
    some (s, false)
  else
    match s.slots[t.index]? with
    | none => some (s, false)
    | some slot =>
      if slot.generation ≠ t.generation then
        some (s, false)
      else
        match slot.state with
        | .occupied op =>
          if op.cancel = .pending then
            let op := { op with cancel := next }
            some (s.setSlot t.index { slot with state := .occupied op }, true)
          else
            some (s, false)
        | .tombstone => do
          let s ← s.freeSlot? t.index
          some (s, true)
        | _ => some (s, false)

/-- One turn of the loop in `drain`: anything but a live operation is put back. -/
def drainSlot? (s : RawSlab ws α) (index : Nat) : Option (RawSlab ws α × Option α) :=
  match s.slots[index]? with
  | none => none
  | some slot =>
    let replaced := s.setSlot index { slot with state := .vacant none }
    match slot.state with
    | .occupied op => do
      let s ← replaced.countDown?
      let s ← s.freeSlot? index
      some (s, some op.payload)
    | other => some (replaced.setSlot index { slot with state := other }, none)

def drainUpTo? (s : RawSlab ws α) : Nat → Option (RawSlab ws α × List α)
  | 0 => some (s, [])
  | n + 1 => do
    let (s, out) ← s.drainUpTo? n
    let (s, payload) ← s.drainSlot? n
    some (s, out ++ payload.toList)

def drain? (s : RawSlab ws α) : Option (RawSlab ws α × List α) := s.drainUpTo? s.slots.length

/-- One call on the storage, and what it reports. `none` is a panic. -/
def call (s : RawSlab ws α) : SlabOp ws α → Option (RawSlab ws α × Report ws α)
  | .insert p => do
    let (s, r) ← s.insert p
    match r with
    | .ok t => some (s, .issued t)
    | .error p => some (s, .payloads [p])
  | .payloadMut t f => some (s.payloadMut t f, .ofBool (s.payload t).isSome)
  | .setLifecycle t next =>
    let (s, known) := s.setLifecycle t next
    some (s, .ofBool known)
  | .promoteBuiltToSubmitted => some (s.promoteBuiltToSubmitted, .done)
  | .detach t =>
    let (s, was) := s.detach t
    some (s, was.elim .nothing .lifecycle)
  | .registerCancel t =>
    let (s, request) := s.registerCancel t
    some (s, request.elim .nothing fun _ => .done)
  | .cancelRequestNotEnqueued t => do
    let (s, known) ← s.settleCancel? t .neverRequested
    some (s, .ofBool known)
  | .complete t => do
    let (s, payload) ← s.complete? t
    some (s, payload.elim .nothing fun p => .payloads [p])
  | .completeCancel t => do
    let (s, known) ← s.settleCancel? t .completed
    some (s, .ofBool known)
  | .drain => do
    let (s, out) ← s.drain?
    some (s, .payloads out)

end RawSlab

/-- Any sequence of calls on storage that starts empty. -/
def storageMachine (ws : WordSize) (α : Type u) : Machine (RawSlab ws α) (SlabOp ws α) where
  init s := s = .new
  step s op := (s.call op).map Prod.fst

-- ---------------------------------------------------------------------------
-- No call panics
-- ---------------------------------------------------------------------------

namespace RawSlab

variable {s : RawSlab ws α} {t : Token ws}

theorem freeSlot?_eq (hi : i < s.slots.length) : s.freeSlot? i = some (s.freeSlot i) :=
  if_pos hi

theorem countDown?_eq (h : 0 < s.occupied) :
    s.countDown? = some { s with occupied := s.occupied - 1 } :=
  if_neg h.ne'

theorem slotFor_of_slot (h : s.slots[t.index]? = some slot) (hg : slot.generation = t.generation) :
    s.slotFor t = some slot :=
  slotFor_eq_some.mpr ⟨h, hg⟩

theorem occupant_of_not_occupied (h : s.slotFor t = some slot) (hocc : ¬ slot.isOccupied) :
    s.occupant t = none := by
  obtain ⟨g, st⟩ := slot
  cases st with
  | occupied op => exact absurd rfl hocc
  | _ => simp only [occupant, h]

theorem occupant_of_slotFor_none (h : s.slotFor t = none) : s.occupant t = none := by
  simp only [occupant, h]

theorem complete?_eq (h : s.WellFormed) (t : Token ws) : s.complete? t = some (s.complete t) := by
  unfold complete? complete
  by_cases hk : t.kind = .operation
  · simp only [hk, ne_eq, not_true_eq_false, if_false]
    cases hslot : s.slots[t.index]? with
    | none =>
      have hnone : s.slotFor t = none := by simp only [slotFor, hslot]
      simp only [occupant_of_slotFor_none hnone]
    | some slot =>
      by_cases hg : slot.generation = t.generation
      · have hfor := slotFor_of_slot hslot hg
        obtain ⟨g, st⟩ := slot
        obtain rfl : g = t.generation := hg
        cases st with
        | occupied op =>
          have hlt := (List.getElem?_eq_some_iff.mp hslot).1
          have hocc : s.occupant t = some op := by simp only [occupant, hfor]
          have hdown := countDown?_eq (s := s.setSlot t.index ⟨t.generation, .vacant none⟩)
            (h.occupied_pos hslot rfl)
          simp only [not_true_eq_false, if_false, Slot.isOccupied, hdown, hocc]
          split
          · simp [setSlot]
          · rw [Option.bind_eq_bind, Option.bind_some, freeSlot?_eq (by simpa [setSlot] using hlt)]
            rfl
        | _ =>
          simp only [not_true_eq_false, if_false, Slot.isOccupied, Bool.false_eq_true,
            not_false_eq_true, if_true, occupant_of_not_occupied hfor (by simp [Slot.isOccupied])]
      · have hnone : s.slotFor t = none := by simp only [slotFor, hslot, hg, if_false]
        simp only [hg, not_false_eq_true, if_true, occupant_of_slotFor_none hnone]
  · simp only [ne_eq, hk, not_false_eq_true, if_true]

theorem settleCancel?_eq (s : RawSlab ws α) (t : Token ws) (next : CancelState) :
    s.settleCancel? t next = some (s.settleCancel t next) := by
  unfold settleCancel? settleCancel
  by_cases hk : t.kind = .cancel
  · simp only [hk, ne_eq, not_true_eq_false, if_false]
    cases hslot : s.slots[t.index]? with
    | none => simp only [slotFor, hslot]
    | some slot =>
      by_cases hg : slot.generation = t.generation
      · have hlt := (List.getElem?_eq_some_iff.mp hslot).1
        obtain ⟨g, st⟩ := slot
        obtain rfl : g = t.generation := hg
        simp only [slotFor_of_slot hslot rfl, not_true_eq_false, if_false]
        cases st with
        | occupied op =>
          simp only
          split <;> rfl
        | tombstone =>
          rw [freeSlot?_eq hlt]
          rfl
        | _ => rfl
      · have hnone : s.slotFor t = none := by simp only [slotFor, hslot, hg, if_false]
        simp only [hg, not_false_eq_true, if_true, hnone]
  · simp only [ne_eq, hk, not_false_eq_true, if_true]

theorem drainSlot?_eq (h : s.WellFormed) (hi : i < s.slots.length) :
    s.drainSlot? i = some (s.drainSlot i) := by
  have hslot : s.slots[i]? = some s.slots[i] := List.getElem?_eq_getElem hi
  generalize s.slots[i] = slot at hslot
  obtain ⟨g, st⟩ := slot
  have hback : ∀ st', (s.setSlot i ⟨g, st'⟩).setSlot i ⟨g, st⟩ = s := by
    intro st'
    have hset : s.slots.set i ⟨g, st⟩ = s.slots := by
      obtain ⟨hlt, heq⟩ := List.getElem?_eq_some_iff.mp hslot
      exact (congrArg (s.slots.set i) heq.symm).trans (List.set_getElem_self hlt)
    simp only [setSlot, List.set_set, hset]
  simp only [drainSlot?, drainSlot, hslot]
  cases st with
  | occupied op =>
    have hdown := countDown?_eq (s := s.setSlot i ⟨g, .vacant none⟩) (h.occupied_pos hslot rfl)
    simp only [hdown]
    rw [Option.bind_eq_bind, Option.bind_some, freeSlot?_eq (by simpa [setSlot] using hi)]
    rfl
  | _ => simp only [hback]

theorem drainUpTo?_eq (h : s.WellFormed) (hn : n ≤ s.slots.length) :
    s.drainUpTo? n = some (s.drainUpTo n) := by
  induction n with
  | zero => rfl
  | succ n ih =>
    obtain ⟨hdrained, -⟩ := s.drainUpTo_spec (Nat.le_of_succ_le hn)
    have hslot : (s.drainUpTo n).1.slots[n]? = some s.slots[n] :=
      (hdrained.rest n le_rfl).trans (List.getElem?_eq_getElem hn)
    have hstep := drainSlot?_eq (hdrained.effect.wf h) (List.getElem?_eq_some_iff.mp hslot).1
    simp only [drainUpTo?, ih (Nat.le_of_succ_le hn), Option.bind_eq_bind, Option.bind_some, hstep]
    rfl

theorem drain?_eq (h : s.WellFormed) : s.drain? = some s.drain := drainUpTo?_eq h le_rfl

end RawSlab

/-- The calls on the storage are the calls on the slab with its invariant. -/
theorem OpSlab.call_raw (s : OpSlab ws α) (op : SlabOp ws α) :
    s.raw.call op = some ((s.perform op).1.raw, (s.perform op).2) := by
  cases op with
  | insert p =>
    simp only [RawSlab.call, perform, insert]
    rcases RawSlab.insert_spec s.wf p with he | ⟨s', t, he, -⟩ <;> simp [he]
  | cancelRequestNotEnqueued t => simp only [RawSlab.call, RawSlab.settleCancel?_eq]; rfl
  | complete t => simp only [RawSlab.call, RawSlab.complete?_eq s.wf]; rfl
  | completeCancel t => simp only [RawSlab.call, RawSlab.settleCancel?_eq]; rfl
  | drain => simp only [RawSlab.call, RawSlab.drain?_eq s.wf]; rfl
  | _ => rfl

theorem wellFormed_of_reachable {s : RawSlab ws α} (hr : (storageMachine ws α).Reachable s) :
    s.WellFormed := by
  refine hr.invariant ?_ ?_
  · rintro _ rfl
    exact .new
  · intro s op s' _ hwf _ hs
    let slab : OpSlab ws α := ⟨s, hwf⟩
    have hcall := slab.call_raw op
    obtain ⟨r, hr, rfl⟩ := Option.map_eq_some_iff.mp hs
    obtain rfl := Option.some.inj (hr.symm.trans hcall)
    exact (slab.perform op).1.wf

-- ---------------------------------------------------------------------------
-- What the storage holds
-- ---------------------------------------------------------------------------

namespace RawSlab

variable {s : RawSlab ws α} {i : Nat}

/-- The free list is acyclic and lists exactly the vacant slots. -/
def FreeListed (s : RawSlab ws α) : Prop :=
  ∃ free, FreeList s.slots s.freeHead free ∧ free.Nodup ∧
    ∀ i, i ∈ free ↔ ∃ slot, s.slots[i]? = some slot ∧ slot.isVacant

/-- No slot is vacant, and there is no room for another. -/
def Full (s : RawSlab ws α) : Prop :=
  (∀ slot ∈ s.slots, ¬ slot.isVacant) ∧ s.slots.length = maxSlots

theorem countP_outstanding (slots : List (Slot α)) :
    slots.countP Slot.outstanding = slots.countP Slot.isOccupied + slots.countP Slot.isTombstone := by
  induction slots with
  | nil => rfl
  | cons slot slots ih =>
    obtain ⟨g, st⟩ := slot
    rw [List.countP_cons, List.countP_cons, List.countP_cons, ih]
    cases st <;> simp [Slot.outstanding, Slot.isOccupied, Slot.isTombstone] <;> omega

theorem WellFormed.outstanding_eq (h : s.WellFormed) :
    s.outstanding = s.occupied + s.slots.countP Slot.isTombstone := by
  rw [outstanding, countP_outstanding, h.occupied]

/-- The free list ends at once only when it has nothing to list. -/
theorem WellFormed.freeHead_eq_none (h : s.WellFormed) :
    s.freeHead = none ↔ ∀ slot ∈ s.slots, ¬ slot.isVacant := by
  obtain ⟨free, hfree, -, hmem⟩ := h.freeList
  constructor
  · intro hhead slot hslot hvacant
    rw [hhead] at hfree
    cases hfree
    obtain ⟨i, hi⟩ := List.getElem?_of_mem hslot
    exact List.not_mem_nil ((hmem i).mpr ⟨slot, hi, hvacant⟩)
  · intro hnone
    cases hhead : s.freeHead with
    | none => rfl
    | some i =>
      rw [hhead] at hfree
      cases hfree with
      | cons hslot _ => exact absurd rfl (hnone _ (List.mem_of_getElem? hslot))

theorem insert_eq_of_full (h : s.WellFormed) (hfull : s.Full) (p : α) :
    s.insert p = some (s, .error p) := by
  have hhead := h.freeHead_eq_none.mpr hfull.1
  simp [insert, allocate, hhead, hfull.2]

/-- A refusal found no vacant slot and no room. -/
theorem full_of_insert (h : s.WellFormed) {p e : α} (he : s.insert p = some (s', .error e)) :
    s.Full := by
  rcases hhead : s.freeHead with _ | i
  · have hnone := h.freeHead_eq_none.mp hhead
    refine ⟨hnone, le_antisymm h.length ?_⟩
    by_contra hlen
    simp [insert, allocate, hhead, hlen] at he
  · obtain ⟨free, hfree, -, -⟩ := h.freeList
    rw [hhead] at hfree
    cases hfree with
    | cons hslot _ => simp [insert, allocate, hhead, hslot] at he

/-- An insert fails exactly on a full slab, and then changes nothing and gives
the payload back. -/
theorem insert_fails_iff (h : s.WellFormed) (p : α) :
    ∃ s' r, s.insert p = some (s', r) ∧ ((∃ e, r = .error e) ↔ s.Full) ∧
      (s.Full → s' = s ∧ r = .error p) := by
  rcases insert_spec h p with he | ⟨s', t, he, -⟩
  · have hfull := full_of_insert h he
    exact ⟨s, .error p, he, ⟨fun _ => hfull, fun _ => ⟨p, rfl⟩⟩, fun _ => ⟨rfl, rfl⟩⟩
  · have hnot : ¬ s.Full := by
      intro hfull
      rw [insert_eq_of_full h hfull] at he
      cases he
    refine ⟨s', .ok t, he, ⟨?_, fun hfull => absurd hfull hnot⟩, fun hfull => absurd hfull hnot⟩
    rintro ⟨e, he⟩
    cases he

-- ---------------------------------------------------------------------------
-- Draining
-- ---------------------------------------------------------------------------

theorem drainSlot_of_not_occupied (h : s.slots[i]? = some slot) (hocc : ¬ slot.isOccupied) :
    s.drainSlot i = (s, none) := by
  obtain ⟨g, st⟩ := slot
  cases st with
  | occupied op => exact absurd rfl hocc
  | _ => simp only [drainSlot, h]

/-- The loop leaves alone whatever holds no live operation. -/
theorem drainUpTo_keeps (h : s.slots[i]? = some slot) (hocc : ¬ slot.isOccupied) (n : Nat) :
    (s.drainUpTo n).1.slots[i]? = some slot := by
  induction n with
  | zero => exact h
  | succ n ih =>
    simp only [drainUpTo]
    by_cases hi : i = n
    · subst hi
      rw [drainSlot_of_not_occupied ih hocc]
      exact ih
    · rw [drainSlot_slots _ hi]
      exact ih

theorem drain_no_occupied (h : s.WellFormed) : s.drain.1.occupied = 0 := by
  have hwf := s.drain_spec.1.wf h
  rw [hwf.occupied, List.countP_eq_zero]
  intro slot hslot hocc
  obtain ⟨i, hi⟩ := List.getElem?_of_mem hslot
  obtain ⟨g, st⟩ := slot
  cases st with
  | occupied op =>
    -- A slot still live would still answer for its key.
    have hcell : s.drain.1.cell ⟨i, g⟩ = some (.live op) := cell_eq_live.mpr hi
    rw [s.drain_spec.1.cell] at hcell
    obtain ⟨c, -, hc⟩ := Option.bind_eq_some_iff.mp hcell
    cases c <;> cases hc
  | _ => cases hocc

/-- What draining does: it hands over the payload of each live slot, in slot
order, and touches no other slot. -/
theorem drain?_spec (h : s.WellFormed) :
    ∃ s' out, s.drain? = some (s', out) ∧ out = s.slots.filterMap Slot.payload? ∧
      (∀ (i : Nat) slot, s.slots[i]? = some slot → ¬ slot.isOccupied → s'.slots[i]? = some slot) ∧
      s'.occupied = 0 ∧ s'.WellFormed :=
  ⟨_, _, drain?_eq h, s.drain_spec.2, fun _ _ hi hocc => drainUpTo_keeps hi hocc _,
    drain_no_occupied h, s.drain_spec.1.wf h⟩

end RawSlab

/-- After every sequence of calls: the free list is acyclic and lists exactly the
vacant slots, all of which a token can address; the count is the number of live slots, and what is outstanding is
that and the tombstones; no call panics, whatever it is and whatever token it is
given; an insert fails exactly when no slot is vacant and there is room for no
more; and a drain returns the payload of every live slot once, leaves every other
slot as it is, and keeps the storage in order. -/
theorem slab_storage {s : RawSlab ws α} (hr : (storageMachine ws α).Reachable s) :
    s.FreeListed ∧ s.slots.length ≤ maxSlots ∧
    s.occupied = s.slots.countP Slot.isOccupied ∧
    s.outstanding = s.occupied + s.slots.countP Slot.isTombstone ∧
    (∀ op, (s.call op).isSome) ∧
    (∀ p, ∃ s' r, s.insert p = some (s', r) ∧ ((∃ e, r = .error e) ↔ s.Full) ∧
      (s.Full → s' = s ∧ r = .error p)) ∧
    ∃ s' out, s.drain? = some (s', out) ∧ out = s.slots.filterMap Slot.payload? ∧
      (∀ (i : Nat) slot, s.slots[i]? = some slot → ¬ slot.isOccupied → s'.slots[i]? = some slot) ∧
      s'.occupied = 0 ∧ s'.FreeListed ∧ s'.occupied = s'.slots.countP Slot.isOccupied ∧
      s'.outstanding = s'.occupied + s'.slots.countP Slot.isTombstone := by
  have h := wellFormed_of_reachable hr
  refine ⟨h.freeList, h.length, h.occupied, h.outstanding_eq, ?_, RawSlab.insert_fails_iff h, ?_⟩
  · intro op
    let slab : OpSlab ws α := ⟨s, h⟩
    rw [show s.call op = _ from slab.call_raw op]
    rfl
  · obtain ⟨s', out, hdrain, hout, hkeep, hzero, h'⟩ := RawSlab.drain?_spec h
    exact ⟨s', out, hdrain, hout, hkeep, hzero, h'.freeList, h'.occupied, h'.outstanding_eq⟩

/-- Two operations, the first of which completes under a cancellation: its slot
stays a tombstone through a drain that returns the other's payload. -/
theorem slab_storage_tombstone :
    ∃ s : RawSlab .w32 Nat, (storageMachine .w32 Nat).Reachable s ∧ s.occupied = 1 ∧
      s.outstanding = 2 ∧ ∃ s' slot, s.drain? = some (s', [6]) ∧ s'.slots[0]? = some slot ∧
        slot.isTombstone := by
  let t : Token .w32 := ⟨2 ^ 17⟩
  let calls : List (SlabOp .w32 Nat) := [.insert 5, .insert 6, .registerCancel t, .complete t]
  have hend : ((storageMachine .w32 Nat).run .new calls).map (fun s =>
      (s.occupied, s.slots.countP Slot.isTombstone, s.slots.filterMap Slot.payload?,
        s.slots.head?.map Slot.isTombstone)) = some (1, 1, [6], some true) := by decide
  obtain ⟨s, hrun, hends⟩ := Option.map_eq_some_iff.mp hend
  simp only [Prod.mk.injEq] at hends
  obtain ⟨hocc, htombs, hlive, hhead⟩ := hends
  have hr : (storageMachine .w32 Nat).Reachable s := Machine.Reachable.run (.init rfl) hrun
  obtain ⟨-, -, -, hout, -, -, s', out, hdrain, hpayloads, hkeep, -⟩ := slab_storage hr
  obtain ⟨slot, hslot, htomb⟩ := Option.map_eq_some_iff.mp hhead
  have hidle : ¬ slot.isOccupied := by
    obtain ⟨g, st⟩ := slot
    cases st <;> simp_all [Slot.isTombstone, Slot.isOccupied]
  refine ⟨s, hr, hocc, by rw [hout, hocc, htombs], s', slot, ?_, ?_, htomb⟩
  · rw [hdrain, hpayloads, hlive]
  · exact hkeep 0 slot (by rw [← List.head?_eq_getElem?, hslot]) hidle

end WinIoring.Slab
