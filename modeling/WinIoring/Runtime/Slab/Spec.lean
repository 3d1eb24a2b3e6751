import WinIoring.Runtime.Slab.Cells

/-!
# What each slab operation does

Every operation is specified by its effect on the map from keys to cells: a live
key changes as the operation says, and an operation aimed at anything else
changes nothing.
-/

namespace WinIoring.Slab

variable {ws : WordSize} {α : Type u}

/-- A lifecycle after an advance to `next`. -/
def Lifecycle.advance (l next : Lifecycle) : Lifecycle := if l.forward next then next else l

def Cell.promote : Cell α → Cell α
  | .live op => .live op.promote
  | .tombstone => .tombstone

/-- What a cancellation's report leaves of a cell that was waiting for it. -/
def Cell.settle (next : CancelState) : Cell α → Option (Cell α)
  | .live op => some (.live { op with cancel := next })
  | .tombstone => none

/-- Whether a cell waits for a cancellation's report. -/
def Cell.cancelPending : Cell α → Prop
  | .live op => op.cancel = .pending
  | .tombstone => True

/-- What draining leaves of a cell. -/
def Cell.drained : Cell α → Option (Cell α)
  | .live _ => none
  | .tombstone => some .tombstone

def Cell.payload? : Cell α → Option α
  | .live op => some op.payload
  | .tombstone => none

def Slot.payload? (slot : Slot α) : Option α :=
  match slot.state with
  | .occupied op => some op.payload
  | _ => none

/-- What an operation's completion leaves of its cell. -/
def Occupant.finish (op : Occupant α) : Option (Cell α) :=
  if op.cancel = .pending then some .tombstone else none

/-- The occupant a fresh insert places. -/
def Occupant.fresh (payload : α) : Occupant α :=
  { lifecycle := .described, observer := .live, payload, cancel := .neverRequested }

namespace RawSlab

variable {s : RawSlab ws α} {t : Token ws}

theorem Effect.trans {s s' s'' : RawSlab ws α} (h1 : Effect s s' f) (h2 : Effect s' s'' g) :
    Effect s s'' g :=
  ⟨h2.wf ∘ h1.wf, h2.cell, fun k => (h2.issued k).trans (h1.issued k)⟩

theorem payloadMut_live (h : s.cell t.key = some (.live op)) (f : α → α) :
    s.payloadMut t f = s.setOccupant t { op with payload := f op.payload } := by
  simp only [payloadMut, occupant_eq_some.mpr h]

theorem setLifecycle_live (h : s.cell t.key = some (.live op)) (next : Lifecycle) :
    Effect s (s.setLifecycle t next).1 (Function.update s.cell t.key
      (some (.live { op with lifecycle := op.lifecycle.advance next }))) := by
  simp only [setLifecycle, occupant_eq_some.mpr h, Lifecycle.advance]
  split
  · exact setOccupant_effect h _
  · rw [Function.update_eq_self_iff.mpr h.symm]
    exact .refl s

theorem setLifecycle_inert (h : ∀ op, s.cell t.key ≠ some (.live op)) (next : Lifecycle) :
    s.setLifecycle t next = (s, false) := by
  simp only [setLifecycle, occupant_eq_none h]

theorem detach_live (h : s.cell t.key = some (.live op)) :
    s.detach t = (s.setOccupant t { op with observer := .detached }, some op.lifecycle) := by
  simp only [detach, occupant_eq_some.mpr h]

theorem detach_inert (h : ∀ op, s.cell t.key ≠ some (.live op)) : s.detach t = (s, none) := by
  simp only [detach, occupant_eq_none h]

theorem registerCancel_live (hk : t.kind = .operation) (h : s.cell t.key = some (.live op))
    (hc : op.cancel = .neverRequested) :
    s.registerCancel t = (s.setOccupant t { op with cancel := .pending }, some t.toCancel) := by
  simp [registerCancel, hk, occupant_eq_some.mpr h, hc]

theorem registerCancel_inert (h : t.kind = .operation →
    ∀ op, s.cell t.key = some (.live op) → op.cancel ≠ .neverRequested) :
    s.registerCancel t = (s, none) := by
  unfold registerCancel
  split
  · rfl
  · rename_i hk
    split
    · rename_i op hop
      rw [if_neg (h (not_not.mp hk) op (occupant_eq_some.mp hop))]
    · rfl

@[simp] theorem freeSlot_occupied (s : RawSlab ws α) (i : Nat) :
    (s.freeSlot i).occupied = s.occupied := by
  unfold freeSlot
  split
  · rfl
  · split <;> rfl

/-- Freeing reads a slot's generation only. -/
theorem freeSlot_setSlot (h : s.slots[i]? = some ⟨g, st⟩) (st' : SlotState α) (n : Nat) :
    (({ s with occupied := n } : RawSlab ws α).setSlot i ⟨g, st'⟩).freeSlot i =
      { s.freeSlot i with occupied := n } := by
  have hlt := (List.getElem?_eq_some_iff.mp h).1
  simp only [freeSlot, setSlot, List.getElem?_set_self hlt, h]
  split <;> simp

/-- Taking the payload out of a live slot, whoever asks for it. -/
theorem vacate_effect (h : s.slots[i]? = some ⟨g, .occupied op⟩) :
    Effect s ((({ s with occupied := s.occupied - 1 } : RawSlab ws α).setSlot i
      ⟨g, .vacant none⟩).freeSlot i) (Function.update s.cell ⟨i, g⟩ none) := by
  rw [freeSlot_setSlot h]
  exact freeSlot_effect h (by simp [Slot.isVacant])

theorem complete_live (hk : t.kind = .operation) (h : s.cell t.key = some (.live op)) :
    Effect s (s.complete t).1 (Function.update s.cell t.key op.finish) ∧
      (s.complete t).2 = some op.payload := by
  have hslot := cell_eq_live.mp h
  simp only [complete, hk, ne_eq, not_true_eq_false, if_false, occupant_eq_some.mpr h,
    Occupant.finish]
  split
  · refine ⟨Effect.set _ hslot rfl (fun hwf => ?_) (fun g => ?_) (fun g => ?_), rfl⟩
    · exact hwf.setSlot hslot (by simp [Slot.isVacant])
        ⟨t.generation, .tombstone⟩ (by simp [Slot.isVacant]) rfl
    · by_cases hg : g = t.generation <;> simp [Slot.cellFor, Token.key, SlotState.cell, hg, Ne.symm]
    · simp [Slot.Issued, Slot.isVacant, Token.key]
  · exact ⟨vacate_effect hslot, rfl⟩

theorem complete_inert (h : t.kind = .operation → ∀ op, s.cell t.key ≠ some (.live op)) :
    s.complete t = (s, none) := by
  unfold complete
  split
  · rfl
  · rename_i hk
    rw [occupant_eq_none (h (not_not.mp hk))]

theorem settleCancel_pending (hk : t.kind = .cancel) (h : s.cell t.key = some c)
    (hc : c.cancelPending) (next : CancelState) :
    Effect s (s.settleCancel t next).1 (Function.update s.cell t.key (c.settle next)) ∧
      (s.settleCancel t next).2 = true := by
  cases c with
  | live op =>
    have hslot := slotFor_eq_some.mpr ⟨cell_eq_live.mp h, rfl⟩
    have hop : op.cancel = .pending := hc
    simp only [settleCancel, hk, ne_eq, not_true_eq_false, if_false, hslot, hop, if_true]
    exact ⟨setOccupant_effect h _, trivial⟩
  | tombstone =>
    have hslot := cell_eq_tombstone.mp h
    simp only [settleCancel, hk, ne_eq, not_true_eq_false, if_false,
      slotFor_eq_some.mpr ⟨hslot, rfl⟩]
    have heff := freeSlot_effect hslot (by simp [Slot.isVacant])
    simp only [Slot.isOccupied, Bool.toNat_false, Nat.sub_zero, ← freeSlot_occupied s t.key.index]
      at heff
    exact ⟨heff, trivial⟩

theorem setOccupant_setOccupant (s : RawSlab ws α) (t : Token ws) (op op' : Occupant α) :
    (s.setOccupant t op).setOccupant t op' = s.setOccupant t op' := by
  simp [setOccupant, setSlot]

theorem setOccupant_self (h : s.cell t.key = some (.live op)) : s.setOccupant t op = s := by
  have hslot := cell_eq_live.mp h
  have : s.slots.set t.index { generation := t.generation, state := .occupied op } = s.slots := by
    obtain ⟨hlt, heq⟩ := List.getElem?_eq_some_iff.mp hslot
    exact (congrArg (s.slots.set t.index) heq.symm).trans (List.set_getElem_self hlt)
  simp only [setOccupant, setSlot, this]

/-- A cancellation that could not be queued leaves no mark. -/
theorem registerCancel_retracted (hk : t.kind = .operation) (h : s.cell t.key = some (.live op))
    (hc : op.cancel = .neverRequested) :
    ((s.registerCancel t).1.cancelRequestNotEnqueued t.toCancel).1 = s := by
  have hmarked := (setOccupant_effect h { op with cancel := .pending }).cell
  have hslot : (s.setOccupant t { op with cancel := .pending }).slotFor t.toCancel =
      some { generation := t.generation, state := .occupied { op with cancel := .pending } } := by
    refine slotFor_eq_some.mpr ⟨?_, by simp⟩
    rw [Token.index_toCancel]
    exact cell_eq_live.mp ((congrFun hmarked t.key).trans (Function.update_self ..))
  simp only [registerCancel_live hk h hc, cancelRequestNotEnqueued, settleCancel,
    Token.kind_toCancel, ne_eq, not_true_eq_false, if_false, hslot, if_true]
  have hself : ({ op with cancel := .neverRequested } : Occupant α) = op := by rw [← hc]
  have htoken : ∀ s' : RawSlab ws α, s'.setOccupant t.toCancel op = s'.setOccupant t op := by
    simp [setOccupant]
  rw [hself, htoken, setOccupant_setOccupant, setOccupant_self h]

/-- Marks a pending cancellation as reported. -/
theorem completeCancel_live (h : s.cell t.key = some (.live op))
    (hc : op.cancel = .pending) :
    (s.completeCancel t.toCancel).1 = s.setOccupant t { op with cancel := .completed } := by
  have hslot : s.slotFor t.toCancel = some { generation := t.generation, state := .occupied op } := by
    refine slotFor_eq_some.mpr ⟨?_, by simp⟩
    rw [Token.index_toCancel]
    exact cell_eq_live.mp h
  simp only [completeCancel, settleCancel, Token.kind_toCancel, ne_eq, not_true_eq_false, if_false,
    hslot, hc, if_true]
  simp [setOccupant]

/-- Whichever of the two reports comes first, the second frees the slot. -/
theorem complete_completeCancel (hk : t.kind = .operation) (h : s.cell t.key = some (.live op))
    (hc : op.cancel = .pending) :
    ((s.complete t).1.completeCancel t.toCancel).1 =
      ((s.completeCancel t.toCancel).1.complete t).1 := by
  have hslot := cell_eq_live.mp h
  have hlt := (List.getElem?_eq_some_iff.mp hslot).1
  have hfirst : ((s.complete t).1.completeCancel t.toCancel).1 =
      { s.freeSlot t.index with occupied := s.occupied - 1 } := by
    have htomb : ((s.complete t).1).slotFor t.toCancel =
        some { generation := t.generation, state := .tombstone } := by
      refine slotFor_eq_some.mpr ⟨?_, by simp⟩
      simp only [complete, hk, ne_eq, not_true_eq_false, if_false, occupant_eq_some.mpr h, hc, if_true,
        setSlot, Token.index_toCancel]
      exact List.getElem?_set_self hlt
    simp only [completeCancel, settleCancel, Token.kind_toCancel, ne_eq, not_true_eq_false, if_false,
      htomb, Token.index_toCancel]
    simp only [complete, hk, ne_eq, not_true_eq_false, if_false, occupant_eq_some.mpr h, hc, if_true]
    exact freeSlot_setSlot hslot _ _
  have hmarked := (setOccupant_effect h { op with cancel := .completed }).cell
  have hlive : (s.setOccupant t { op with cancel := .completed }).cell t.key =
      some (.live { op with cancel := .completed }) := by
    rw [hmarked, Function.update_self]
  have hsecond : ((s.completeCancel t.toCancel).1.complete t).1 =
      { s.freeSlot t.index with occupied := s.occupied - 1 } := by
    rw [completeCancel_live h hc]
    simp only [complete, hk, ne_eq, not_true_eq_false, if_false, occupant_eq_some.mpr hlive,
      reduceCtorEq]
    refine (freeSlot_setSlot (cell_eq_live.mp hlive) _ _).trans ?_
    exact congrArg (fun r : RawSlab ws α => { r with occupied := s.occupied - 1 })
      (freeSlot_setSlot hslot (.occupied { op with cancel := .completed }) s.occupied)
  rw [hfirst, hsecond]

theorem settleCancel_inert
    (h : t.kind = .cancel → ∀ c, s.cell t.key = some c → ¬ c.cancelPending) (next : CancelState) :
    s.settleCancel t next = (s, false) := by
  unfold settleCancel
  split
  · rfl
  · rename_i hk
    replace h := h (not_not.mp hk)
    split
    · rename_i g op hslot
      obtain ⟨hslot, rfl⟩ := slotFor_eq_some.mp hslot
      have : op.cancel ≠ .pending := h _ (cell_eq_live.mpr hslot)
      rw [if_neg this]
    · rename_i g hslot
      obtain ⟨hslot, rfl⟩ := slotFor_eq_some.mp hslot
      exact absurd trivial (h _ (cell_eq_tombstone.mpr hslot))
    · rfl

theorem drainSlot_spec (hi : s.slots[i]? = some slot) :
    Effect s (s.drainSlot i).1 (Function.update s.cell ⟨i, slot.generation⟩
      ((slot.cellFor slot.generation).bind Cell.drained)) ∧
      (s.drainSlot i).2 = Slot.payload? slot := by
  obtain ⟨g, st⟩ := slot
  have hcell : s.cell ⟨i, g⟩ = st.cell := by simp [cell, hi, Slot.cellFor]
  cases st with
  | occupied op =>
    simp only [drainSlot, hi]
    exact ⟨by simpa [Slot.cellFor, SlotState.cell, Cell.drained] using vacate_effect hi, rfl⟩
  | _ =>
    simp only [drainSlot, hi, Slot.cellFor, if_true]
    refine ⟨?_, rfl⟩
    rw [Function.update_eq_self_iff.mpr]
    · exact .refl s
    · rw [hcell]
      rfl

theorem drainSlot_slots (s : RawSlab ws α) (h : j ≠ i) :
    (s.drainSlot i).1.slots[j]? = s.slots[j]? := by
  unfold drainSlot
  split
  · simp only [freeSlot, setSlot]
    split
    · exact List.getElem?_set_ne h.symm
    · split <;> simp [List.getElem?_set_ne h.symm]
  · rfl

/-- The loop invariant of `drain`. -/
structure DrainedUpTo (s s' : RawSlab ws α) (n : Nat) : Prop where
  effect : Effect s s' fun k => if k.index < n then (s.cell k).bind Cell.drained else s.cell k
  rest : ∀ i, n ≤ i → s'.slots[i]? = s.slots[i]?

theorem drainUpTo_spec (s : RawSlab ws α) (hn : n ≤ s.slots.length) :
    DrainedUpTo s (s.drainUpTo n).1 n ∧
      (s.drainUpTo n).2 = (s.slots.take n).filterMap Slot.payload? := by
  induction n with
  | zero => exact ⟨⟨.refl s, fun _ _ => rfl⟩, rfl⟩
  | succ n ih =>
    obtain ⟨⟨heff, hrest⟩, hout⟩ := ih (Nat.le_of_succ_le hn)
    have hi : s.slots[n]? = some s.slots[n] := List.getElem?_eq_getElem hn
    obtain ⟨hstep, hpay⟩ := drainSlot_spec ((hrest n le_rfl).trans hi)
    simp only [drainUpTo]
    refine ⟨⟨?_, fun i hle => ?_⟩, ?_⟩
    · convert heff.trans hstep using 1
      funext k
      by_cases hk : k.index = n
      · subst hk
        have hcell : s.cell k = s.slots[k.index].cellFor k.generation := by simp [cell, hi]
        by_cases hg : k.generation = s.slots[k.index].generation
        · rw [← hg, Function.update_self, hcell]
          simp
        · rw [Function.update_of_ne (fun he => hg (congrArg Key.generation he)), heff.cell]
          simp [hcell, Slot.cellFor, Ne.symm hg]
      · rw [Function.update_of_ne (fun he => hk (congrArg Key.index he)), heff.cell]
        simp only [show k.index < n + 1 ↔ k.index < n by omega]
    · rw [drainSlot_slots _ (by omega), hrest i (by omega)]
    · rw [hout, hpay, List.take_add_one, hi, List.filterMap_append]
      cases h : Slot.payload? s.slots[n] <;> simp [h]

theorem drain_spec (s : RawSlab ws α) :
    Effect s s.drain.1 (fun k => (s.cell k).bind Cell.drained) ∧
      s.drain.2 = s.slots.filterMap Slot.payload? := by
  obtain ⟨⟨heff, -⟩, hout⟩ := s.drainUpTo_spec le_rfl
  refine ⟨?_, by rw [drain, hout, List.take_length]⟩
  have hall : (fun k : Key => (s.cell k).bind Cell.drained) =
      fun k => if k.index < s.slots.length then (s.cell k).bind Cell.drained else s.cell k := by
    funext k
    split
    · rfl
    · rename_i hk
      simp [cell, List.getElem?_eq_none (Nat.le_of_not_lt hk)]
  exact hall ▸ heff

@[simp] theorem promote_generation (slot : Slot α) : slot.promote.generation = slot.generation := by
  obtain ⟨g, st⟩ := slot
  cases st <;> rfl

@[simp] theorem promote_isVacant (slot : Slot α) : slot.promote.isVacant = slot.isVacant := by
  obtain ⟨g, st⟩ := slot
  cases st <;> rfl

@[simp] theorem promote_isOccupied (slot : Slot α) : slot.promote.isOccupied = slot.isOccupied := by
  obtain ⟨g, st⟩ := slot
  cases st <;> rfl

theorem promote_cellFor (slot : Slot α) (g : Nat) :
    slot.promote.cellFor g = (slot.cellFor g).map Cell.promote := by
  obtain ⟨g', st⟩ := slot
  simp only [Slot.cellFor, promote_generation]
  split
  · cases st <;> rfl
  · rfl

theorem promote_wf (h : s.WellFormed) : s.promoteBuiltToSubmitted.WellFormed := by
  obtain ⟨free, hfree, hnodup, hmem⟩ := h.freeList
  refine ⟨⟨free, ?_, hnodup, fun i => ?_⟩, ?_, ?_, ?_⟩
  · exact hfree.map fun slot hvac => by
      obtain ⟨g, st⟩ := slot
      cases st <;> first | rfl | cases hvac
  · rw [hmem i]
    simp [promoteBuiltToSubmitted]
  · simp only [promoteBuiltToSubmitted, h.occupied, List.countP_map]
    exact congrArg (List.countP · s.slots) (funext fun slot => (promote_isOccupied slot).symm)
  · simpa [promoteBuiltToSubmitted] using h.length
  · simpa [promoteBuiltToSubmitted] using h.generation

theorem promote_effect (s : RawSlab ws α) :
    Effect s s.promoteBuiltToSubmitted fun k => (s.cell k).map Cell.promote := by
  refine ⟨promote_wf, funext fun k => ?_, fun k => ?_⟩
  · simp only [cell, promoteBuiltToSubmitted, List.getElem?_map]
    cases s.slots[k.index]? <;> simp [promote_cellFor]
  · simp [Issued, promoteBuiltToSubmitted, Slot.Issued]

-- ---------------------------------------------------------------------------
-- Insertion
-- ---------------------------------------------------------------------------

/-- What a successful insert returns and leaves behind. -/
structure Inserted (s s' : RawSlab ws α) (p : α) (t : Token ws) : Prop where
  wf : s'.WellFormed
  kind : t.kind = .operation
  generation : firstGeneration ≤ t.generation
  unissued : ¬ s.Issued t.key
  cell : s'.cell = Function.update s.cell t.key (some (.live (.fresh p)))
  issued : ∀ k, s'.Issued k ↔ s.Issued k ∨ k = t.key

/-- Filling a vacant slot. -/
theorem inserted_of_set {s' : RawSlab ws α} (hwf : s'.WellFormed)
    (hi : s.slots[i]? = some ⟨g, .vacant next⟩)
    (hslots : s'.slots = s.slots.set i ⟨g, .occupied (.fresh p)⟩) :
    Inserted s s' p (Token.new .operation i g) := by
  have hlt := (List.getElem?_eq_some_iff.mp hi).1
  have hfull : s'.slots[i]? = some ⟨g, .occupied (.fresh p)⟩ := by
    rw [hslots, List.getElem?_set_self hlt]
  have hindex := hwf.index_lt hfull
  obtain ⟨hgen, hmask⟩ := hwf.generation_of hfull
  have hkey : (Token.new .operation i g : Token ws).key = ⟨i, g⟩ := by
    simp [Token.key, Token.index_new_of_lt hindex, Token.generation_new_of_le hmask]
  refine ⟨hwf, Token.kind_new .., ?_, ?_, ?_, fun k => ?_⟩
  · rwa [Token.generation_new_of_le hmask]
  · rw [hkey]
    rintro ⟨slot, hslot, -, hissued⟩
    simp only [hi, Option.some.injEq] at hslot
    subst hslot
    simp [Slot.isVacant] at hissued
  · rw [hkey]
    refine cell_set hi hslots fun h => ?_
    by_cases hg : h = g <;> simp [Slot.cellFor, SlotState.cell, hg, Ne.symm]
  · rw [issued_set hi hslots k, hkey]
    by_cases hk : k.index = i
    · subst hk
      simp only at hgen
      simp only [if_true, Issued, hi, Option.some.injEq, exists_eq_left', Slot.Issued,
        Slot.isVacant, Key.ext_iff, true_and, not_true_eq_false, and_false, or_false,
        Bool.false_eq_true, not_false_eq_true, and_true]
      omega
    · simp [hk, Key.ext_iff]

/-- The storage invariant once the slot `allocate` chose has been filled. -/
theorem fill_wf (hfree : FreeList s.slots head rest) (hnodup : rest.Nodup)
    (hmem : ∀ j, j ∈ rest ↔ j ≠ i ∧ ∃ slot, s.slots[j]? = some slot ∧ slot.isVacant)
    (hi : s.slots[i]? = some ⟨g, .vacant next⟩)
    (hocc : s.occupied = s.slots.countP Slot.isOccupied) (hlen : s.slots.length ≤ maxSlots)
    (hgen : ∀ slot ∈ s.slots, firstGeneration ≤ slot.generation ∧
      slot.generation ≤ generationMask ws) (op : Occupant α) :
    ({ s.setSlot i ⟨g, .occupied op⟩ with freeHead := head, occupied := s.occupied + 1 } :
      RawSlab ws α).WellFormed := by
  have hlt := (List.getElem?_eq_some_iff.mp hi).1
  refine ⟨⟨rest, hfree.set (fun hin => ((hmem i).mp hin).1 rfl) _, hnodup, fun j => ?_⟩, ?_, ?_, ?_⟩
  · rw [hmem j]
    by_cases hj : i = j
    · subst hj
      simp [setSlot, List.getElem?_set_self hlt, Slot.isVacant]
    · simp [setSlot, List.getElem?_set_ne hj, Ne.symm hj]
  · simp only [setSlot, WellFormed.countP_set hi, hocc]
    rfl
  · simpa [setSlot] using hlen
  · intro slot hslot
    rcases List.mem_or_eq_of_mem_set hslot with hslot | rfl
    · exact hgen slot hslot
    · exact hgen ⟨g, .vacant next⟩ (List.mem_of_getElem? hi)

/-- An insert never meets an occupied slot on the free list: it fills a fresh
key, or reports a full slab and changes nothing. -/
theorem insert_spec (h : s.WellFormed) (p : α) :
    s.insert p = some (s, .error p) ∨
      ∃ s' t, s.insert p = some (s', .ok t) ∧ Inserted s s' p t := by
  obtain ⟨free, hfree, hnodup, hmem⟩ := h.freeList
  cases hhead : s.freeHead with
  | some i =>
    rw [hhead] at hfree
    cases hfree with
    | @cons _ next rest g hi htail =>
      obtain ⟨hnot, hnodup⟩ := List.nodup_cons.mp hnodup
      have hmem' : ∀ j, j ∈ rest ↔ j ≠ i ∧ ∃ slot, s.slots[j]? = some slot ∧ slot.isVacant := by
        intro j
        rw [← hmem j, List.mem_cons]
        constructor
        · intro hj
          refine ⟨?_, .inr hj⟩
          rintro rfl
          exact hnot hj
        · exact fun hj => hj.2.resolve_left hj.1
      have hwf := fill_wf htail hnodup hmem' hi h.occupied h.length h.generation (.fresh p)
      exact .inr ⟨_, _, by simp [insert, allocate, hhead, hi, setSlot, Occupant.fresh],
        inserted_of_set hwf hi rfl⟩
  | none =>
    rw [hhead] at hfree
    cases hfree
    by_cases hlen : s.slots.length ≥ maxSlots
    · exact .inl (by simp [insert, allocate, hhead, hlen])
    · -- The storage grows by one vacant slot, which has issued nothing.
      let grown : RawSlab ws α :=
        { s with slots := s.slots ++ [⟨firstGeneration, .vacant none⟩] }
      have hi : grown.slots[s.slots.length]? = some ⟨firstGeneration, .vacant none⟩ := by
        simp [grown]
      have hgrown : ∀ k : Key, k.index ≠ s.slots.length → grown.slots[k.index]? = s.slots[k.index]? := by
        intro k hk
        simp only [grown, List.getElem?_append]
        split
        · rfl
        · rw [List.getElem?_eq_none (by simp; omega), List.getElem?_eq_none (by omega)]
      have hcell : grown.cell = s.cell := by
        funext k
        by_cases hk : k.index = s.slots.length
        · simp [cell, hk, hi, Slot.cellFor, SlotState.cell]
        · simp only [cell, hgrown k hk]
      have hissued : ∀ k, grown.Issued k ↔ s.Issued k := by
        intro k
        by_cases hk : k.index = s.slots.length
        · simp [Issued, hk, hi, Slot.Issued, Slot.isVacant]
        · simp only [Issued, hgrown k hk]
      have hvacant : ∀ j, j ∈ ([] : List Nat) ↔ j ≠ s.slots.length ∧
          ∃ slot, grown.slots[j]? = some slot ∧ slot.isVacant := by
        intro j
        simp only [List.not_mem_nil, false_iff, not_and]
        intro hj hex
        rw [hgrown ⟨j, 0⟩ hj] at hex
        exact List.not_mem_nil ((hmem j).mpr hex)
      have hwf := fill_wf .nil List.nodup_nil hvacant hi
        (by simp [grown, h.occupied, Slot.isOccupied]) (by simp [grown]; omega)
        (by
          intro slot hslot
          rcases List.mem_append.mp hslot with hslot | hslot
          · exact h.generation slot hslot
          · obtain rfl := List.mem_singleton.mp hslot
            exact ⟨le_rfl, Token.firstGeneration_le_mask ws⟩)
        (.fresh p)
      obtain ⟨hwf, hkind, hgen, hun, hc, hiss⟩ := inserted_of_set hwf hi rfl
      refine .inr ⟨_, _, by simp [insert, allocate, hhead, hlen, setSlot, Occupant.fresh, grown],
        ⟨hwf, hkind, hgen, (hissued _).not.mp hun, hcell ▸ hc, fun k => ?_⟩⟩
      rw [hiss k, hissued k]

end RawSlab

end WinIoring.Slab
