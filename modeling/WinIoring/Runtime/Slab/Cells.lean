import WinIoring.Runtime.Slab.OpSlab

/-!
# The slab as a map

What the slab is for: a partial map from operation keys to live or tombstoned
operations, whose keys are never issued twice. The storage invariant makes that
reading possible; it is carried by `OpSlab`, so no later proof mentions the free
list.
-/

namespace WinIoring.Slab

variable {ws : WordSize} {α : Type u}

/-- A slot index and the generation it was issued in: a token without its
kind. -/
@[ext] structure Key where
  index : Nat
  generation : Nat
  deriving DecidableEq

def Token.key (t : Token ws) : Key := ⟨t.index, t.generation⟩

@[simp] theorem Token.key_toCancel (t : Token ws) : t.toCancel.key = t.key := by
  simp [key]

@[simp] theorem Token.key_toOperation (t : Token ws) : t.toOperation.key = t.key := by
  simp [key]

theorem Token.ext_key {t u : Token ws} (hk : t.kind = u.kind) (h : t.key = u.key) : t = u :=
  Token.ext_fields hk (congrArg Key.index h) (congrArg Key.generation h)

/-- What the slab tracks under a key. -/
inductive Cell (α : Type u) where
  | live (op : Occupant α)
  | tombstone

def SlotState.cell : SlotState α → Option (Cell α)
  | .occupied op => some (.live op)
  | .tombstone => some .tombstone
  | .vacant _ | .retired => none

def Slot.cellFor (slot : Slot α) (generation : Nat) : Option (Cell α) :=
  if slot.generation = generation then slot.state.cell else none

def Slot.isOccupied (slot : Slot α) : Bool :=
  match slot.state with
  | .occupied _ => true
  | _ => false

def Slot.isVacant (slot : Slot α) : Bool :=
  match slot.state with
  | .vacant _ => true
  | _ => false

/-- Whether a slot has been filled in this generation. -/
def Slot.Issued (slot : Slot α) (generation : Nat) : Prop :=
  firstGeneration ≤ generation ∧
    (generation < slot.generation ∨ generation = slot.generation ∧ ¬ slot.isVacant)

namespace RawSlab

def cell (s : RawSlab ws α) (k : Key) : Option (Cell α) :=
  s.slots[k.index]?.bind fun slot => slot.cellFor k.generation

/-- Whether the slab has ever handed this key out. -/
def Issued (s : RawSlab ws α) (k : Key) : Prop :=
  ∃ slot, s.slots[k.index]? = some slot ∧ slot.Issued k.generation

end RawSlab

-- ---------------------------------------------------------------------------
-- The storage invariant
-- ---------------------------------------------------------------------------

/-- The chain of vacant slots that starts at a head. -/
inductive FreeList (slots : List (Slot α)) : Option Nat → List Nat → Prop
  | nil : FreeList slots none []
  | cons (hslot : slots[i]? = some ⟨g, .vacant next⟩) (htail : FreeList slots next rest) :
    FreeList slots (some i) (i :: rest)

namespace FreeList

variable {slots : List (Slot α)}

/-- Writing to a slot that is not on the list leaves the list alone. -/
theorem set (h : FreeList slots head free) (hi : i ∉ free) (slot : Slot α) :
    FreeList (slots.set i slot) head free := by
  induction h with
  | nil => exact .nil
  | cons hslot _ ih =>
    simp only [List.mem_cons, not_or] at hi
    exact .cons ((List.getElem?_set_ne hi.1).trans hslot) (ih hi.2)

theorem append (h : FreeList slots head free) (more : List (Slot α)) :
    FreeList (slots ++ more) head free := by
  induction h with
  | nil => exact .nil
  | cons hslot _ ih =>
    obtain ⟨hlt, -⟩ := List.getElem?_eq_some_iff.mp hslot
    exact .cons ((List.getElem?_append_left hlt).trans hslot) ih

/-- A rewrite of every slot that leaves the vacant ones alone. -/
theorem map {f : Slot α → Slot α} (h : FreeList slots head free)
    (hf : ∀ slot, slot.isVacant → f slot = slot) : FreeList (slots.map f) head free := by
  induction h with
  | nil => exact .nil
  | cons hslot _ ih =>
    exact .cons (by rw [List.getElem?_map, hslot, Option.map_some, hf _ rfl]) ih

end FreeList

namespace RawSlab

structure WellFormed (s : RawSlab ws α) : Prop where
  /-- The free list is acyclic and lists exactly the vacant slots. -/
  freeList : ∃ free, FreeList s.slots s.freeHead free ∧ free.Nodup ∧
    ∀ i, i ∈ free ↔ ∃ slot, s.slots[i]? = some slot ∧ slot.isVacant
  occupied : s.occupied = s.slots.countP Slot.isOccupied
  length : s.slots.length ≤ maxSlots
  generation : ∀ slot ∈ s.slots, firstGeneration ≤ slot.generation ∧
    slot.generation ≤ generationMask ws

namespace WellFormed

variable {s : RawSlab ws α} {i : Nat}

theorem new : (RawSlab.new : RawSlab ws α).WellFormed where
  freeList := ⟨[], .nil, List.nodup_nil, by simp [RawSlab.new]⟩
  occupied := rfl
  length := Nat.zero_le _
  generation := by simp [RawSlab.new]

theorem index_lt (h : s.WellFormed) (hi : s.slots[i]? = some slot) : i < maxSlots :=
  Nat.lt_of_lt_of_le (List.getElem?_eq_some_iff.mp hi).1 h.length

theorem generation_of (h : s.WellFormed) {slot : Slot α} (hi : s.slots[i]? = some slot) :
    firstGeneration ≤ slot.generation ∧ slot.generation ≤ generationMask ws :=
  h.generation slot (List.mem_of_getElem? hi)

theorem occupied_pos (h : s.WellFormed) {slot : Slot α} (hi : s.slots[i]? = some slot) (hocc : slot.isOccupied) :
    0 < s.occupied := by
  rw [h.occupied]
  exact List.countP_pos_iff.mpr ⟨slot, List.mem_of_getElem? hi, hocc⟩

theorem countP_set (hi : s.slots[i]? = some old) (slot : Slot α) :
    (s.slots.set i slot).countP Slot.isOccupied =
      s.slots.countP Slot.isOccupied - old.isOccupied.toNat + slot.isOccupied.toNat := by
  obtain ⟨hlt, rfl⟩ := List.getElem?_eq_some_iff.mp hi
  rw [List.countP_set hlt]
  cases s.slots[i].isOccupied <;> cases slot.isOccupied <;> rfl

theorem generation_set (h : s.WellFormed) {slot : Slot α}
    (hg : firstGeneration ≤ slot.generation ∧ slot.generation ≤ generationMask ws) :
    ∀ x ∈ s.slots.set i slot, firstGeneration ≤ x.generation ∧
      x.generation ≤ generationMask ws := by
  intro x hx
  rcases List.mem_or_eq_of_mem_set hx with hx | rfl
  · exact h.generation x hx
  · exact hg

/-- Rewriting a slot that is not vacant, to one that is not, in the same
generation. -/
theorem setSlot (h : s.WellFormed) (hi : s.slots[i]? = some old) (hold : ¬ old.isVacant)
    (slot : Slot α) (hnew : ¬ slot.isVacant) (hg : slot.generation = old.generation) :
    ({ s.setSlot i slot with
        occupied := s.occupied - old.isOccupied.toNat + slot.isOccupied.toNat } :
      RawSlab ws α).WellFormed := by
  obtain ⟨free, hfree, hnodup, hmem⟩ := h.freeList
  have hnot : i ∉ free := by
    intro hin
    obtain ⟨x, hx, hvac⟩ := (hmem i).mp hin
    rw [hi] at hx
    exact hold (Option.some.inj hx ▸ hvac)
  refine ⟨⟨free, hfree.set hnot slot, hnodup, ?_⟩, ?_, ?_, ?_⟩
  · intro j
    rw [hmem j]
    by_cases hj : i = j
    · subst hj
      have hlt := (List.getElem?_eq_some_iff.mp hi).1
      simp only [hi, RawSlab.setSlot, List.getElem?_set_self hlt, Option.some.injEq,
        exists_eq_left']
      exact ⟨fun hv => absurd hv hold, fun hv => absurd hv hnew⟩
    · simp only [RawSlab.setSlot, List.getElem?_set_ne hj]
  · simp only [RawSlab.setSlot, countP_set hi, h.occupied]
  · simpa [RawSlab.setSlot] using h.length
  · exact h.generation_set (hg ▸ h.generation_of hi)

/-- Freeing a slot that is not vacant. -/
theorem freeSlot (h : s.WellFormed) (hi : s.slots[i]? = some old) (hold : ¬ old.isVacant) :
    ({ s.freeSlot i with occupied := s.occupied - old.isOccupied.toNat } :
      RawSlab ws α).WellFormed := by
  by_cases hmax : old.generation ≥ generationMask ws
  · have hretired := h.setSlot hi hold { old with state := .retired } (by simp [Slot.isVacant]) rfl
    simpa [RawSlab.freeSlot, hi, hmax, Slot.isOccupied] using hretired
  · obtain ⟨free, hfree, hnodup, hmem⟩ := h.freeList
    have hlt := (List.getElem?_eq_some_iff.mp hi).1
    have hnot : i ∉ free := by
      intro hin
      obtain ⟨x, hx, hvac⟩ := (hmem i).mp hin
      rw [hi] at hx
      exact hold (Option.some.inj hx ▸ hvac)
    simp only [RawSlab.freeSlot, hi, hmax, if_false]
    refine ⟨⟨i :: free, ?_, List.nodup_cons.mpr ⟨hnot, hnodup⟩, ?_⟩, ?_, ?_, ?_⟩
    · exact .cons (List.getElem?_set_self hlt) (hfree.set hnot _)
    · intro j
      by_cases hj : i = j
      · subst hj
        simp [RawSlab.setSlot, List.getElem?_set_self hlt, Slot.isVacant]
      · simp only [RawSlab.setSlot, List.getElem?_set_ne hj, List.mem_cons, hmem j]
        exact ⟨fun hor => hor.resolve_left (fun he => hj he.symm), .inr⟩
    · simp only [RawSlab.setSlot, countP_set hi, h.occupied]
      rfl
    · simpa [RawSlab.setSlot] using h.length
    · have := h.generation_of hi
      exact h.generation_set ⟨by simp only; omega, by simp only; omega⟩

end WellFormed

-- ---------------------------------------------------------------------------
-- What one operation does to the map
-- ---------------------------------------------------------------------------

/-- An operation that issues nothing: it keeps the storage invariant and leaves
the slab holding `cells`. -/
structure Effect (s s' : RawSlab ws α) (cells : Key → Option (Cell α)) : Prop where
  wf : s.WellFormed → s'.WellFormed
  cell : s'.cell = cells
  issued : ∀ k, s'.Issued k ↔ s.Issued k

variable {s : RawSlab ws α} {t : Token ws}

theorem Effect.refl (s : RawSlab ws α) : Effect s s s.cell := ⟨id, rfl, fun _ => Iff.rfl⟩

theorem cell_eq_some : s.cell k = some c ↔
    ∃ st, s.slots[k.index]? = some ⟨k.generation, st⟩ ∧ st.cell = some c := by
  constructor
  · intro h
    obtain ⟨slot, hslot, hcell⟩ := Option.bind_eq_some_iff.mp h
    simp only [Slot.cellFor] at hcell
    split at hcell
    · rename_i hg
      exact ⟨slot.state, by rw [hslot, ← hg], hcell⟩
    · cases hcell
  · rintro ⟨st, hslot, hst⟩
    simp [cell, hslot, Slot.cellFor, hst]

theorem cell_eq_live : s.cell k = some (.live op) ↔
    s.slots[k.index]? = some ⟨k.generation, .occupied op⟩ := by
  rw [cell_eq_some]
  constructor
  · rintro ⟨st, hslot, hst⟩
    cases st <;> simp [SlotState.cell] at hst
    rwa [hst] at hslot
  · intro hslot
    exact ⟨_, hslot, rfl⟩

theorem cell_eq_tombstone : s.cell k = some .tombstone ↔
    s.slots[k.index]? = some ⟨k.generation, .tombstone⟩ := by
  rw [cell_eq_some]
  constructor
  · rintro ⟨st, hslot, hst⟩
    cases st <;> simp [SlotState.cell] at hst
    exact hslot
  · intro hslot
    exact ⟨_, hslot, rfl⟩

theorem slotFor_eq_some : s.slotFor t = some slot ↔
    s.slots[t.index]? = some slot ∧ slot.generation = t.generation := by
  cases hx : s.slots[t.index]? with
  | none => simp [slotFor, hx]
  | some x =>
    by_cases hg : x.generation = t.generation <;> simp only [slotFor, hx, hg, if_true, if_false]
    · exact (and_iff_left_of_imp fun h => Option.some.inj h ▸ hg).symm
    · refine iff_of_false (fun h => nomatch h) fun h => hg ?_
      rw [Option.some.inj h.1]
      exact h.2

theorem occupant_eq_some : s.occupant t = some op ↔ s.cell t.key = some (.live op) := by
  rw [cell_eq_live]
  unfold occupant
  split
  · rename_i x g hslot
    obtain ⟨h, rfl⟩ := slotFor_eq_some.mp hslot
    simp [Token.key, h]
  · rename_i hno
    simp only [reduceCtorEq, false_iff]
    exact fun h => hno _ _ (slotFor_eq_some.mpr ⟨h, rfl⟩)

theorem occupant_eq_none (h : ∀ op, s.cell t.key ≠ some (.live op)) : s.occupant t = none := by
  cases hocc : s.occupant t with
  | none => rfl
  | some op => exact absurd (occupant_eq_some.mp hocc) (h op)

/-- A live or tombstoned key has been issued. -/
theorem issued_of_cell (h : s.WellFormed) (hc : s.cell k = some c) : s.Issued k := by
  obtain ⟨st, hslot, hst⟩ := cell_eq_some.mp hc
  refine ⟨_, hslot, (h.generation_of hslot).1, .inr ⟨rfl, ?_⟩⟩
  cases st <;> simp_all [SlotState.cell, Slot.isVacant]

/-- Writing a slot that changes one generation's cell. -/
theorem cell_set {s' : RawSlab ws α} {slot : Slot α} (hold : s.slots[i]? = some old)
    (hslots : s'.slots = s.slots.set i slot)
    (hcell : ∀ h, slot.cellFor h = if h = g then c else old.cellFor h) :
    s'.cell = Function.update s.cell ⟨i, g⟩ c := by
  have hlt := (List.getElem?_eq_some_iff.mp hold).1
  refine funext fun k => ?_
  by_cases hk : k.index = i
  · subst hk
    simp only [cell, hslots, List.getElem?_set_self hlt, Option.bind_some, hcell]
    by_cases hg : k.generation = g
    · subst hg
      simp
    · rw [if_neg hg, Function.update_of_ne (fun he => hg (congrArg Key.generation he))]
      simp [cell, hold]
  · rw [Function.update_of_ne (fun he => hk (congrArg Key.index he))]
    simp [cell, hslots, List.getElem?_set_ne (Ne.symm hk)]

theorem issued_set {s' : RawSlab ws α} {slot : Slot α} (hold : s.slots[i]? = some old)
    (hslots : s'.slots = s.slots.set i slot) (k : Key) :
    s'.Issued k ↔ if k.index = i then slot.Issued k.generation else s.Issued k := by
  have hlt := (List.getElem?_eq_some_iff.mp hold).1
  by_cases hk : k.index = i
  · subst hk
    simp [Issued, hslots, List.getElem?_set_self hlt]
  · simp [Issued, hslots, List.getElem?_set_ne (Ne.symm hk), hk]

/-- Writing a slot that issues nothing. -/
theorem Effect.set {s' : RawSlab ws α} (slot : Slot α) (hold : s.slots[i]? = some old)
    (hslots : s'.slots = s.slots.set i slot) (hwf : s.WellFormed → s'.WellFormed)
    (hcell : ∀ h, slot.cellFor h = if h = g then c else old.cellFor h)
    (hissued : ∀ h, slot.Issued h ↔ old.Issued h) :
    Effect s s' (Function.update s.cell ⟨i, g⟩ c) := by
  refine ⟨hwf, cell_set hold hslots hcell, fun k => ?_⟩
  rw [issued_set hold hslots k]
  split
  · rename_i hk
    subst hk
    simp [RawSlab.Issued, hold, hissued]
  · rfl

theorem setOccupant_effect (h : s.cell t.key = some (.live old)) (op : Occupant α) :
    Effect s (s.setOccupant t op) (Function.update s.cell t.key (some (.live op))) := by
  have hslot := cell_eq_live.mp h
  refine Effect.set _ hslot rfl (fun hwf => ?_) (fun g => ?_) (fun g => ?_)
  · have hpos := hwf.occupied_pos hslot rfl
    have := hwf.setSlot hslot (by simp [Slot.isVacant])
      { generation := t.generation, state := .occupied op } (by simp [Slot.isVacant]) rfl
    simp only [Slot.isOccupied, Bool.toNat_true, Nat.sub_add_cancel hpos] at this
    exact this
  · by_cases hg : g = t.generation <;> simp [Slot.cellFor, Token.key, SlotState.cell, hg, Ne.symm]
  · simp [Slot.Issued, Slot.isVacant, Token.key]

/-- Freeing a live or tombstoned slot forgets its key. -/
theorem freeSlot_effect (h : s.slots[i]? = some old) (hold : ¬ old.isVacant) :
    Effect s { s.freeSlot i with occupied := s.occupied - old.isOccupied.toNat }
      (Function.update s.cell ⟨i, old.generation⟩ none) := by
  have hwf := fun hwf : s.WellFormed => hwf.freeSlot h hold
  obtain ⟨generation, st⟩ := old
  by_cases hmax : generation ≥ generationMask ws
  · refine Effect.set ⟨generation, .retired⟩ h ?_ hwf (fun g => ?_) (fun g => ?_)
    · simp [freeSlot, h, hmax, setSlot]
    · by_cases hg : g = generation <;> simp [Slot.cellFor, SlotState.cell, hg, Ne.symm]
    · simp only [Slot.Issued, hold]
      rfl
  · refine Effect.set ⟨generation + 1, .vacant s.freeHead⟩ h ?_ hwf (fun g => ?_)
      (fun g => ?_)
    · simp [freeSlot, h, hmax, setSlot]
    · by_cases hg : g = generation <;> simp [Slot.cellFor, SlotState.cell, hg, Ne.symm]
    · have hvac : (⟨generation + 1, .vacant s.freeHead⟩ : Slot α).isVacant = true := rfl
      simp only [Slot.Issued, hvac, not_true_eq_false, and_false, or_false, and_iff_left hold]
      omega

end RawSlab

end WinIoring.Slab
