import WinIoring.Runtime.Slab.Spec

/-!
# The slab with its invariant

`OpSlab` carries the storage invariant, so the driver model never meets a broken
free list and an insert never fails for want of one. The lemmas restate each
operation's effect on the map; nothing above this module opens the storage.
-/

namespace WinIoring.Slab

variable {ws : WordSize} {α : Type u}

/-- Driver-owned storage for in-flight operations. -/
structure OpSlab (ws : WordSize) (α : Type u) where
  raw : RawSlab ws α
  wf : raw.WellFormed

namespace RawSlab

theorem Effect.self (s : RawSlab ws α) (k : Key) :
    ∃ c, Effect s s (Function.update s.cell k c) := by
  refine ⟨s.cell k, ?_⟩
  rw [Function.update_eq_self]
  exact .refl s

/-- An operation on a token changes that token's cell only, whatever it is aimed
at. -/
theorem payloadMut_effect (s : RawSlab ws α) (t : Token ws) (f : α → α) :
    ∃ c, Effect s (s.payloadMut t f) (Function.update s.cell t.key c) := by
  by_cases h : ∃ op, s.cell t.key = some (.live op)
  · obtain ⟨op, h⟩ := h
    rw [payloadMut_live h]
    exact ⟨_, setOccupant_effect h _⟩
  · simp only [payloadMut, occupant_eq_none (not_exists.mp h)]
    exact Effect.self s t.key

theorem setLifecycle_effect (s : RawSlab ws α) (t : Token ws) (next : Lifecycle) :
    ∃ c, Effect s (s.setLifecycle t next).1 (Function.update s.cell t.key c) := by
  by_cases h : ∃ op, s.cell t.key = some (.live op)
  · obtain ⟨op, h⟩ := h
    exact ⟨_, setLifecycle_live h next⟩
  · rw [setLifecycle_inert (not_exists.mp h)]
    exact Effect.self s t.key

theorem detach_effect (s : RawSlab ws α) (t : Token ws) :
    ∃ c, Effect s (s.detach t).1 (Function.update s.cell t.key c) := by
  by_cases h : ∃ op, s.cell t.key = some (.live op)
  · obtain ⟨op, h⟩ := h
    rw [detach_live h]
    exact ⟨_, setOccupant_effect h _⟩
  · rw [detach_inert (not_exists.mp h)]
    exact Effect.self s t.key

theorem registerCancel_effect (s : RawSlab ws α) (t : Token ws) :
    ∃ c, Effect s (s.registerCancel t).1 (Function.update s.cell t.key c) := by
  by_cases h : t.kind = .operation ∧
      ∃ op, s.cell t.key = some (.live op) ∧ op.cancel = .neverRequested
  · obtain ⟨hk, op, hop, hc⟩ := h
    rw [registerCancel_live hk hop hc]
    exact ⟨_, setOccupant_effect hop _⟩
  · rw [registerCancel_inert fun hk op hop hc => h ⟨hk, op, hop, hc⟩]
    exact Effect.self s t.key

theorem settleCancel_effect (s : RawSlab ws α) (t : Token ws) (next : CancelState) :
    ∃ c, Effect s (s.settleCancel t next).1 (Function.update s.cell t.key c) := by
  by_cases h : t.kind = .cancel ∧ ∃ c, s.cell t.key = some c ∧ c.cancelPending
  · obtain ⟨hk, c, hc, hp⟩ := h
    exact ⟨_, (settleCancel_pending hk hc hp next).1⟩
  · rw [settleCancel_inert fun hk c hc hp => h ⟨hk, c, hc, hp⟩]
    exact Effect.self s t.key

theorem complete_effect (s : RawSlab ws α) (t : Token ws) :
    ∃ c, Effect s (s.complete t).1 (Function.update s.cell t.key c) := by
  by_cases h : t.kind = .operation ∧ ∃ op, s.cell t.key = some (.live op)
  · obtain ⟨hk, op, hop⟩ := h
    exact ⟨_, (complete_live hk hop).1⟩
  · rw [complete_inert fun hk op hop => h ⟨hk, op, hop⟩]
    exact Effect.self s t.key

theorem Effect.cell_of_ne {s s' : RawSlab ws α} (h : Effect s s' (Function.update s.cell k' c))
    (hk : k ≠ k') : s'.cell k = s.cell k := by
  rw [h.cell, Function.update_of_ne hk]

theorem insert_isSome {s : RawSlab ws α} (h : s.WellFormed) (p : α) : (s.insert p).isSome := by
  rcases insert_spec h p with he | ⟨s', t, he, -⟩ <;> rw [he] <;> rfl

/-- The storage grows one slot at a time. -/
theorem length_insert {s s' : RawSlab ws α} {p : α} {r : Except α (Token ws)}
    (h : s.insert p = some (s', r)) : s'.slots.length ≤ s.slots.length + 1 := by
  have hallocate : ∀ {s₁ : RawSlab ws α} {i : Nat}, s.allocate = some (some (s₁, i)) →
      s₁.slots.length ≤ s.slots.length + 1 := by
    intro s₁ i ha
    unfold allocate at ha
    split at ha
    · split at ha
      · cases ha
        exact Nat.le_succ _
      · cases ha
    · split at ha
      · cases ha
      · cases ha
        simp
  unfold insert at h
  split at h
  · cases h
  · cases h
    exact Nat.le_succ _
  · rename_i ha
    split at h
    · cases h
    · cases h
      simpa [setSlot] using hallocate ha

theorem insert_wf {s : RawSlab ws α} (h : s.WellFormed) (p : α) :
    ((s.insert p).get (insert_isSome h p)).1.WellFormed := by
  rcases insert_spec h p with he | ⟨s', t, he, hins⟩ <;> simp only [he, Option.get_some]
  · exact h
  · exact hins.wf

end RawSlab

namespace OpSlab

-- ---------------------------------------------------------------------------
-- The operations
-- ---------------------------------------------------------------------------

def new : OpSlab ws α := ⟨.new, .new⟩

def cell (s : OpSlab ws α) (k : Key) : Option (Cell α) := s.raw.cell k

def Issued (s : OpSlab ws α) (k : Key) : Prop := s.raw.Issued k

def insert (s : OpSlab ws α) (p : α) : OpSlab ws α × Except α (Token ws) :=
  let r := (s.raw.insert p).get (RawSlab.insert_isSome s.wf p)
  (⟨r.1, RawSlab.insert_wf s.wf p⟩, r.2)

def payloadMut (s : OpSlab ws α) (t : Token ws) (f : α → α) : OpSlab ws α :=
  ⟨s.raw.payloadMut t f, (s.raw.payloadMut_effect t f).elim fun _ h => h.wf s.wf⟩

def setLifecycle (s : OpSlab ws α) (t : Token ws) (next : Lifecycle) : OpSlab ws α × Bool :=
  (⟨(s.raw.setLifecycle t next).1, (s.raw.setLifecycle_effect t next).elim fun _ h => h.wf s.wf⟩,
    (s.raw.setLifecycle t next).2)

def detach (s : OpSlab ws α) (t : Token ws) : OpSlab ws α × Option Lifecycle :=
  (⟨(s.raw.detach t).1, (s.raw.detach_effect t).elim fun _ h => h.wf s.wf⟩, (s.raw.detach t).2)

def registerCancel (s : OpSlab ws α) (t : Token ws) : OpSlab ws α × Option (Token ws) :=
  (⟨(s.raw.registerCancel t).1, (s.raw.registerCancel_effect t).elim fun _ h => h.wf s.wf⟩,
    (s.raw.registerCancel t).2)

def cancelRequestNotEnqueued (s : OpSlab ws α) (t : Token ws) : OpSlab ws α × Bool :=
  (⟨(s.raw.cancelRequestNotEnqueued t).1,
      (s.raw.settleCancel_effect t _).elim fun _ h => h.wf s.wf⟩,
    (s.raw.cancelRequestNotEnqueued t).2)

def complete (s : OpSlab ws α) (t : Token ws) : OpSlab ws α × Option α :=
  (⟨(s.raw.complete t).1, (s.raw.complete_effect t).elim fun _ h => h.wf s.wf⟩,
    (s.raw.complete t).2)

def completeCancel (s : OpSlab ws α) (t : Token ws) : OpSlab ws α × Bool :=
  (⟨(s.raw.completeCancel t).1, (s.raw.settleCancel_effect t _).elim fun _ h => h.wf s.wf⟩,
    (s.raw.completeCancel t).2)

def drain (s : OpSlab ws α) : OpSlab ws α × List α :=
  (⟨s.raw.drain.1, s.raw.drain_spec.1.wf s.wf⟩, s.raw.drain.2)

def promoteBuiltToSubmitted (s : OpSlab ws α) : OpSlab ws α :=
  ⟨s.raw.promoteBuiltToSubmitted, s.raw.promote_effect.wf s.wf⟩

def lookup (s : OpSlab ws α) (t : Token ws) : Lookup := s.raw.lookup t

def payload (s : OpSlab ws α) (t : Token ws) : Option α := s.raw.payload t

def state (s : OpSlab ws α) (t : Token ws) : Option (Lifecycle × Observer) := s.raw.state t

def tokensWhere (s : OpSlab ws α) (p : Occupant α → Bool) : List (Token ws) := s.raw.tokensWhere p

def described (s : OpSlab ws α) : List (Token ws) := s.raw.described

def built (s : OpSlab ws α) : List (Token ws) := s.raw.built

def submittedUncancelled (s : OpSlab ws α) : List (Token ws) := s.raw.submittedUncancelled

def detachedSubmittedUncancelled (s : OpSlab ws α) : List (Token ws) :=
  s.raw.detachedSubmittedUncancelled

def occupied (s : OpSlab ws α) : Nat := s.raw.occupied

def outstanding (s : OpSlab ws α) : Nat := s.raw.outstanding

def awaitingKernel (s : OpSlab ws α) : Nat := s.raw.awaitingKernel

-- ---------------------------------------------------------------------------
-- What each does to the map
-- ---------------------------------------------------------------------------

variable {s : OpSlab ws α} {t : Token ws}

theorem ext_raw {s s' : OpSlab ws α} (h : s.raw = s'.raw) : s = s' := by
  cases s
  cases s'
  simp only at h
  subst h
  rfl

@[simp] theorem cell_new (k : Key) : (new : OpSlab ws α).cell k = none := rfl

theorem issued_of_cell (h : s.cell k = some c) : s.Issued k := RawSlab.issued_of_cell s.wf h

/-- An insert fills a fresh key, or reports a full slab and changes nothing. -/
theorem insert_cases (s : OpSlab ws α) (p : α) :
    (s.insert p = (s, .error p)) ∨ ∃ s' t, s.insert p = (s', .ok t) ∧ t.kind = .operation ∧
      firstGeneration ≤ t.generation ∧ ¬ s.Issued t.key ∧
      s'.cell = Function.update s.cell t.key (some (.live (.fresh p))) ∧
      ∀ k, s'.Issued k ↔ s.Issued k ∨ k = t.key := by
  rcases RawSlab.insert_spec s.wf p with he | ⟨s', t, he, hins⟩
  · exact .inl (by simp only [insert, he, Option.get_some])
  · refine .inr ⟨⟨s', hins.wf⟩, t, ?_, hins.kind, hins.generation, hins.unissued, hins.cell,
      hins.issued⟩
    simp only [insert, he, Option.get_some]

theorem cell_payloadMut (h : s.cell t.key = some (.live op)) (f : α → α) :
    (s.payloadMut t f).cell =
      Function.update s.cell t.key (some (.live { op with payload := f op.payload })) := by
  have := (RawSlab.setOccupant_effect h { op with payload := f op.payload }).cell
  rwa [← RawSlab.payloadMut_live h f] at this

theorem payloadMut_inert (h : ∀ op, s.cell t.key ≠ some (.live op)) (f : α → α) :
    s.payloadMut t f = s := by
  refine ext_raw ?_
  simp only [payloadMut, RawSlab.payloadMut, RawSlab.occupant_eq_none h]

@[simp] theorem issued_payloadMut : (s.payloadMut t f).Issued k ↔ s.Issued k :=
  (s.raw.payloadMut_effect t f).elim fun _ h => h.issued k

theorem cell_payloadMut_of_ne (hk : k ≠ t.key) : (s.payloadMut t f).cell k = s.cell k :=
  (s.raw.payloadMut_effect t f).elim fun _ h => h.cell_of_ne hk

theorem cell_setLifecycle (h : s.cell t.key = some (.live op)) (next : Lifecycle) :
    (s.setLifecycle t next).1.cell = Function.update s.cell t.key
      (some (.live { op with lifecycle := op.lifecycle.advance next })) :=
  (RawSlab.setLifecycle_live h next).cell

theorem setLifecycle_inert (h : ∀ op, s.cell t.key ≠ some (.live op)) (next : Lifecycle) :
    s.setLifecycle t next = (s, false) := by
  simp only [setLifecycle, RawSlab.setLifecycle_inert h]

@[simp] theorem issued_setLifecycle : (s.setLifecycle t next).1.Issued k ↔ s.Issued k :=
  (s.raw.setLifecycle_effect t next).elim fun _ h => h.issued k

theorem cell_setLifecycle_of_ne (hk : k ≠ t.key) : (s.setLifecycle t next).1.cell k = s.cell k :=
  (s.raw.setLifecycle_effect t next).elim fun _ h => h.cell_of_ne hk

theorem cell_detach (h : s.cell t.key = some (.live op)) :
    (s.detach t).1.cell =
      Function.update s.cell t.key (some (.live { op with observer := .detached })) := by
  have := (RawSlab.setOccupant_effect h { op with observer := .detached }).cell
  simp only [detach, RawSlab.detach_live h]
  exact this

theorem detach_result (h : s.cell t.key = some (.live op)) :
    (s.detach t).2 = some op.lifecycle := by
  simp only [detach, RawSlab.detach_live h]

theorem detach_inert (h : ∀ op, s.cell t.key ≠ some (.live op)) : s.detach t = (s, none) := by
  simp only [detach, RawSlab.detach_inert h]

@[simp] theorem issued_detach : (s.detach t).1.Issued k ↔ s.Issued k :=
  (s.raw.detach_effect t).elim fun _ h => h.issued k

theorem cell_detach_of_ne (hk : k ≠ t.key) : (s.detach t).1.cell k = s.cell k :=
  (s.raw.detach_effect t).elim fun _ h => h.cell_of_ne hk

theorem cell_registerCancel (hk : t.kind = .operation) (h : s.cell t.key = some (.live op))
    (hc : op.cancel = .neverRequested) :
    (s.registerCancel t).1.cell =
      Function.update s.cell t.key (some (.live { op with cancel := .pending })) ∧
    (s.registerCancel t).2 = some t.toCancel := by
  have := (RawSlab.setOccupant_effect h { op with cancel := .pending }).cell
  simp only [registerCancel, RawSlab.registerCancel_live hk h hc]
  exact ⟨this, trivial⟩

theorem registerCancel_inert (h : t.kind = .operation →
    ∀ op, s.cell t.key = some (.live op) → op.cancel ≠ .neverRequested) :
    s.registerCancel t = (s, none) := by
  simp only [registerCancel, RawSlab.registerCancel_inert h]

@[simp] theorem issued_registerCancel : (s.registerCancel t).1.Issued k ↔ s.Issued k :=
  (s.raw.registerCancel_effect t).elim fun _ h => h.issued k

theorem cell_registerCancel_of_ne (hk : k ≠ t.key) : (s.registerCancel t).1.cell k = s.cell k :=
  (s.raw.registerCancel_effect t).elim fun _ h => h.cell_of_ne hk

theorem cancelRequestNotEnqueued_inert
    (h : t.kind = .cancel → ∀ c, s.cell t.key = some c → ¬ c.cancelPending) :
    s.cancelRequestNotEnqueued t = (s, false) := by
  simp only [cancelRequestNotEnqueued, RawSlab.cancelRequestNotEnqueued,
    RawSlab.settleCancel_inert h]

@[simp] theorem issued_cancelRequestNotEnqueued :
    (s.cancelRequestNotEnqueued t).1.Issued k ↔ s.Issued k :=
  (s.raw.settleCancel_effect t _).elim fun _ h => h.issued k

theorem cell_cancelRequestNotEnqueued_of_ne (hk : k ≠ t.key) : (s.cancelRequestNotEnqueued t).1.cell k = s.cell k :=
  (s.raw.settleCancel_effect t _).elim fun _ h => h.cell_of_ne hk

theorem registerCancel_retracted (hk : t.kind = .operation) (h : s.cell t.key = some (.live op))
    (hc : op.cancel = .neverRequested) :
    ((s.registerCancel t).1.cancelRequestNotEnqueued t.toCancel).1 = s :=
  ext_raw (RawSlab.registerCancel_retracted hk h hc)

theorem cell_completeCancel (hk : t.kind = .cancel) (h : s.cell t.key = some c)
    (hc : c.cancelPending) :
    (s.completeCancel t).1.cell = Function.update s.cell t.key (c.settle .completed) ∧
    (s.completeCancel t).2 = true :=
  ⟨(RawSlab.settleCancel_pending hk h hc _).1.cell, (RawSlab.settleCancel_pending hk h hc _).2⟩

theorem completeCancel_inert
    (h : t.kind = .cancel → ∀ c, s.cell t.key = some c → ¬ c.cancelPending) :
    s.completeCancel t = (s, false) := by
  simp only [completeCancel, RawSlab.completeCancel, RawSlab.settleCancel_inert h]

@[simp] theorem issued_completeCancel : (s.completeCancel t).1.Issued k ↔ s.Issued k :=
  (s.raw.settleCancel_effect t _).elim fun _ h => h.issued k

theorem cell_completeCancel_of_ne (hk : k ≠ t.key) : (s.completeCancel t).1.cell k = s.cell k :=
  (s.raw.settleCancel_effect t _).elim fun _ h => h.cell_of_ne hk

theorem cell_complete (hk : t.kind = .operation) (h : s.cell t.key = some (.live op)) :
    (s.complete t).1.cell = Function.update s.cell t.key op.finish ∧
    (s.complete t).2 = some op.payload :=
  ⟨(RawSlab.complete_live hk h).1.cell, (RawSlab.complete_live hk h).2⟩

theorem complete_inert (h : t.kind = .operation → ∀ op, s.cell t.key ≠ some (.live op)) :
    s.complete t = (s, none) := by
  simp only [complete, RawSlab.complete_inert h]

/-- A completion that yields a payload found its operation live. -/
theorem complete_some {s' : OpSlab ws α} {p : α} (h : s.complete t = (s', some p)) :
    ∃ op, s.cell t.key = some (.live op) ∧ op.payload = p := by
  by_cases hlive : t.kind = .operation ∧ ∃ op, s.cell t.key = some (.live op)
  · obtain ⟨hkind, op, hop⟩ := hlive
    refine ⟨op, hop, ?_⟩
    have hpayload := (cell_complete hkind hop).2
    rw [h] at hpayload
    exact (Option.some.inj hpayload).symm
  · have hinert := complete_inert (s := s) (t := t) fun hk op hop => hlive ⟨hk, op, hop⟩
    rw [h] at hinert
    cases hinert

@[simp] theorem issued_complete : (s.complete t).1.Issued k ↔ s.Issued k :=
  (s.raw.complete_effect t).elim fun _ h => h.issued k

theorem cell_complete_of_ne (hk : k ≠ t.key) : (s.complete t).1.cell k = s.cell k :=
  (s.raw.complete_effect t).elim fun _ h => h.cell_of_ne hk

theorem complete_completeCancel (hk : t.kind = .operation) (h : s.cell t.key = some (.live op))
    (hc : op.cancel = .pending) :
    ((s.complete t).1.completeCancel t.toCancel).1 =
      ((s.completeCancel t.toCancel).1.complete t).1 :=
  ext_raw (RawSlab.complete_completeCancel hk h hc)

/-- A slot in use is in the last generation its index was issued in. -/
theorem generation_le_of_cell (h : s.cell k = some c) (hk : s.Issued k')
    (hindex : k'.index = k.index) : k'.generation ≤ k.generation := by
  obtain ⟨st, hslot, -⟩ := RawSlab.cell_eq_some.mp h
  obtain ⟨slot, hslot', -, hissued⟩ := hk
  rw [hindex, hslot] at hslot'
  obtain rfl := Option.some.inj hslot'
  rcases hissued with hlt | ⟨heq, -⟩
  · exact hlt.le
  · exact heq.le

theorem cell_drain (s : OpSlab ws α) (k : Key) :
    s.drain.1.cell k = (s.cell k).bind Cell.drained :=
  congrFun s.raw.drain_spec.1.cell k

@[simp] theorem issued_drain : s.drain.1.Issued k ↔ s.Issued k := s.raw.drain_spec.1.issued k

theorem cell_promote (s : OpSlab ws α) (k : Key) :
    s.promoteBuiltToSubmitted.cell k = (s.cell k).map Cell.promote :=
  congrFun s.raw.promote_effect.cell k

/-- Promoting leaves nothing built. -/
theorem not_built_of_promote (h : s.promoteBuiltToSubmitted.cell k = some (.live op)) :
    op.lifecycle ≠ .built := by
  rw [cell_promote] at h
  obtain ⟨c, -, hp⟩ := Option.map_eq_some_iff.mp h
  cases c with
  | live old =>
    obtain rfl := Cell.live.inj hp
    unfold Occupant.promote
    split
    · nofun
    · assumption
  | tombstone => cases hp

@[simp] theorem issued_promote : s.promoteBuiltToSubmitted.Issued k ↔ s.Issued k :=
  s.raw.promote_effect.issued k

-- ---------------------------------------------------------------------------
-- The payloads in the slab
-- ---------------------------------------------------------------------------

/-- The payload of the live operation under a key. -/
def payloadAt (s : OpSlab ws α) (k : Key) : Option α := (s.cell k).bind Cell.payload?

theorem payloadAt_eq_some : s.payloadAt k = some p ↔
    ∃ op, s.cell k = some (.live op) ∧ op.payload = p := by
  unfold payloadAt
  constructor
  · intro h
    obtain ⟨c, hc, hp⟩ := Option.bind_eq_some_iff.mp h
    cases c with
    | live op => exact ⟨op, hc, Option.some.inj hp⟩
    | tombstone => cases hp
  · rintro ⟨op, hop, rfl⟩
    rw [hop]
    rfl

theorem payloadAt_of_cell (h : s.cell k = some (.live op)) : s.payloadAt k = some op.payload :=
  payloadAt_eq_some.mpr ⟨op, h, rfl⟩

theorem payloadAt_update {s' : OpSlab ws α} (h : s'.cell = Function.update s.cell k c) :
    s'.payloadAt = Function.update s.payloadAt k (c.bind Cell.payload?) := by
  funext k'
  rw [payloadAt, h, Function.update_apply, Function.update_apply]
  split <;> rfl

theorem payloadAt_same {s' : OpSlab ws α} (h : s'.cell = Function.update s.cell k c)
    (hc : c.bind Cell.payload? = s.payloadAt k) : s'.payloadAt = s.payloadAt := by
  rw [payloadAt_update h, hc, Function.update_eq_self]

@[simp] theorem payloadAt_detach (s : OpSlab ws α) (t : Token ws) :
    (s.detach t).1.payloadAt = s.payloadAt := by
  by_cases hlive : ∃ op, s.cell t.key = some (.live op)
  · obtain ⟨op, hop⟩ := hlive
    exact payloadAt_same (cell_detach hop) (payloadAt_of_cell hop).symm
  · rw [detach_inert (not_exists.mp hlive)]

@[simp] theorem payloadAt_registerCancel (s : OpSlab ws α) (t : Token ws) :
    (s.registerCancel t).1.payloadAt = s.payloadAt := by
  by_cases h : t.kind = .operation ∧ ∃ op, s.cell t.key = some (.live op) ∧ op.cancel = .neverRequested
  · obtain ⟨hk, op, hop, hc⟩ := h
    exact payloadAt_same (cell_registerCancel hk hop hc).1 (payloadAt_of_cell hop).symm
  · rw [registerCancel_inert fun hk op hop hc => h ⟨hk, op, hop, hc⟩]

@[simp] theorem payloadAt_completeCancel (s : OpSlab ws α) (t : Token ws) :
    (s.completeCancel t).1.payloadAt = s.payloadAt := by
  by_cases h : t.kind = .cancel ∧ ∃ c, s.cell t.key = some c ∧ c.cancelPending
  · obtain ⟨hk, c, hc, hp⟩ := h
    refine payloadAt_same (cell_completeCancel hk hc hp).1 ?_
    rw [payloadAt, hc]
    cases c <;> rfl
  · rw [completeCancel_inert fun hk c hc hp => h ⟨hk, c, hc, hp⟩]

@[simp] theorem payloadAt_promote (s : OpSlab ws α) :
    s.promoteBuiltToSubmitted.payloadAt = s.payloadAt := by
  funext k
  rw [payloadAt, payloadAt, cell_promote]
  rcases s.cell k with _ | ⟨op⟩ | _
  · rfl
  · simp only [Option.map_some, Cell.promote, Occupant.promote]
    split <;> rfl
  · rfl

theorem payloadAt_complete (hk : t.kind = .operation) (h : s.cell t.key = some (.live op)) :
    (s.complete t).1.payloadAt = Function.update s.payloadAt t.key none := by
  rw [payloadAt_update (cell_complete hk h).1]
  unfold Occupant.finish
  split <;> rfl

@[simp] theorem payloadAt_drain (s : OpSlab ws α) (k : Key) : s.drain.1.payloadAt k = none := by
  rw [payloadAt, cell_drain]
  rcases s.cell k with _ | ⟨op⟩ | _ <;> rfl

-- ---------------------------------------------------------------------------
-- Queries
-- ---------------------------------------------------------------------------

theorem state_eq_some : s.state t = some (l, o) ↔
    ∃ op, s.cell t.key = some (.live op) ∧ op.lifecycle = l ∧ op.observer = o := by
  simp [state, RawSlab.state, RawSlab.occupant_eq_some, cell]

theorem payload_eq_some : s.payload t = some p ↔
    ∃ op, s.cell t.key = some (.live op) ∧ op.payload = p := by
  simp [payload, RawSlab.payload, RawSlab.occupant_eq_some, cell]

/-- The token of the slot at a valid index. -/
theorem key_of_slot (h : s.raw.slots[i]? = some slot) :
    (Token.new .operation i slot.generation : Token ws).key = ⟨i, slot.generation⟩ := by
  simp [Token.key, Token.index_new_of_lt (s.wf.index_lt h),
    Token.generation_new_of_le (s.wf.generation_of h).2]

/-- A key in use is some operation's. -/
theorem exists_token (h : s.cell k = some c) :
    ∃ t : Token ws, t.kind = .operation ∧ t.key = k := by
  obtain ⟨st, hslot, -⟩ := RawSlab.cell_eq_some.mp h
  exact ⟨_, Token.kind_new .., key_of_slot hslot⟩

theorem asUserData_ne_zero {t : Token ws} (h : s.cell t.key = some c) : t.asUserData ≠ 0 := by
  obtain ⟨st, hslot, -⟩ := RawSlab.cell_eq_some.mp h
  exact Token.asUserData_ne_zero (s.wf.generation_of hslot).1

theorem mem_tokensWhere : t ∈ s.tokensWhere p ↔
    t.kind = .operation ∧ ∃ op, s.cell t.key = some (.live op) ∧ p op := by
  simp only [tokensWhere, RawSlab.tokensWhere, List.mem_filterMap, Prod.exists,
    List.mem_zipIdx_iff_getElem?]
  constructor
  · rintro ⟨⟨g, st⟩, i, hi, htok⟩
    cases st with
    | occupied op =>
      simp only [Option.ite_none_right_eq_some, Option.some.injEq] at htok
      obtain ⟨hp, rfl⟩ := htok
      refine ⟨Token.kind_new .., op, RawSlab.cell_eq_live.mpr ?_, hp⟩
      rw [key_of_slot hi]
      exact hi
    | _ => cases htok
  · rintro ⟨hk, op, hop, hp⟩
    refine ⟨_, _, RawSlab.cell_eq_live.mp hop, ?_⟩
    simp only [hp, if_true, Token.key, ← hk, Token.new_fields]

theorem tokensWhere_eq_nil : s.tokensWhere p = [] ↔
    ∀ k op, s.cell k = some (.live op) → ¬ p op := by
  rw [List.eq_nil_iff_forall_not_mem]
  constructor
  · intro h k op hcell hp
    obtain ⟨t, hkind, rfl⟩ := exists_token hcell
    exact h t (mem_tokensWhere.mpr ⟨hkind, op, hcell, hp⟩)
  · intro h t ht
    obtain ⟨-, op, hcell, hp⟩ := mem_tokensWhere.mp ht
    exact h _ _ hcell hp

theorem tokensWhere_nodup (s : OpSlab ws α) (p : Occupant α → Bool) : (s.tokensWhere p).Nodup := by
  have hindex : s.raw.slots.zipIdx.Pairwise fun a b => a.2 ≠ b.2 := by
    rw [← List.pairwise_map (f := Prod.snd) (R := (· ≠ ·)), List.zipIdx_map_snd]
    exact List.nodup_range'
  have hbound := hindex.imp_of_mem (S := fun a b => a.2 ≠ b.2 ∧ a.2 < maxSlots ∧ b.2 < maxSlots)
    fun ha hb hne => ⟨hne, s.wf.index_lt (List.mem_zipIdx_iff_getElem?.mp ha),
      s.wf.index_lt (List.mem_zipIdx_iff_getElem?.mp hb)⟩
  refine hbound.filterMap _ ?_
  rintro ⟨⟨g, st⟩, i⟩ ⟨⟨g', st'⟩, i'⟩ ⟨hne, hi, hi'⟩ t ht t' ht' rfl
  cases st <;> cases st' <;> simp at ht ht'
  have := ht.2.trans ht'.2.symm
  have := congrArg Token.index this
  rw [Token.index_new_of_lt hi, Token.index_new_of_lt hi'] at this
  exact hne this

/-- Every slot in the storage answers for the key it is in. -/
theorem cell_of_slot (h : s.raw.slots[i]? = some slot) :
    s.cell ⟨i, slot.generation⟩ = slot.state.cell := by
  simp [cell, RawSlab.cell, h, Slot.cellFor]

theorem outstanding_eq_zero : s.outstanding = 0 ↔ ∀ k, s.cell k = none := by
  simp only [outstanding, RawSlab.outstanding, List.countP_eq_zero]
  constructor
  · intro h k
    cases hc : s.cell k with
    | none => rfl
    | some c =>
      obtain ⟨st, hslot, hst⟩ := RawSlab.cell_eq_some.mp hc
      have := h _ (List.mem_of_getElem? hslot)
      cases st <;> simp_all [SlotState.cell, Slot.outstanding]
  · intro h slot hslot
    obtain ⟨i, hi⟩ := List.getElem?_of_mem hslot
    have hc := (cell_of_slot hi).symm.trans (h _)
    obtain ⟨g, st⟩ := slot
    cases st <;> simp_all [SlotState.cell, Slot.outstanding]

theorem awaitingKernel_eq_zero : s.awaitingKernel = 0 ↔
    ∀ k, s.cell k ≠ some .tombstone ∧
      ∀ op, s.cell k = some (.live op) → op.lifecycle ≠ .submitted := by
  simp only [awaitingKernel, RawSlab.awaitingKernel, List.countP_eq_zero]
  constructor
  · intro h k
    constructor
    · intro hc
      exact h _ (List.mem_of_getElem? (RawSlab.cell_eq_tombstone.mp hc)) rfl
    · intro op hc hl
      exact h _ (List.mem_of_getElem? (RawSlab.cell_eq_live.mp hc)) (by simp [Slot.awaitingKernel, hl])
  · intro h slot hslot
    obtain ⟨i, hi⟩ := List.getElem?_of_mem hslot
    have hc := cell_of_slot hi
    obtain ⟨hno, hlive⟩ := h ⟨i, slot.generation⟩
    obtain ⟨g, st⟩ := slot
    cases st with
    | occupied op => simpa [Slot.awaitingKernel] using hlive op hc
    | tombstone => exact absurd hc hno
    | _ => simp [Slot.awaitingKernel]

/-- Fewer slots qualify when no index newly does. -/
theorem countP_le_of_getElem? {β : Type v} {p q : β → Bool} {l l' : List β}
    (h : ∀ (i : Nat) x, l'[i]? = some x → p x → ∃ y, l[i]? = some y ∧ q y) : l'.countP p ≤ l.countP q := by
  induction l' generalizing l with
  | nil => exact Nat.zero_le _
  | cons x l' ih =>
    cases l with
    | nil =>
      have hnone : ∀ y ∈ x :: l', ¬ p y := by
        intro y hy hp
        obtain ⟨i, hi⟩ := List.getElem?_of_mem hy
        obtain ⟨z, hz, -⟩ := h i y hi hp
        cases hz
      rw [List.countP_eq_zero.mpr hnone]
      exact Nat.zero_le _
    | cons y l =>
      have hrest := ih fun i z hz hp => by simpa using h (i + 1) z (by simpa using hz) hp
      have hhead : p x → q y := fun hp => by simpa using h 0 x rfl hp
      rw [List.countP_cons, List.countP_cons]
      by_cases hp : p x
      · simp only [hp, hhead hp, if_true]
        exact Nat.add_le_add_right hrest 1
      · simp only [hp, Bool.false_eq_true, if_false, Nat.add_zero]
        exact hrest.trans (Nat.le_add_right _ _)

/-- No more slots are outstanding when no key newly has a cell. -/
theorem outstanding_le {s' : OpSlab ws α}
    (h : ∀ k c, s'.cell k = some c → ∃ c', s.cell k = some c') : s'.outstanding ≤ s.outstanding := by
  refine countP_le_of_getElem? fun i slot hslot hout => ?_
  have hcell := cell_of_slot hslot
  obtain ⟨c, hc⟩ : ∃ c, slot.state.cell = some c := by
    obtain ⟨g, st⟩ := slot
    cases st <;> simp_all [SlotState.cell, Slot.outstanding]
  obtain ⟨c', hc'⟩ := h _ c (hcell.trans hc)
  obtain ⟨st, hst, hstc⟩ := RawSlab.cell_eq_some.mp hc'
  refine ⟨_, hst, ?_⟩
  cases st <;> simp_all [SlotState.cell, Slot.outstanding]

/-- No more slots are occupied when no key newly has a payload. -/
theorem occupied_le {s' : OpSlab ws α}
    (h : ∀ k p, s'.payloadAt k = some p → ∃ p', s.payloadAt k = some p') :
    s'.occupied ≤ s.occupied := by
  rw [occupied, occupied, s.wf.occupied, s'.wf.occupied]
  refine countP_le_of_getElem? fun i slot hslot hocc => ?_
  have hcell := cell_of_slot hslot
  obtain ⟨op, hop⟩ : ∃ op, slot.state.cell = some (.live op) := by
    obtain ⟨g, st⟩ := slot
    cases st <;> simp_all [SlotState.cell, Slot.isOccupied]
  obtain ⟨p', hp'⟩ := h _ op.payload (payloadAt_of_cell (hcell.trans hop))
  obtain ⟨op', hop', -⟩ := payloadAt_eq_some.mp hp'
  exact ⟨_, RawSlab.cell_eq_live.mp hop', rfl⟩

/-- Draining returns the payload of every live slot, once. -/
theorem drain_payloads (s : OpSlab ws α) :
    s.drain.2 = (s.tokensWhere fun _ => true).filterMap s.payload := by
  have hfst : s.raw.slots.filterMap Slot.payload? =
      s.raw.slots.zipIdx.filterMap (Slot.payload? ∘ Prod.fst) := by
    rw [← List.filterMap_map, List.zipIdx_map_fst]
  rw [drain, s.raw.drain_spec.2, hfst, tokensWhere, RawSlab.tokensWhere, List.filterMap_filterMap]
  refine List.filterMap_congr fun ⟨slot, i⟩ hmem => ?_
  have hi := List.mem_zipIdx_iff_getElem?.mp hmem
  obtain ⟨g, st⟩ := slot
  cases st with
  | occupied op =>
    refine (payload_eq_some.mpr ⟨op, RawSlab.cell_eq_live.mpr ?_, rfl⟩).symm
    rw [key_of_slot hi]
    exact hi
  | _ => rfl

-- ---------------------------------------------------------------------------
-- Storage
-- ---------------------------------------------------------------------------

/-- The number of slots there is storage for. -/
def length (s : OpSlab ws α) : Nat := s.raw.slots.length

theorem length_insert (s : OpSlab ws α) (p : α) : (s.insert p).1.length ≤ s.length + 1 := by
  simp only [length, insert]
  rcases RawSlab.insert_spec s.wf p with he | ⟨s', t, he, -⟩
  all_goals
    simp only [he, Option.get_some]
    exact RawSlab.length_insert he

@[simp] theorem length_payloadMut (s : OpSlab ws α) (t : Token ws) (f : α → α) :
    (s.payloadMut t f).length = s.length := by
  simp only [length, payloadMut, RawSlab.payloadMut]
  split
  · simp [RawSlab.setOccupant, RawSlab.setSlot]
  · rfl

@[simp] theorem length_complete (s : OpSlab ws α) (t : Token ws) :
    (s.complete t).1.length = s.length := by
  have hfree : ∀ (s : RawSlab ws α) i, (s.freeSlot i).slots.length = s.slots.length := by
    intro s i
    unfold RawSlab.freeSlot
    split
    · rfl
    · split <;> simp [RawSlab.setSlot]
  simp only [length, complete, RawSlab.complete]
  split
  · rfl
  · split
    · split
      · simp [RawSlab.setSlot]
      · simp [hfree, RawSlab.setSlot]
    · rfl

end OpSlab

end WinIoring.Slab
