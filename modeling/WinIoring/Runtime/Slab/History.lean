import WinIoring.Machine.Run
import WinIoring.Runtime.Slab.Tracked

/-!
# Every run of the slab

Tokens over whole sequences of slab operations: each is issued once, none is the
platform's wildcard, and one whose slot has moved on is inert from then on.
-/

namespace WinIoring.Slab

variable {ws : WordSize} {α : Type u}

/-- One call on the slab. -/
inductive SlabOp (ws : WordSize) (α : Type u) where
  | insert (payload : α)
  | payloadMut (t : Token ws) (f : α → α)
  | setLifecycle (t : Token ws) (next : Lifecycle)
  | promoteBuiltToSubmitted
  | detach (t : Token ws)
  | registerCancel (t : Token ws)
  | cancelRequestNotEnqueued (t : Token ws)
  | complete (t : Token ws)
  | completeCancel (t : Token ws)
  | drain

/-- The token a call is aimed at. -/
def SlabOp.target : SlabOp ws α → Option (Token ws)
  | .payloadMut t _ | .setLifecycle t _ | .detach t | .registerCancel t
  | .cancelRequestNotEnqueued t | .complete t | .completeCancel t => some t
  | .insert _ | .promoteBuiltToSubmitted | .drain => none

/-- What a call reports. Calls that report whether the token meant anything to
them say so in their own types; `nothing` is their common negative answer. -/
inductive Report (ws : WordSize) (α : Type u) where
  | nothing
  | done
  | issued (t : Token ws)
  | lifecycle (l : Lifecycle)
  | payloads (ps : List α)

def Report.ofBool : Bool → Report ws α
  | true => .done
  | false => .nothing

def OpSlab.perform (s : OpSlab ws α) : SlabOp ws α → OpSlab ws α × Report ws α
  | .insert p =>
    match s.insert p with
    | (s, .ok t) => (s, .issued t)
    | (s, .error p) => (s, .payloads [p])
  | .payloadMut t f => (s.payloadMut t f, .ofBool (s.payload t).isSome)
  | .setLifecycle t next => ((s.setLifecycle t next).1, .ofBool (s.setLifecycle t next).2)
  | .promoteBuiltToSubmitted => (s.promoteBuiltToSubmitted, .done)
  | .detach t => ((s.detach t).1, (s.detach t).2.elim .nothing .lifecycle)
  | .registerCancel t => ((s.registerCancel t).1, (s.registerCancel t).2.elim .nothing fun _ => .done)
  | .cancelRequestNotEnqueued t =>
    ((s.cancelRequestNotEnqueued t).1, .ofBool (s.cancelRequestNotEnqueued t).2)
  | .complete t => ((s.complete t).1, (s.complete t).2.elim .nothing fun p => .payloads [p])
  | .completeCancel t => ((s.completeCancel t).1, .ofBool (s.completeCancel t).2)
  | .drain => (s.drain.1, .payloads s.drain.2)

/-- A slab with the tokens it has handed out, newest first. -/
structure History (ws : WordSize) (α : Type u) where
  slab : OpSlab ws α
  tokens : List (Token ws)

def History.perform (h : History ws α) (op : SlabOp ws α) : History ws α :=
  match h.slab.perform op with
  | (slab, .issued t) => { slab, tokens := t :: h.tokens }
  | (slab, _) => { h with slab }

/-- Any sequence of calls on a slab that starts empty. -/
def slabMachine (ws : WordSize) (α : Type u) : Machine (History ws α) (SlabOp ws α) where
  init h := h = { slab := .new, tokens := [] }
  step h op := some (h.perform op)

/-- The slot a token names has been freed, reissued or retired. -/
def OpSlab.Recycled (s : OpSlab ws α) (t : Token ws) : Prop :=
  ∃ slot, s.raw.slots[t.index]? = some slot ∧
    (slot.generation ≠ t.generation ∨ slot.state.cell = none)

-- ---------------------------------------------------------------------------
-- Spent keys
-- ---------------------------------------------------------------------------

namespace OpSlab

variable {s : OpSlab ws α} {t : Token ws}

/-- A key that was issued and is no longer tracked. -/
def Spent (s : OpSlab ws α) (k : Key) : Prop := s.Issued k ∧ s.cell k = none

theorem cell_of_recycled (h : s.Recycled t) : s.cell t.key = none := by
  obtain ⟨slot, hslot, hor⟩ := h
  have hcell : s.cell t.key = slot.cellFor t.generation := by
    simp [cell, RawSlab.cell, Token.key, hslot]
  rw [hcell, Slot.cellFor]
  by_cases hgen : slot.generation = t.generation
  · rw [if_pos hgen]
    exact hor.resolve_left (not_not.mpr hgen)
  · rw [if_neg hgen]

/-- A call aimed at a key the slab does not track reports nothing and changes
nothing. -/
theorem perform_untracked (h : s.cell t.key = none) {op : SlabOp ws α} (hop : op.target = some t) :
    s.perform op = (s, .nothing) := by
  have hlive : ∀ op, s.cell t.key ≠ some (.live op) := by simp [h]
  have hpending : t.kind = .cancel → ∀ c, s.cell t.key = some c → ¬ c.cancelPending := by simp [h]
  cases op <;> cases hop
  case payloadMut f =>
    have hpay : s.payload t = none := by
      rw [Option.eq_none_iff_forall_not_mem]
      intro p hp
      obtain ⟨op, hop, -⟩ := payload_eq_some.mp hp
      exact hlive op hop
    simp [perform, payloadMut_inert hlive, hpay, Report.ofBool]
  case setLifecycle next => simp [perform, setLifecycle_inert hlive, Report.ofBool]
  case detach => simp [perform, detach_inert hlive]
  case registerCancel =>
    have hnever : t.kind = .operation →
        ∀ op, s.cell t.key = some (.live op) → op.cancel ≠ .neverRequested := by simp [h]
    simp [perform, registerCancel_inert hnever]
  case cancelRequestNotEnqueued =>
    simp [perform, cancelRequestNotEnqueued_inert hpending, Report.ofBool]
  case complete => simp [perform, complete_inert fun _ => hlive]
  case completeCancel => simp [perform, completeCancel_inert hpending, Report.ofBool]

/-- A call aimed at a token leaves every other key alone. -/
theorem cell_perform_of_ne {op : SlabOp ws α} (hop : op.target = some t) (hk : k ≠ t.key) :
    (s.perform op).1.cell k = s.cell k := by
  cases op <;> cases hop
  case payloadMut => exact cell_payloadMut_of_ne hk
  case setLifecycle => exact cell_setLifecycle_of_ne hk
  case detach => exact cell_detach_of_ne hk
  case registerCancel => exact cell_registerCancel_of_ne hk
  case cancelRequestNotEnqueued => exact cell_cancelRequestNotEnqueued_of_ne hk
  case complete => exact cell_complete_of_ne hk
  case completeCancel => exact cell_completeCancel_of_ne hk

/-- What an insert answers, and what it does to the keys already issued. -/
theorem perform_insert_cases (s : OpSlab ws α) (p : α) :
    (s.perform (.insert p) = (s, .payloads [p])) ∨ ∃ s' t, s.perform (.insert p) = (s', .issued t) ∧
      t.kind = .operation ∧ firstGeneration ≤ t.generation ∧ ¬ s.Issued t.key ∧
      s'.cell = Function.update s.cell t.key (some (.live (.fresh p))) ∧
      ∀ k, s'.Issued k ↔ s.Issued k ∨ k = t.key := by
  rcases s.insert_cases p with he | ⟨s', t, he, hins⟩
  · exact .inl (by simp only [perform, he])
  · exact .inr ⟨s', t, by simp only [perform, he], hins⟩

/-- Only an insert issues anything. -/
theorem issued_perform {op : SlabOp ws α} (hop : ∀ p, op ≠ .insert p) :
    (s.perform op).1.Issued k ↔ s.Issued k := by
  cases op with
  | insert p => exact absurd rfl (hop p)
  | _ => simp [perform]

theorem perform_ne_issued {op : SlabOp ws α} (hop : ∀ p, op ≠ .insert p) :
    (s.perform op).2 ≠ .issued t := by
  cases op with
  | insert p => exact absurd rfl (hop p)
  | promoteBuiltToSubmitted => simp [perform]
  | drain => simp [perform]
  | detach u => simp only [perform]; cases (s.detach u).2 <;> simp
  | registerCancel u => simp only [perform]; cases (s.registerCancel u).2 <;> simp
  | complete u => simp only [perform]; cases (s.complete u).2 <;> simp
  | payloadMut u f => simp only [perform]; cases (s.payload u).isSome <;> simp [Report.ofBool]
  | setLifecycle u l => simp only [perform]; cases (s.setLifecycle u l).2 <;> simp [Report.ofBool]
  | cancelRequestNotEnqueued u =>
    simp only [perform]; cases (s.cancelRequestNotEnqueued u).2 <;> simp [Report.ofBool]
  | completeCancel u => simp only [perform]; cases (s.completeCancel u).2 <;> simp [Report.ofBool]

/-- No call brings a spent key back. -/
theorem Spent.perform (h : s.Spent k) (op : SlabOp ws α) : (s.perform op).1.Spent k := by
  obtain ⟨hissued, hcell⟩ := h
  by_cases hins : ∃ p, op = .insert p
  · obtain ⟨p, rfl⟩ := hins
    rcases s.perform_insert_cases p with he | ⟨s', t, he, -, -, hun, hcell', hissued'⟩ <;> rw [he]
    · exact ⟨hissued, hcell⟩
    · have hne : k ≠ t.key := by
        rintro rfl
        exact hun hissued
      refine ⟨(hissued' k).mpr (.inl hissued), ?_⟩
      rw [hcell', Function.update_of_ne hne, hcell]
  · refine ⟨(issued_perform (not_exists.mp hins)).mpr hissued, ?_⟩
    cases ht : op.target with
    | some t =>
      by_cases hk : k = t.key
      · subst hk
        rwa [perform_untracked hcell ht]
      · rwa [cell_perform_of_ne ht hk]
    | none =>
      cases op <;> simp only [SlabOp.target, reduceCtorEq] at ht
      · exact absurd ⟨_, rfl⟩ hins
      · simp [OpSlab.perform, cell_promote, hcell]
      · simp [OpSlab.perform, cell_drain, hcell]

end OpSlab

-- ---------------------------------------------------------------------------
-- Every run
-- ---------------------------------------------------------------------------

namespace History

variable {h : History ws α}

/-- The tokens handed out so far are distinct operation tokens of issued keys. -/
structure Consistent (h : History ws α) : Prop where
  nodup : h.tokens.Nodup
  kind : ∀ t ∈ h.tokens, t.kind = .operation
  generation : ∀ t ∈ h.tokens, firstGeneration ≤ t.generation
  issued : ∀ t ∈ h.tokens, h.slab.Issued t.key

theorem perform_insert (hp : h.slab.perform op = (s', .issued t)) :
    h.perform op = { slab := s', tokens := t :: h.tokens } := by
  simp only [perform, hp]

theorem perform_other (hp : ∀ t, (h.slab.perform op).2 ≠ .issued t) :
    h.perform op = { h with slab := (h.slab.perform op).1 } := by
  unfold perform
  split
  · rename_i slab t he
    exact absurd (by rw [he]) (hp t)
  · rename_i slab r he
    rw [he]

@[simp] theorem perform_slab (h : History ws α) (op : SlabOp ws α) :
    (h.perform op).slab = (h.slab.perform op).1 := by
  unfold perform
  split <;> rename_i he <;> rw [he]

theorem Consistent.perform (hc : h.Consistent) (op : SlabOp ws α) : (h.perform op).Consistent := by
  by_cases hins : ∃ p, op = .insert p
  · obtain ⟨p, rfl⟩ := hins
    rcases h.slab.perform_insert_cases p with he | ⟨s', t, he, hk, hg, hun, -, hissued⟩
    · rw [perform_other (by simp [he])]
      simpa only [he] using hc
    · rw [perform_insert he]
      refine ⟨List.nodup_cons.mpr ⟨fun hmem => hun (hc.issued t hmem), hc.nodup⟩, ?_, ?_, ?_⟩
      · exact List.forall_mem_cons.mpr ⟨hk, hc.kind⟩
      · exact List.forall_mem_cons.mpr ⟨hg, hc.generation⟩
      · exact List.forall_mem_cons.mpr ⟨(hissued _).mpr (.inr rfl),
          fun u hu => (hissued _).mpr (.inl (hc.issued u hu))⟩
  · have hne := not_exists.mp hins
    rw [perform_other fun t => OpSlab.perform_ne_issued hne]
    exact ⟨hc.nodup, hc.kind, hc.generation,
      fun t ht => (OpSlab.issued_perform hne).mpr (hc.issued t ht)⟩

theorem consistent_of_reachable (hr : (slabMachine ws α).Reachable h) : h.Consistent := by
  refine hr.invariant ?_ ?_
  · rintro _ rfl
    exact ⟨List.nodup_nil, by simp, by simp, by simp⟩
  · rintro s op s' - hc - hs
    obtain rfl := Option.some.inj hs
    exact hc.perform op

theorem spent_of_run (hs : h.slab.Spent k) (hrun : (slabMachine ws α).run h ops = some h') :
    h'.slab.Spent k := by
  induction ops generalizing h with
  | nil =>
    obtain rfl := Option.some.inj hrun
    exact hs
  | cons op ops ih =>
    obtain ⟨h1, h1eq, hrest⟩ := Machine.run_cons.mp hrun
    obtain rfl := Option.some.inj h1eq
    exact ih (by simpa using hs.perform op) hrest

end History

/-- Over every sequence of slab calls, no token is issued twice; no issued token
and no cancel counterpart of one is zero; and once the slot of an issued token
has been freed, reissued or retired, every call aimed at that token or at its
cancel counterpart, then or at any later moment, reports nothing and leaves the
slab as it was. -/
theorem tokens_never_reused {h : History ws α} (hr : (slabMachine ws α).Reachable h) :
    h.tokens.Nodup ∧
    (∀ t ∈ h.tokens, t.asUserData ≠ 0 ∧ t.toCancel.asUserData ≠ 0) ∧
    ∀ t ∈ h.tokens, h.slab.Recycled t → ∀ ops h', (slabMachine ws α).run h ops = some h' →
      ∀ op : SlabOp ws α, op.target = some t ∨ op.target = some t.toCancel →
        h'.slab.perform op = (h'.slab, .nothing) := by
  have hc := History.consistent_of_reachable hr
  refine ⟨hc.nodup, fun t ht => ?_, fun t ht hrec ops h' hrun op hop => ?_⟩
  · have hg := hc.generation t ht
    exact ⟨Token.asUserData_ne_zero hg, Token.asUserData_ne_zero (by simpa using hg)⟩
  · have hspent : h.slab.Spent t.key := ⟨hc.issued t ht, OpSlab.cell_of_recycled hrec⟩
    have hnone := (History.spent_of_run hspent hrun).2
    rcases hop with hop | hop
    · exact OpSlab.perform_untracked hnone hop
    · exact OpSlab.perform_untracked (by simpa using hnone) hop

/-- A slot filled, freed and filled again: two tokens, the first of them inert. -/
theorem tokens_never_reused_refilled :
    ∃ (h : History .w64 Nat) (t u : Token .w64), h.tokens = [u, t] ∧ h.slab.Recycled t ∧
      t ≠ u ∧ t.asUserData ≠ 0 ∧ h.slab.perform (.complete t) = (h.slab, .nothing) := by
  let t : Token .w64 := ⟨2 ^ 17⟩
  let u : Token .w64 := ⟨2 ^ 18⟩
  let empty : History .w64 Nat := { slab := .new, tokens := [] }
  let h := ((empty.perform (.insert 5)).perform (.complete t)).perform (.insert 6)
  have hr : (slabMachine .w64 Nat).Reachable h :=
    .step (a := .insert 6) (.step (a := .complete t) (.step (a := .insert 5) (.init rfl)
      trivial rfl) trivial rfl) trivial rfl
  have htokens : h.tokens = [u, t] := by decide
  have hslot : h.slab.raw.slots[t.index]?.map (·.generation) = some 2 := by decide
  obtain ⟨slot, hslot, hgen⟩ := Option.map_eq_some_iff.mp hslot
  have hrec : h.slab.Recycled t := ⟨slot, hslot, .inl (by rw [hgen]; decide)⟩
  obtain ⟨hnodup, hzero, hinert⟩ := tokens_never_reused hr
  refine ⟨h, t, u, htokens, hrec, by decide, (hzero t (by simp [htokens])).1, ?_⟩
  exact hinert t (by simp [htokens]) hrec [] h rfl (.complete t) (.inl rfl)

end WinIoring.Slab
