import WinIoring.Runtime.Slots
import WinIoring.Runtime.Transitions

/-!
# Sequential exclusivity

A file's busy flag stands for the one sequential guard of the file, which travels
in its operation's payload: up when the operation is accepted, and down when its
own completion is reaped or teardown abandons it.
-/

namespace WinIoring.Runtime

open Slab

variable {ws : WordSize} {s s' : Sys ws}

-- ---------------------------------------------------------------------------
-- The flag
-- ---------------------------------------------------------------------------

namespace World

variable (w : World ws)

/-- Whether a sequential operation is outstanding on a file. -/
def busy (f : FileId) : Bool := (w.files f).sequentialOutstanding

variable {w}

theorem busy_congr {w' : World ws} (h : w'.files = w.files) (f : FileId) : w'.busy f = w.busy f := by
  rw [busy, busy, h]

theorem files_settleRegistration (w : World ws) (p : OpPayload) (result : Except Error Transferred) :
    (w.settleRegistration p result).1.files = w.files := by
  unfold settleRegistration
  cases p.pendingRegistration with
  | none => rfl
  | some pending => cases pending <;> cases result <;> rfl

theorem files_raiseTransfer (w : World ws) (p : OpPayload) (result : Except Error Transferred)
    (boxed : Option Boxed) : (w.raiseTransfer p result boxed).files = w.files := by
  unfold raiseTransfer
  split
  · rfl
  · rfl

/-- A payload takes its own guard with it, and no other. -/
theorem busy_fill (w : World ws) (p : OpPayload) (completed : CompletedOp) (cause : Cause ws) (f : FileId) :
    (w.fill p completed cause).1.busy f = (w.busy f && p.sequential ≠ some f) := by
  rw [busy, files_fill]
  by_cases hp : p.sequential = some f
  · simp [hp]
  · simp [hp, busy]

theorem busy_resolveCompletion (w : World ws) (p : OpPayload) (cqe : Cqe ws) (f : FileId) :
    (w.resolveCompletion p cqe).1.busy f = (w.busy f && p.sequential ≠ some f) := by
  simp only [resolveCompletion, busy_fill]
  rw [busy, files_raiseTransfer, files_settleRegistration, busy]

theorem busy_resolveAbandoned (w : World ws) (p : OpPayload) (f : FileId) :
    (w.resolveAbandoned p).1.busy f = (w.busy f && p.sequential ≠ some f) :=
  busy_fill ..

/-- Once every payload is abandoned no file is busy that only they kept so. -/
theorem busy_release (h : ∀ f, w.busy f → ∃ p ∈ w.inner.slab.payloads, p.sequential = some f)
    (f : FileId) : w.release.1.busy f = false := by
  have hall := abandonAll_induction
    (P := fun ps (w : World ws) => ∀ f, w.busy f → ∃ p ∈ ps, p.sequential = some f) w h ?_
  · rw [busy_congr (release_frame w).2.2.2]
    cases hbusy : w.abandonAll.busy f with
    | false => rfl
    | true =>
      obtain ⟨p, hp, -⟩ := hall f hbusy
      cases hp
  · intro p ps w hps g hg
    rw [busy_resolveAbandoned, Bool.and_eq_true, decide_eq_true_iff] at hg
    obtain ⟨q, hq, hsequential⟩ := hps g hg.1
    rcases List.mem_cons.mp hq with rfl | hq
    · exact absurd hsequential hg.2
    · exact ⟨q, hq, hsequential⟩

/-- A result delivered moves the cursor only. -/
theorem busy_deliver (w : World ws) (σ : SlotId) (future : Future ws) (completed : CompletedOp) (f : FileId) :
    (w.deliver σ future completed).1.busy f = w.busy f := by
  have hadvance : ∀ (w : World ws) (file : Option FileId) result,
      (w.advanceOnSuccess file result).busy f = w.busy f := by
    intro w file result
    unfold advanceOnSuccess
    split
    · rename_i g transferred
      by_cases hfg : f = g
      · subst hfg
        simp [busy]
      · simp [busy, hfg]
    · rfl
  obtain ⟨registries, hrecord⟩ := recordRead_eq
    ((w.setResult σ { w.results σ with completed := none, awaited := false }).emit
      (.delivered σ completed)) future completed
  simp only [deliver, hadvance]
  rw [hrecord]
  rfl

theorem busy_setCursor (w : World ws) (file : FileId) (position : Nat) (f : FileId) :
    (w.setCursor file position).busy f = w.busy f := by
  by_cases hf : f = file
  · subst hf
    simp [setCursor, busy]
  · simp [setCursor, busy, hf]

end World

-- ---------------------------------------------------------------------------
-- One guard for each busy file
-- ---------------------------------------------------------------------------

/-- The slots whose payload holds a file's guard. -/
def Guards (slab : OpSlab ws OpPayload) (f : FileId) (k : Key) : Prop :=
  ∃ p, slab.payloadAt k = some p ∧ p.sequential = some f

structure Exclusive (s : Sys ws) : Prop where
  busy_iff : ∀ f, s.world.busy f ↔ ∃ k, Guards s.world.inner.slab f k
  sole : ∀ f k k', Guards s.world.inner.slab f k → Guards s.world.inner.slab f k' → k = k'

namespace Exclusive

theorem congr (h : Exclusive s) (hbusy : ∀ f, s'.world.busy f = s.world.busy f)
    (hpayloads : s'.world.inner.slab.payloadAt = s.world.inner.slab.payloadAt) : Exclusive s' where
  busy_iff f := by
    simp only [hbusy, Guards, hpayloads]
    exact h.busy_iff f
  sole f k k' := by
    simp only [Guards, hpayloads]
    exact h.sole f k k'

/-- A payload that leaves takes its guard down. -/
theorem remove (h : Exclusive s) (hp : s.world.inner.slab.payloadAt k = some p)
    (hpayloads : s'.world.inner.slab.payloadAt = Function.update s.world.inner.slab.payloadAt k none)
    (hbusy : ∀ f, s'.world.busy f = (s.world.busy f && p.sequential ≠ some f)) : Exclusive s' := by
  have hguards : ∀ f k', Guards s'.world.inner.slab f k' ↔ k' ≠ k ∧ Guards s.world.inner.slab f k' := by
    intro f k'
    simp only [Guards, hpayloads, Function.update_apply]
    by_cases hk : k' = k
    · simp [hk]
    · simp [hk]
  refine ⟨fun f => ?_, fun f k₁ k₂ h₁ h₂ => ?_⟩
  · rw [hbusy, Bool.and_eq_true, decide_eq_true_iff, h.busy_iff]
    constructor
    · rintro ⟨⟨k', hk'⟩, hne⟩
      refine ⟨k', (hguards f k').mpr ⟨?_, hk'⟩⟩
      rintro rfl
      obtain ⟨q, hq, hsequential⟩ := hk'
      cases hp.symm.trans hq
      exact hne hsequential
    · rintro ⟨k', hk'⟩
      obtain ⟨hne, hk'⟩ := (hguards f k').mp hk'
      exact ⟨⟨k', hk'⟩, fun hsequential => hne (h.sole f k' k hk' ⟨p, hp, hsequential⟩)⟩
  · exact h.sole f k₁ k₂ ((hguards f k₁).mp h₁).2 ((hguards f k₂).mp h₂).2

/-- A payload is placed only while nothing else holds its guard. -/
theorem accept (h : Exclusive s) (ha : Accepted s s' t p e future) : Exclusive s' := by
  have hbusy : ∀ f, s'.world.busy f = (s.world.busy f || p.sequential = some f) := fun f => (ha.files f).2
  have hguards : ∀ f k, Guards s'.world.inner.slab f k ↔
      k = t.key ∧ p.sequential = some f ∨ Guards s.world.inner.slab f k := by
    intro f k
    have hvacant : s.world.inner.slab.payloadAt t.key = none := by
      refine Option.eq_none_iff_forall_not_mem.mpr fun q hq => ?_
      obtain ⟨op, hop, -⟩ := OpSlab.payloadAt_eq_some.mp hq
      exact ha.unissued (OpSlab.issued_of_cell hop)
    simp only [Guards, ha.payloadAt, Function.update_apply]
    by_cases hk : k = t.key
    · simp [hk, hvacant]
    · simp [hk]
  refine ⟨fun f => ?_, fun f k₁ k₂ h₁ h₂ => ?_⟩
  · rw [hbusy, Bool.or_eq_true, decide_eq_true_iff, h.busy_iff]
    simp only [hguards, exists_or, exists_eq_left]
    exact or_comm
  · -- The file of the new payload was not busy, so no other payload is its.
    have hfree : p.sequential = some f → ∀ k, ¬ Guards s.world.inner.slab f k := by
      intro hsequential k hk
      have hidle := ha.admitted.sequential f hsequential
      exact absurd (hidle.symm.trans ((h.busy_iff f).mpr ⟨k, hk⟩)) nofun
    rcases (hguards f k₁).mp h₁ with ⟨rfl, hsequential⟩ | h₁
    · rcases (hguards f k₂).mp h₂ with ⟨rfl, -⟩ | h₂
      · rfl
      · exact absurd h₂ (hfree hsequential k₂)
    · rcases (hguards f k₂).mp h₂ with ⟨-, hsequential⟩ | h₂
      · exact absurd h₁ (hfree hsequential k₁)
      · exact h.sole f k₁ k₂ h₁ h₂

theorem move (h : Exclusive s) (hm : Move b s s') : Exclusive s' := by
  cases hm with
  | quiet hq => exact h.congr (World.busy_congr hq.world.files) (by rw [hq.world.inner.slab])
  | refused hcell _ hfiles => exact h.congr (fun f => (hfiles f).2) (OpSlab.payloadAt_congr hcell)
  | cancelled => exact h.congr (fun _ => rfl) (OpSlab.payloadAt_registerCancel ..)
  | submitted => exact h.congr (fun _ => rfl) (OpSlab.payloadAt_promote _)
  | reapedCancel => exact h.congr (fun _ => rfl) (OpSlab.payloadAt_completeCancel ..)
  | detached t => exact h.congr (fun _ => rfl) (OpSlab.payloadAt_detach ..)
  | resolved _ _ hkind hop =>
    refine h.remove (OpSlab.payloadAt_of_cell hop) ?_ fun f => World.busy_resolveCompletion ..
    rw [Sys.withWorld, World.slab_resolveCompletion, World.setInner_inner, OpSlab.payloadAt_complete hkind hop]
  | @released ring =>
    have hidle := World.busy_release (w := s.world.setInner { s.world.inner with ring }) fun f hf => by
      obtain ⟨k, p, hp, hsequential⟩ := (h.busy_iff f).mp hf
      exact ⟨p, OpSlab.mem_payloads.mpr ⟨k, hp⟩, hsequential⟩
    have hnone : ∀ f k, ¬ Guards (s.world.setInner { s.world.inner with ring }).release.1.inner.slab f k := by
      rintro f k ⟨p, hp, -⟩
      rw [World.release_inner] at hp
      exact absurd hp (by simp)
    refine ⟨fun f => ?_, fun f k k' hk => absurd hk (hnone f k)⟩
    rw [Sys.withWorld, hidle f]
    exact iff_of_false (by rintro ⟨⟩) (by rintro ⟨k, hk⟩; exact hnone f k hk)
  | delivered =>
    refine h.congr (fun f => ?_) ?_
    · rw [Sys.receive_world]
      exact World.busy_deliver ..
    · rw [Sys.receive_world, World.inner_deliver]
  | forgotten =>
    refine h.congr (World.busy_congr ?_) ?_
    · simp [World.dropFutureRef]
    · rw [World.inner_dropFutureRef]
      rfl
  | handleDropped =>
    refine h.congr (World.busy_congr ?_) ?_
    · simp [World.dropHandle]
    · rw [World.inner_dropHandle]
  | _ => exact h.congr (fun _ => rfl) rfl

end Exclusive

theorem kept_exclusive (ok : Sys ws → Action ws → Prop) : Kept ok (@Exclusive ws) where
  initial s hs := by
    have hnone : ∀ f k, ¬ Guards s.world.inner.slab f k := by
      rintro f k ⟨p, hp, -⟩
      rw [hs.inner] at hp
      cases hp
    refine ⟨fun f => ?_, fun f k k' hk => absurd hk (hnone f k)⟩
    rw [World.busy, hs.files f]
    exact iff_of_false nofun (by rintro ⟨k, hk⟩; exact hnone f k hk)
  move s s' _ h hm := h.move hm
  accepted s s' t p e f _ _ _ h _ _ ha := h.accept ha
  setCursor s file position _ h _ := h.congr (fun f => World.busy_setCursor ..) rfl

-- ---------------------------------------------------------------------------
-- How a guard goes
-- ---------------------------------------------------------------------------

/-- How an operation leaves the slab: the completion under its own token was
reaped, or the driver was torn down. -/
def Ended (s : Sys ws) (k : Key) (p : OpPayload) : Prop :=
  (∃ completed waker, ∃ cqe : Cqe ws, cqe.token.kind = .operation ∧ cqe.token.key = k ∧
    .filled p.slot completed waker (.completion cqe) ∈ s.world.trace) ∨
  s.world.inner.tornDown = true

theorem World.mem_trace_resolveCompletion (w : World ws) (p : OpPayload) (cqe : Cqe ws) :
    ∃ completed waker, .filled p.slot completed waker (.completion cqe) ∈ (w.resolveCompletion p cqe).1.trace := by
  rw [World.trace_resolveCompletion]
  exact ⟨_, _, List.mem_cons_self⟩

theorem Ended.move (h : Ended s k p) (hm : Move b s s') : Ended s' k p := by
  rcases h with ⟨completed, waker, cqe, hkind, hkey, hmem⟩ | htorn
  · exact .inl ⟨completed, waker, cqe, hkind, hkey, hm.suffix.subset hmem⟩
  · exact .inr (hm.tornDown htorn)

/-- A payload stays until its operation has ended. -/
theorem Move.payload_or (h : Move b s s') (hp : s.world.inner.slab.payloadAt k = some p) :
    s'.world.inner.slab.payloadAt k = some p ∨ Ended s' k p := by
  have hsame : ∀ {slab : OpSlab ws OpPayload}, slab.payloadAt = s.world.inner.slab.payloadAt →
      slab.payloadAt k = some p := fun heq => (congrFun heq k).trans hp
  cases h with
  | quiet hq => exact .inl (hsame (by rw [hq.world.inner.slab]))
  | refused hcell => exact .inl (hsame (OpSlab.payloadAt_congr hcell))
  | cancelled => exact .inl (hsame (OpSlab.payloadAt_registerCancel ..))
  | submitted => exact .inl (hsame (OpSlab.payloadAt_promote _))
  | reapedCancel => exact .inl (hsame (OpSlab.payloadAt_completeCancel ..))
  | detached t => exact .inl (hsame (OpSlab.payloadAt_detach ..))
  | @resolved cqe _ _ op _ _ hkind hop =>
    by_cases hk : k = cqe.token.key
    · subst hk
      cases (OpSlab.payloadAt_of_cell hop).symm.trans hp
      obtain ⟨completed, waker, hmem⟩ := World.mem_trace_resolveCompletion _ op.payload cqe
      exact .inr (.inl ⟨completed, waker, cqe, hkind, rfl, hmem⟩)
    · refine .inl ?_
      rw [Sys.withWorld, World.slab_resolveCompletion, World.setInner_inner,
        OpSlab.payloadAt_complete hkind hop, Function.update_of_ne hk]
      exact hp
  | released =>
    refine .inr (.inr ?_)
    rw [Sys.withWorld, World.release_inner]
  | delivered =>
    refine .inl (hsame ?_)
    rw [Sys.receive_world, World.inner_deliver]
  | forgotten =>
    refine .inl (hsame ?_)
    rw [World.inner_dropFutureRef]
    rfl
  | handleDropped =>
    refine .inl (hsame ?_)
    rw [World.inner_dropHandle]
  | _ => exact .inl hp

theorem Moves.payload_or (h : Moves b s s') (hp : s.world.inner.slab.payloadAt k = some p) :
    s'.world.inner.slab.payloadAt k = some p ∨ Ended s' k p := by
  induction h with
  | refl => exact .inl hp
  | tail _ hlast ih =>
    rcases ih with ih | ih
    · exact hlast.payload_or ih
    · exact .inr (ih.move hlast)

/-- What one step does to a file's flag. -/
theorem Stride.busy (h : Exclusive s) (hst : Stride s s' a) (f : FileId) :
    (s.world.busy f → ¬ s'.world.busy f → ∃ k p, s.world.inner.slab.payloadAt k = some p ∧
      p.sequential = some f ∧ s'.world.inner.slab.payloadAt k = none ∧ Ended s' k p) ∧
    (¬ s.world.busy f → s'.world.busy f → ∃ request answers,
      a = .start request answers ∧ request.sequential = some f) ∧
    (∀ k p, s.world.inner.slab.payloadAt k = some p → p.sequential = some f →
      s'.world.inner.slab.payloadAt k = none → ¬ s'.world.busy f) := by
  cases hst with
  | @moves b _ hm hcalm =>
    clear hcalm
    have hpayload : ∀ k p, s'.world.inner.slab.payloadAt k = some p →
        s.world.inner.slab.payloadAt k = some p := by
      clear h
      induction hm with
      | refl => exact fun _ _ => id
      | tail _ hlast ih => exact fun k p hp => ih k p (hlast.payloadAt hp)
    have h' : Exclusive s' := by
      clear hpayload
      induction hm with
      | refl => exact h
      | tail _ hlast ih => exact ih.move hlast
    have hback : ∀ k, Guards s'.world.inner.slab f k → Guards s.world.inner.slab f k := by
      rintro k ⟨p, hp, hsequential⟩
      exact ⟨p, hpayload k p hp, hsequential⟩
    refine ⟨fun hbusy hidle => ?_, fun hidle hbusy => ?_, fun k p hp hsequential hgone hbusy => ?_⟩
    · obtain ⟨k, p, hp, hsequential⟩ := (h.busy_iff f).mp hbusy
      have hgone : s'.world.inner.slab.payloadAt k ≠ some p := by
        intro hp'
        exact hidle ((h'.busy_iff f).mpr ⟨k, p, hp', hsequential⟩)
      refine ⟨k, p, hp, hsequential, ?_, (Moves.payload_or hm hp).resolve_left hgone⟩
      refine Option.eq_none_iff_forall_not_mem.mpr fun q hq => hgone ?_
      cases hp.symm.trans (hpayload k q hq)
      exact hq
    · obtain ⟨k, hk⟩ := (h'.busy_iff f).mp hbusy
      exact absurd ((h.busy_iff f).mpr ⟨k, hback k hk⟩) hidle
    · obtain ⟨k', hk'⟩ := (h'.busy_iff f).mp hbusy
      obtain rfl := h.sole f k' k (hback k' hk') ⟨p, hp, hsequential⟩
      obtain ⟨q, hq, -⟩ := hk'
      cases hgone.symm.trans hq
  | accepted hmade ha =>
    have hbusy : s'.world.busy f = (s.world.busy f || _) := (ha.files f).2
    refine ⟨fun hbefore hafter => ?_, fun hbefore hafter => ?_, fun k q hq _ hgone => ?_⟩
    · rw [hbusy, hbefore] at hafter
      exact absurd rfl hafter
    · refine ⟨_, _, rfl, ?_⟩
      rw [hbusy, Bool.or_eq_true, decide_eq_true_iff] at hafter
      rw [← hmade.sequential]
      exact hafter.resolve_left hbefore
    · rw [ha.payloadAt, Function.update_apply] at hgone
      split at hgone
      · cases hgone
      · cases hgone.symm.trans hq
  | setCursor hs =>
    subst hs
    have hbusy := World.busy_setCursor s.world
    refine ⟨fun hbefore hafter => ?_, fun hbefore hafter => ?_, fun k p hp _ hgone => ?_⟩
    · exact absurd ((hbusy ..).trans hbefore) hafter
    · exact absurd ((hbusy ..).symm.trans hafter) hbefore
    · cases hgone.symm.trans hp

/-- A request that is rejected leaves every flag as it found it. -/
theorem busy_of_rejected {e : Rejection FileError} (hfree : s.borrow = .free)
    (hs : s.step (.start request a) = some s') (hissue : s.issue request a = some ((world, .error e), handles))
    (f : FileId) : s'.world.busy f = s.world.busy f := by
  obtain ⟨hstarted, -⟩ := issue_cases hissue
  rcases hstarted with ⟨e', slab, files, hleft, heq⟩ | ⟨t, p, e', heq, -⟩
  · obtain ⟨rfl, -⟩ := Prod.mk.inj heq
    have hstart : s.start request a = some s' := by
      simp only [Sys.step] at hs
      split at hs
      · cases hs
      · simpa [Sys.callerRuns, Sys.applicationStep, hfree] using hs
    simp only [Sys.start, hissue, Option.map_some, Option.some.injEq] at hstart
    exact hstart ▸ (hleft.files f).2
  · cases heq

/-- In every reachable state a file is busy exactly while one slot's payload
holds its guard, and at most one does. The flag goes up only when a sequential
request of the file is accepted; a rejected request leaves it as it was; it goes
down when the payload that holds the guard leaves the slab, and only then, which
is when that operation's own completion is reaped or at teardown. -/
theorem sequential_exclusive (hr : (systemMachine ws).Reachable s) (f : FileId) :
    (s.world.busy f ↔ ∃ k, Guards s.world.inner.slab f k) ∧
    (∀ k k', Guards s.world.inner.slab f k → Guards s.world.inner.slab f k' → k = k') ∧
    ∀ a s', s.step a = some s' →
      (s.world.busy f → ¬ s'.world.busy f → ∃ k p, s.world.inner.slab.payloadAt k = some p ∧
        p.sequential = some f ∧ s'.world.inner.slab.payloadAt k = none ∧ Ended s' k p) ∧
      (¬ s.world.busy f → s'.world.busy f → ∃ request answers,
        a = .start request answers ∧ request.sequential = some f) ∧
      (∀ k p, s.world.inner.slab.payloadAt k = some p → p.sequential = some f →
        s'.world.inner.slab.payloadAt k = none → ¬ s'.world.busy f) ∧
      ∀ request answers world e handles, a = .start request answers → s.borrow = .free →
        s.issue request answers = some ((world, .error e), handles) →
          s'.world.busy f = s.world.busy f := by
  have hexclusive := (kept_exclusive _).reachable hr
  refine ⟨hexclusive.busy_iff f, hexclusive.sole f, fun a s' hs => ?_⟩
  obtain ⟨hdown, hup, hgone⟩ := (step_stride (books_of_reachable hr).noneDescribed hs).busy hexclusive f
  refine ⟨hdown, hup, hgone, ?_⟩
  rintro request answers world e handles rfl hfree hissue
  exact busy_of_rejected hfree hs hissue f

/-- A sequential read whose future is dropped keeps its file busy until its own
completion is reaped. -/
theorem sequential_exclusive_dropped : ∃ s s' : Sys .w64, s.world.busy 3 ∧
    (∃ k, Guards s.world.inner.slab 3 k) ∧ s.futures 0 = none ∧
    s.step (.advance .willing) = some s' ∧ ¬ s'.world.busy 3 := by
  obtain ⟨s, s', hrun, hbusy, hgone, hs, hidle⟩ : ∃ s s', (systemMachine .w64).run .new
      [.start (.seqRead 3 (.owned ⟨4096, 512, 0⟩) 512) .willing, .pollDrive 7 .willing,
        .advance .willing, .advance .willing, .dropFuture 0 none,
        .execute ⟨.read (.raw 3) (.raw 4096) 512 0, 2 ^ 17⟩ ⟨0, 512⟩,
        .report ⟨.read (.raw 3) (.raw 4096) 512 0, 2 ^ 17⟩ ⟨0, 512⟩, .advance .willing] = some s ∧
      s.world.busy 3 = true ∧ (s.futures 0).isNone = true ∧ s.step (.advance .willing) = some s' ∧
      s'.world.busy 3 = false :=
    ⟨_, _, rfl, rfl, rfl, rfl, rfl⟩
  obtain ⟨hiff, -, -⟩ := sequential_exclusive (reachable_of_run hrun) 3
  exact ⟨s, s', hbusy, hiff.mp hbusy, Option.isNone_iff_eq_none.mp hgone, hs, by simp [hidle]⟩

end WinIoring.Runtime
