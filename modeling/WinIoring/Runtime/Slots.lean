import WinIoring.Runtime.Safety
import WinIoring.Runtime.Slab.Payloads

/-!
# Result slots

Every payload in the slab has a result slot of its own, unfilled, and every
future that has not been handed its result either has one waiting or has its
payload in the slab.
-/

namespace WinIoring.Runtime

open Slab

variable {ws : WordSize} {s s' : Sys ws} {w w' : World ws}

-- ---------------------------------------------------------------------------
-- The payloads of a system
-- ---------------------------------------------------------------------------

/-- The payloads the driver holds. -/
def Sys.payloads (s : Sys ws) : List OpPayload := s.world.inner.slab.payloads

theorem Accepted.payloads (h : Accepted s s' t p e f) : s'.payloads.Perm (p :: s.payloads) := by
  refine OpSlab.payloads_insert h.kind ?_ h.payloadAt
  cases hp : s.world.inner.slab.payloadAt t.key with
  | none => rfl
  | some q =>
    obtain ⟨op, hop, -⟩ := OpSlab.payloadAt_eq_some.mp hp
    exact absurd (OpSlab.issued_of_cell hop) h.unissued

-- ---------------------------------------------------------------------------
-- Filling a slot
-- ---------------------------------------------------------------------------

namespace World

theorem results_resolveCompletion (w : World ws) (p : OpPayload) (cqe : Cqe ws) :
    (w.resolveCompletion p cqe).1.results = Function.update w.results p.slot
      { completed := if (w.results p.slot).awaited then some (w.settled p cqe) else none
        waker := none
        awaited := (w.results p.slot).awaited } := by
  simp only [resolveCompletion, results_fill, results_raiseTransfer, results_settleRegistration,
    settled]

theorem results_resolveAbandoned (w : World ws) (p : OpPayload) :
    (w.resolveAbandoned p).1.results = Function.update w.results p.slot
      { completed := if (w.results p.slot).awaited then some (abandoned p) else none
        waker := none
        awaited := (w.results p.slot).awaited } := by
  simp only [resolveAbandoned, results_fill]
  rfl

theorem nextSlot_settleRegistration (w : World ws) (p : OpPayload)
    (result : Except Error Transferred) :
    (w.settleRegistration p result).1.nextSlot = w.nextSlot := by
  unfold settleRegistration
  cases p.pendingRegistration with
  | none => rfl
  | some pending => cases pending <;> cases result <;> rfl

theorem nextSlot_raiseTransfer (w : World ws) (p : OpPayload) (result : Except Error Transferred)
    (boxed : Option Boxed) : (w.raiseTransfer p result boxed).nextSlot = w.nextSlot := by
  unfold raiseTransfer
  split <;> rfl

@[simp] theorem nextSlot_resolveCompletion (w : World ws) (p : OpPayload) (cqe : Cqe ws) :
    (w.resolveCompletion p cqe).1.nextSlot = w.nextSlot := by
  simp only [resolveCompletion, nextSlot_fill, nextSlot_raiseTransfer, nextSlot_settleRegistration]

@[simp] theorem nextSlot_resolveAbandoned (w : World ws) (p : OpPayload) :
    (w.resolveAbandoned p).1.nextSlot = w.nextSlot := by
  simp [resolveAbandoned]

theorem dropRegistrations_frame (w : World ws) (rs : List RegId) :
    (w.dropRegistrations rs).results = w.results ∧ (w.dropRegistrations rs).nextSlot = w.nextSlot ∧
      (w.dropRegistrations rs).nextRegistry = w.nextRegistry ∧
      (w.dropRegistrations rs).files = w.files := by
  obtain ⟨_, _, h⟩ := w.dropRegistrations_eq rs
  rw [h]
  exact ⟨rfl, rfl, rfl, rfl⟩

/-- The world once its payloads have been abandoned, before its registrations
go. -/
def abandonAll (w : World ws) : World ws :=
  ((w.setInner { w.inner with slab := w.inner.slab.drain.1 }).resolveAllAbandoned
    w.inner.slab.drain.2).1

theorem release_frame (w : World ws) : w.release.1.results = w.abandonAll.results ∧
    w.release.1.nextSlot = w.abandonAll.nextSlot ∧
    w.release.1.nextRegistry = w.abandonAll.nextRegistry ∧
    w.release.1.files = w.abandonAll.files :=
  dropRegistrations_frame ..

/-- The rule for a closing ring: what resolving one payload keeps, with one
payload fewer to go, holds once they are all abandoned. -/
theorem abandonAll_induction {P : List OpPayload → World ws → Prop} (w : World ws)
    (h : P w.inner.slab.payloads (w.setInner { w.inner with slab := w.inner.slab.drain.1 }))
    (hstep : ∀ p ps w, P (p :: ps) w → P ps (w.resolveAbandoned p).1) : P [] w.abandonAll := by
  refine resolveAllAbandoned_consumes hstep _ _ ?_
  rw [OpSlab.drain_eq_payloads]
  exact h

end World

-- ---------------------------------------------------------------------------
-- The slots
-- ---------------------------------------------------------------------------

/-- Where the results of these payloads and futures are to be left. -/
structure Slotted (ps : List OpPayload) (w : World ws) (futures : SlotId → Option (Future ws)) :
    Prop where
  nodup : (ps.map OpPayload.slot).Nodup
  bounded : ∀ p ∈ ps, p.slot < w.nextSlot
  empty : ∀ p ∈ ps, (w.results p.slot).completed = none
  awaited : ∀ σ < w.nextSlot, (w.results σ).awaited = (futures σ).isSome
  gone : ∀ σ < w.nextSlot, futures σ = none → (w.results σ).completed = none
  future_lt : ∀ σ f, futures σ = some f → σ < w.nextSlot
  pending : ∀ σ f, futures σ = some f → (w.results σ).completed = none → ∃ p ∈ ps, p.slot = σ

namespace Slotted

variable {ps ps' : List OpPayload} {futures : SlotId → Option (Future ws)} {p : OpPayload}

theorem perm (h : Slotted ps w futures) (hps : ps'.Perm ps) : Slotted ps' w futures where
  nodup := (hps.map _).nodup_iff.mpr h.nodup
  bounded q hq := h.bounded q (hps.mem_iff.mp hq)
  empty q hq := h.empty q (hps.mem_iff.mp hq)
  awaited := h.awaited
  gone := h.gone
  future_lt := h.future_lt
  pending σ f hf he := by
    obtain ⟨q, hq, hslot⟩ := h.pending σ f hf he
    exact ⟨q, hps.mem_iff.mpr hq, hslot⟩

/-- The wakers in the slots do not matter. -/
theorem congr (h : Slotted ps w futures) (hnext : w'.nextSlot = w.nextSlot)
    (hcompleted : ∀ σ, (w'.results σ).completed = (w.results σ).completed)
    (hawaited : ∀ σ, (w'.results σ).awaited = (w.results σ).awaited) : Slotted ps w' futures where
  nodup := h.nodup
  bounded q hq := hnext ▸ h.bounded q hq
  empty q hq := (hcompleted _).trans (h.empty q hq)
  awaited σ hσ := (hawaited σ).trans (h.awaited σ (hnext ▸ hσ))
  gone σ hσ hf := (hcompleted σ).trans (h.gone σ (hnext ▸ hσ) hf)
  future_lt σ f hf := hnext ▸ h.future_lt σ f hf
  pending σ f hf he := h.pending σ f hf ((hcompleted σ).symm.trans he)

theorem of_results (h : Slotted ps w futures) (hnext : w'.nextSlot = w.nextSlot)
    (hresults : w'.results = w.results) : Slotted ps w' futures :=
  h.congr hnext (fun _ => by rw [hresults]) (fun _ => by rw [hresults])

/-- A payload is resolved: its slot is filled if anyone awaits it. -/
theorem fill (h : Slotted (p :: ps) w futures) (hnext : w'.nextSlot = w.nextSlot)
    (hresults : w'.results = Function.update w.results p.slot
      { completed := if (w.results p.slot).awaited then some completed else none
        waker := none
        awaited := (w.results p.slot).awaited }) : Slotted ps w' futures := by
  obtain ⟨hslot, hnodup⟩ := List.nodup_cons.mp h.nodup
  have hself := congrFun hresults p.slot
  rw [Function.update_self] at hself
  have hother : ∀ σ, σ ≠ p.slot → w'.results σ = w.results σ := by
    intro σ hσ
    rw [hresults, Function.update_of_ne hσ]
  have hne : ∀ q ∈ ps, q.slot ≠ p.slot := fun q hq hqp => hslot (hqp ▸ List.mem_map_of_mem hq)
  have hawaited := h.awaited p.slot (h.bounded p List.mem_cons_self)
  refine
    { nodup := hnodup
      bounded := fun q hq => hnext ▸ h.bounded q (List.mem_cons_of_mem _ hq)
      empty := fun q hq => ?_
      awaited := fun σ hσ => ?_
      gone := fun σ hσ hf => ?_
      future_lt := fun σ f hf => hnext ▸ h.future_lt σ f hf
      pending := fun σ f hf he => ?_ }
  · rw [hother _ (hne q hq)]
    exact h.empty q (List.mem_cons_of_mem _ hq)
  · by_cases hσp : σ = p.slot
    · subst hσp
      rw [hself]
      exact hawaited
    · rw [hother σ hσp]
      exact h.awaited σ (hnext ▸ hσ)
  · by_cases hσp : σ = p.slot
    · subst hσp
      rw [hself, hawaited, hf]
      rfl
    · rw [hother σ hσp]
      exact h.gone σ (hnext ▸ hσ) hf
  · by_cases hσp : σ = p.slot
    · subst hσp
      rw [hself, hawaited, hf] at he
      cases he
    · rw [hother σ hσp] at he
      obtain ⟨q, hq, hqσ⟩ := h.pending σ f hf he
      rcases List.mem_cons.mp hq with rfl | hq
      · exact absurd hqσ.symm hσp
      · exact ⟨q, hq, hqσ⟩

/-- A payload joins, with a fresh slot and a future. -/
theorem accept (h : Slotted ps w futures) (hslot : p.slot = w.nextSlot)
    (hnext : w'.nextSlot = w.nextSlot + 1)
    (hresults : w'.results = Function.update w.results w.nextSlot .new) :
    Slotted (p :: ps) w' (Function.update futures w.nextSlot (some f)) := by
  have hself : w'.results w.nextSlot = .new := by rw [hresults, Function.update_self]
  have hother : ∀ σ, σ ≠ w.nextSlot → w'.results σ = w.results σ := by
    intro σ hσ
    rw [hresults, Function.update_of_ne hσ]
  have hold : ∀ σ, σ < w'.nextSlot → σ ≠ w.nextSlot → σ < w.nextSlot := by
    intro σ hσ hne
    rw [hnext] at hσ
    exact Nat.lt_of_le_of_ne (Nat.le_of_lt_succ hσ) hne
  refine
    { nodup := ?_
      bounded := fun q hq => ?_
      empty := fun q hq => ?_
      awaited := fun σ hσ => ?_
      gone := fun σ hσ hf => ?_
      future_lt := fun σ g hf => ?_
      pending := fun σ g hf he => ?_ }
  · rw [List.map_cons, List.nodup_cons, hslot]
    refine ⟨fun hmem => ?_, h.nodup⟩
    obtain ⟨q, hq, hqs⟩ := List.mem_map.mp hmem
    exact absurd hqs (Nat.ne_of_lt (h.bounded q hq))
  · rw [hnext]
    rcases List.mem_cons.mp hq with rfl | hq
    · rw [hslot]
      exact Nat.lt_succ_self _
    · exact Nat.lt_succ_of_lt (h.bounded q hq)
  · rcases List.mem_cons.mp hq with rfl | hq
    · rw [hslot, hself]
      rfl
    · rw [hother _ (Nat.ne_of_lt (h.bounded q hq))]
      exact h.empty q hq
  · by_cases hσn : σ = w.nextSlot
    · subst hσn
      rw [hself, Function.update_self]
      rfl
    · rw [hother σ hσn, Function.update_of_ne hσn]
      exact h.awaited σ (hold σ hσ hσn)
  · by_cases hσn : σ = w.nextSlot
    · subst hσn
      rw [Function.update_self] at hf
      cases hf
    · rw [Function.update_of_ne hσn] at hf
      rw [hother σ hσn]
      exact h.gone σ (hold σ hσ hσn) hf
  · by_cases hσn : σ = w.nextSlot
    · rw [hσn, hnext]
      exact Nat.lt_succ_self _
    · rw [Function.update_of_ne hσn] at hf
      rw [hnext]
      exact Nat.lt_succ_of_lt (h.future_lt σ g hf)
  · by_cases hσn : σ = w.nextSlot
    · exact ⟨p, List.mem_cons_self, hslot.trans hσn.symm⟩
    · rw [Function.update_of_ne hσn] at hf
      rw [hother σ hσn] at he
      obtain ⟨q, hq, hqs⟩ := h.pending σ g hf he
      exact ⟨q, List.mem_cons_of_mem _ hq, hqs⟩

/-- A future goes, with whatever was left for it. -/
theorem forget {σ : SlotId} (slot : ResultSlot) (h : Slotted ps w futures)
    (hnext : w'.nextSlot = w.nextSlot) (hresults : w'.results =
      Function.update w.results σ { slot with completed := none, awaited := false }) :
    Slotted ps w' (Function.update futures σ none) := by
  have hself : (w'.results σ).completed = none ∧ (w'.results σ).awaited = false := by
    rw [hresults, Function.update_self]
    exact ⟨rfl, rfl⟩
  have hother : ∀ τ, τ ≠ σ → w'.results τ = w.results τ := by
    intro τ hτ
    rw [hresults, Function.update_of_ne hτ]
  refine
    { nodup := h.nodup
      bounded := fun q hq => hnext ▸ h.bounded q hq
      empty := fun q hq => ?_
      awaited := fun τ hτ => ?_
      gone := fun τ hτ hf => ?_
      future_lt := fun τ g hf => ?_
      pending := fun τ g hf he => ?_ }
  · by_cases hq' : q.slot = σ
    · rw [hq', hself.1]
    · rw [hother _ hq']
      exact h.empty q hq
  · by_cases hτσ : τ = σ
    · subst hτσ
      rw [hself.2, Function.update_self]
      rfl
    · rw [hother τ hτσ, Function.update_of_ne hτσ]
      exact h.awaited τ (hnext ▸ hτ)
  · by_cases hτσ : τ = σ
    · rw [hτσ, hself.1]
    · rw [Function.update_of_ne hτσ] at hf
      rw [hother τ hτσ]
      exact h.gone τ (hnext ▸ hτ) hf
  · by_cases hτσ : τ = σ
    · rw [hτσ, Function.update_self] at hf
      cases hf
    · rw [Function.update_of_ne hτσ] at hf
      exact hnext ▸ h.future_lt τ g hf
  · by_cases hτσ : τ = σ
    · rw [hτσ, Function.update_self] at hf
      cases hf
    · rw [Function.update_of_ne hτσ] at hf
      rw [hother τ hτσ] at he
      exact h.pending τ g hf he

end Slotted

theorem Sys.payloads_same (h : s'.world.inner.slab.payloadAt = s.world.inner.slab.payloadAt) :
    s'.payloads.Perm s.payloads :=
  OpSlab.payloads_same h

/-- A completion takes its operation's payload out of the slab. -/
theorem Sys.payloads_resolved {t : Token ws} (hkind : t.kind = .operation)
    (hop : s.world.inner.slab.cell t.key = some (.live op))
    (h : s'.world.inner.slab = (s.world.inner.slab.complete t).1) :
    s.payloads.Perm (op.payload :: s'.payloads) := by
  refine OpSlab.payloads_remove hkind (OpSlab.payloadAt_of_cell hop) ?_
  rw [h, OpSlab.payloadAt_complete hkind hop]

def Sys.Slotted (s : Sys ws) : Prop := Runtime.Slotted s.payloads s.world s.futures

/-- Slots are filled and emptied as payloads and futures come and go. -/
theorem kept_slotted (ok : Sys ws → Action ws → Prop) : Kept ok Sys.Slotted where
  initial s hs := by
    have hpayloads : s.payloads = [] := by
      rw [Sys.payloads, hs.inner]
      exact OpSlab.payloads_new
    have hnext := hs.nextSlot
    constructor <;> simp [hpayloads, hnext, hs.results]
  move s s' _ h hm := by
    have hslab : ∀ {s' : Sys ws}, s'.world.inner.slab.payloadAt = s.world.inner.slab.payloadAt →
        s'.world.nextSlot = s.world.nextSlot → s'.world.results = s.world.results →
        s'.futures = s.futures → s'.Slotted := by
      intro s' hpayloads hnext hresults hfutures
      rw [Sys.Slotted, hfutures]
      exact (h.perm (Sys.payloads_same hpayloads)).of_results hnext hresults
    cases hm with
    | quiet hq =>
      exact hslab (by rw [hq.world.inner.slab]) hq.world.nextSlot hq.world.results hq.futures
    | refused hcell => exact hslab (OpSlab.payloadAt_congr hcell) rfl rfl rfl
    | cancelled => exact hslab (OpSlab.payloadAt_registerCancel ..) rfl rfl rfl
    | submitted => exact hslab (OpSlab.payloadAt_promote _) rfl rfl rfl
    | reapedCancel => exact hslab (OpSlab.payloadAt_completeCancel ..) rfl rfl rfl
    | detached t => exact hslab (OpSlab.payloadAt_detach ..) rfl rfl rfl
    | resolved _ _ hkind hop =>
      exact (h.perm (Sys.payloads_resolved hkind hop (by simp [Sys.withWorld])).symm).fill (World.nextSlot_resolveCompletion ..)
        (World.results_resolveCompletion ..)
    | @released ring =>
      obtain ⟨hresults, hnext, -, -⟩ :=
        World.release_frame (s.world.setInner { s.world.inner with ring })
      have hnil : (s.withWorld (s.world.setInner { s.world.inner with ring }).release.1).payloads
          = [] := by
        rw [Sys.payloads, Sys.withWorld, World.release_inner]
        exact OpSlab.payloads_drain _
      rw [Sys.Slotted, hnil]
      refine Slotted.of_results ?_ hnext hresults
      refine World.abandonAll_induction (P := fun ps w => Slotted ps w s.futures) _ ?_ ?_
      · exact h.of_results rfl rfl
      · exact fun p ps w hps => hps.fill (by simp) (World.results_resolveAbandoned w p)
    | @polled _ _ _ σ =>
      refine h.congr rfl (fun τ => ?_) fun τ => ?_
      all_goals
        by_cases hτ : τ = σ
        · subst hτ
          simp [Sys.withWorld]
        · simp [Sys.withWorld, hτ]
    | @delivered future completed _ _ σ =>
      obtain ⟨_, _, hdeliver⟩ := s.world.deliver_eq σ future completed
      rw [Sys.Slotted, Sys.payloads, Sys.receive_world, Sys.receive_futures, World.inner_deliver]
      refine Slotted.forget (s.world.results σ) h ?_ ?_
      · rw [hdeliver]
        rfl
      · rw [hdeliver]
        rfl
    | @forgotten _ _ _ σ =>
      rw [Sys.Slotted, Sys.payloads, World.inner_dropFutureRef]
      exact Slotted.forget (s.world.results σ) h (by simp [World.dropFutureRef])
        (by simp [World.dropFutureRef])
    | handleDropped =>
      refine hslab ?_ ?_ ?_ rfl
      · rw [World.inner_dropHandle]
      · simp [World.dropHandle]
      · simp [World.dropHandle]
    | _ => exact hslab rfl rfl rfl rfl
  accepted s s' t p e f _ _ _ h _ _ ha := by
    rw [Sys.Slotted, ha.futures]
    exact (h.accept ha.admitted.slot ha.nextSlot ha.results).perm ha.payloads
  setCursor s file position _ h _ := h.of_results rfl rfl

end WinIoring.Runtime
