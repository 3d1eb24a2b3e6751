import WinIoring.Runtime.Balance

/-!
# Kernel memory safety

What the platform may still touch stays in the slab: an entry it has accepted
and not reported, or may yet accept, is backed by the payload it was built from.
-/

namespace WinIoring.Runtime

open Slab

variable {ws : WordSize} {s s' : Sys ws} {w : World ws}

-- ---------------------------------------------------------------------------
-- What a stretch of code adds to the trace
-- ---------------------------------------------------------------------------

namespace World

@[simp] theorem trace_dropRegistryRef (r : RegId) (u : Bool) :
    (w.dropRegistryRef r u).trace = w.trace :=
  (Same.dropRegistryRef w r u).trace

@[simp] theorem trace_dropHandle (h : RegisteredBuf) (u : Bool) :
    (w.dropHandle h u).trace = w.trace := by
  simp [dropHandle]

@[simp] theorem trace_dropOptional (b : Option Boxed) (u : Bool) :
    (w.dropOptional b u).trace = w.trace := by
  match b with
  | none => rfl
  | some (.buffer (.owned b)) => exact (Same.emit rfl).trace
  | some (.buffer (.handle h)) => exact trace_dropHandle h u
  | some (.collection r) => exact trace_dropRegistryRef r u
  | some (.pending (.buffers ..)) => exact (Same.emitAll (untraced_map (fun _ => rfl) _)).trace
  | some (.pending (.files _)) => rfl

@[simp] theorem trace_dropSlotRef (σ : SlotId) : (w.dropSlotRef σ).trace = w.trace := by
  simp only [dropSlotRef]
  split
  · rfl
  · simp

@[simp] theorem trace_dropFutureRef (σ : SlotId) (u : Bool) :
    (w.dropFutureRef σ u).trace = w.trace := by
  simp [dropFutureRef]

@[simp] theorem trace_dropRegistrations (rs : List RegId) :
    (w.dropRegistrations rs).trace = w.trace := by
  induction rs generalizing w with
  | nil => rfl
  | cons r rs ih => exact (ih (w := w.dropRegistryRef r true)).trans (trace_dropRegistryRef r true)

theorem trace_fill (p : OpPayload) (completed : CompletedOp) (cause : Cause ws) :
    (w.fill p completed cause).1.trace =
      .filled p.slot completed (w.results p.slot).waker cause :: w.trace := by
  simp only [fill, trace_dropGuard, trace_dropSlotRef, trace_setResult, trace_emit, Event.traced,
    if_true]

theorem trace_settleRegistration (p : OpPayload) (result : Except Error Transferred) :
    (w.settleRegistration p result).1.trace = w.trace := by
  unfold settleRegistration
  cases p.pendingRegistration with
  | none => rfl
  | some pending => cases pending <;> cases result <;> rfl

theorem trace_raiseTransfer (p : OpPayload) (result : Except Error Transferred)
    (boxed : Option Boxed) : (w.raiseTransfer p result boxed).trace = w.trace := by
  unfold raiseTransfer
  split <;> rfl

theorem results_settleRegistration (p : OpPayload) (result : Except Error Transferred) :
    (w.settleRegistration p result).1.results = w.results := by
  unfold settleRegistration
  cases p.pendingRegistration with
  | none => rfl
  | some pending => cases pending <;> cases result <;> rfl

theorem results_raiseTransfer (p : OpPayload) (result : Except Error Transferred)
    (boxed : Option Boxed) : (w.raiseTransfer p result boxed).results = w.results := by
  unfold raiseTransfer
  split <;> rfl

/-- What an operation's own completion leaves for its future. -/
def settled (w : World ws) (p : OpPayload) (cqe : Cqe ws) : CompletedOp :=
  let result := completionResult cqe.outcome
  let (w, boxed) := w.settleRegistration p result
  (result, (w.raiseTransfer p result boxed).refresh boxed)

theorem trace_resolveCompletion (p : OpPayload) (cqe : Cqe ws) :
    (w.resolveCompletion p cqe).1.trace =
      .filled p.slot (w.settled p cqe) (w.results p.slot).waker (.completion cqe) :: w.trace := by
  simp only [resolveCompletion, trace_fill, trace_raiseTransfer, trace_settleRegistration,
    results_raiseTransfer, results_settleRegistration, settled]

/-- What an operation the driver ended itself leaves for its future. -/
def abandoned (p : OpPayload) : CompletedOp :=
  (.error .abandonedAtShutdown,
    match p.pendingRegistration with
    | some pending => some (.pending pending)
    | none => p.buffer.map Boxed.buffer)

theorem trace_resolveAbandoned (p : OpPayload) :
    (w.resolveAbandoned p).1.trace =
      .filled p.slot (abandoned p) (w.results p.slot).waker .abandoned :: w.trace := by
  simp only [resolveAbandoned, trace_fill]
  rfl

theorem trace_release : w.release.1.trace =
    ((w.setInner { w.inner with slab := w.inner.slab.drain.1 }).resolveAllAbandoned
      w.inner.slab.drain.2).1.trace := by
  simp only [release, trace_setInner]
  rw [trace_emitAll (untraced_map (fun _ => rfl) _), trace_dropRegistrations]

/-- What a batch of abandoned operations adds to the trace. -/
theorem trace_resolveAllAbandoned (payloads : List OpPayload) :
    ∃ es, (w.resolveAllAbandoned payloads).1.trace = es ++ w.trace ∧
      ∀ e ∈ es, ∃ p ∈ payloads, ∃ waker, e = .filled p.slot (abandoned p) waker .abandoned :=
  resolveAllAbandoned_induction (P := fun w' => ∃ es, w'.trace = es ++ w.trace ∧
      ∀ e ∈ es, ∃ p ∈ payloads, ∃ waker, e = .filled p.slot (abandoned p) waker .abandoned)
    payloads w ⟨[], rfl, by simp⟩ fun w' p hp ⟨es, htrace, hes⟩ => by
      refine ⟨.filled p.slot (abandoned p) (w'.results p.slot).waker .abandoned :: es, ?_, ?_⟩
      · rw [trace_resolveAbandoned, htrace]
        rfl
      · rintro e he
        rcases List.mem_cons.mp he with rfl | he
        · exact ⟨p, hp, _, rfl⟩
        · exact hes e he

end World

theorem World.trace_deliver (w : World ws) (σ : SlotId) (future : Future ws)
    (completed : CompletedOp) :
    (w.deliver σ future completed).1.trace = .delivered σ completed :: w.trace := by
  obtain ⟨registries, files, h⟩ := w.deliver_eq σ future completed
  rw [h]
  rfl

/-- What the events a move logs say of the state it starts in. Those of requests
and `set_cursor` are not among them. -/
def Sys.Logs (s : Sys ws) : Event ws → Prop
  | .accepted .. | .seqStarted .. | .setCursor .. => False
  | .executed e outcome files buffers =>
    (∃ ring, s.world.inner.ring.execute e outcome = some ring) ∧
      files = s.world.inner.ring.filesInForce ∧ buffers = s.world.inner.ring.buffersInForce
  | _ => True

theorem Move.trace (h : Move b s s') : ∃ es, s'.world.trace = es ++ s.world.trace ∧
    ∀ e ∈ es, s.Logs e := by
  have hnone : ∀ {w : World ws}, w.trace = s.world.trace →
      ∃ es, w.trace = es ++ s.world.trace ∧ ∀ e ∈ es, s.Logs e :=
    fun h => ⟨[], h, by simp⟩
  have hone : ∀ {w : World ws} {e : Event ws}, w.trace = e :: s.world.trace → s.Logs e →
      ∃ es, w.trace = es ++ s.world.trace ∧ ∀ e ∈ es, s.Logs e :=
    fun {w e} h he => ⟨[e], h, by simpa using he⟩
  cases h with
  | quiet hq => exact hnone hq.world.trace
  | executed hring => exact hone rfl ⟨⟨_, hring⟩, rfl, rfl⟩
  | reported => exact hone rfl trivial
  | resolved => exact hone (World.trace_resolveCompletion ..) trivial
  | @released ring =>
    obtain ⟨es, htrace, hes⟩ := World.trace_resolveAllAbandoned
      (w := (s.world.setInner { s.world.inner with ring }).setInner
        { s.world.inner with ring, slab := s.world.inner.slab.drain.1 })
      s.world.inner.slab.drain.2
    refine ⟨es, World.trace_release.trans htrace, fun e he => ?_⟩
    obtain ⟨p, -, waker, rfl⟩ := hes e he
    trivial
  | polled => exact hone rfl trivial
  | delivered =>
    exact hone ((congrArg World.trace (Sys.receive_world ..)).trans (World.trace_deliver ..)) trivial
  | forgotten => exact hone (World.trace_dropFutureRef ..) trivial
  | filled => exact hone rfl trivial
  | handleDropped => exact hnone (World.trace_dropHandle ..)
  | _ => exact hnone rfl

theorem Move.suffix (h : Move b s s') : s.world.trace <:+ s'.world.trace := by
  obtain ⟨es, htrace, -⟩ := h.trace
  exact ⟨es, htrace.symm⟩

theorem Move.mem_of_trace (h : Move b s s') (he : e ∈ s'.world.trace) :
    e ∈ s.world.trace ∨ s.Logs e := by
  obtain ⟨es, htrace, hes⟩ := h.trace
  rw [htrace, List.mem_append] at he
  exact he.symm.imp_right (hes e)

/-- What a request left was there before the move. -/
theorem Move.mem_trace (h : Move b s s') (hrequested : ¬ s.Logs e) :
    e ∈ s'.world.trace ↔ e ∈ s.world.trace :=
  ⟨fun he => (h.mem_of_trace he).resolve_right hrequested, fun he => h.suffix.subset he⟩

theorem Move.mem_accepted (h : Move b s s') :
    .accepted t p checked ∈ s'.world.trace ↔ .accepted t p checked ∈ s.world.trace :=
  h.mem_trace id

theorem Move.issued (h : Move b s s') (hk : s.world.inner.slab.Issued k) :
    s'.world.inner.slab.Issued k := by
  cases h with
  | quiet hq => exact hq.world.inner.slab ▸ hk
  | refused _ hissued => exact hissued k hk
  | cancelled => exact OpSlab.issued_registerCancel.mpr hk
  | submitted => exact OpSlab.issued_promote.mpr hk
  | reapedCancel => exact OpSlab.issued_completeCancel.mpr hk
  | resolved =>
    rw [Sys.withWorld, World.slab_resolveCompletion]
    exact OpSlab.issued_complete.mpr hk
  | released =>
    rw [Sys.withWorld, World.release_inner]
    exact OpSlab.issued_drain.mpr hk
  | detached => exact OpSlab.issued_detach.mpr hk
  | delivered =>
    rw [Sys.receive_world, World.inner_deliver]
    exact hk
  | forgotten =>
    rw [World.inner_dropFutureRef]
    exact hk
  | handleDropped =>
    rw [World.inner_dropHandle]
    exact hk
  | _ => exact hk

/-- No move places a payload or changes one. -/
theorem Move.payloadAt (h : Move b s s') (hk : s'.world.inner.slab.payloadAt k = some p) :
    s.world.inner.slab.payloadAt k = some p := by
  cases h with
  | quiet hq => exact hq.world.inner.slab ▸ hk
  | refused hsame =>
    have := congrArg (fun c => (c k).bind Cell.payload?) hsame
    exact this.symm.trans hk
  | cancelled => exact (congrFun (OpSlab.payloadAt_registerCancel ..) k).symm.trans hk
  | submitted => exact (congrFun (OpSlab.payloadAt_promote _) k).symm.trans hk
  | reapedCancel => exact (congrFun (OpSlab.payloadAt_completeCancel ..) k).symm.trans hk
  | resolved _ _ hkind hop =>
    rw [Sys.withWorld, World.slab_resolveCompletion, World.setInner_inner,
      OpSlab.payloadAt_complete hkind hop, Function.update_apply] at hk
    split at hk
    · cases hk
    · exact hk
  | released =>
    rw [Sys.withWorld, World.release_inner] at hk
    exact absurd hk (by simp)
  | detached t => exact (congrFun (OpSlab.payloadAt_detach ..) k).symm.trans hk
  | delivered =>
    rw [Sys.receive_world, World.inner_deliver] at hk
    exact hk
  | forgotten =>
    rw [World.inner_dropFutureRef] at hk
    exact hk
  | handleDropped =>
    rw [World.inner_dropHandle] at hk
    exact hk
  | _ => exact hk

/-- No move gives the application a future. -/
theorem Move.futures (h : Move b s s') {σ : SlotId} {f : Future ws} (hf : s'.futures σ = some f) :
    s.futures σ = some f := by
  have hgone : ∀ {τ : SlotId}, Function.update s.futures τ none σ = some f →
      s.futures σ = some f := by
    intro τ hτ
    rw [Function.update_apply] at hτ
    split at hτ
    · cases hτ
    · exact hτ
  cases h with
  | quiet hq => exact hq.futures ▸ hf
  | delivered =>
    rw [Sys.receive_futures] at hf
    exact hgone hf
  | forgotten => exact hgone hf
  | _ => exact hf

theorem Accepted.payloadAt (h : Accepted s s' t p e f) : s'.world.inner.slab.payloadAt =
    Function.update s.world.inner.slab.payloadAt t.key (some p) :=
  OpSlab.payloadAt_update h.cell

theorem Accepted.mem_accepted (h : Accepted s s' t p e f) :
    .accepted u q checked ∈ s'.world.trace ↔
      (u = t ∧ q = p ∧ checked = s.world.inner.fileRegistration) ∨
        .accepted u q checked ∈ s.world.trace := by
  simp [h.trace]

-- ---------------------------------------------------------------------------
-- Safety
-- ---------------------------------------------------------------------------

theorem World.mem_log (h : e ∈ w.trace) : e ∈ w.log := List.mem_of_mem_filter h

/-- A payload in the slab is one an operation was accepted with. -/
def PayloadsAccepted (s : Sys ws) : Prop :=
  ∀ k p, s.world.inner.slab.payloadAt k = some p →
    ∃ t checked, t.kind = .operation ∧ t.key = k ∧ .accepted t p checked ∈ s.world.trace

theorem kept_accepted (ok : Sys ws → Action ws → Prop) : Kept ok PayloadsAccepted where
  initial s hs k p hk := by
    rw [hs.inner] at hk
    cases hk
  move s s' _ h hm k p hk := by
    obtain ⟨t, checked, hkind, hkey, hacc⟩ := h k p (hm.payloadAt hk)
    exact ⟨t, checked, hkind, hkey, hm.mem_accepted.mpr hacc⟩
  accepted s s' t p e f _ _ _ h _ _ ha k q hk := by
    rw [ha.payloadAt, Function.update_apply] at hk
    split at hk
    · rename_i hkey
      obtain rfl := Option.some.inj hk
      exact ⟨t, _, ha.kind, hkey.symm, ha.mem_accepted.mpr (.inl ⟨rfl, rfl, rfl⟩)⟩
    · obtain ⟨u, checked, hkind, hkey, hacc⟩ := h k q hk
      exact ⟨u, checked, hkind, hkey, ha.mem_accepted.mpr (.inr hacc)⟩
  setCursor s file position _ h _ k p hk := by
    obtain ⟨t, checked, hkind, hkey, hacc⟩ := h k p hk
    exact ⟨t, checked, hkind, hkey, List.mem_cons_of_mem _ hacc⟩

/-- A law of payloads that every admission establishes. -/
theorem kept_payloads {P : OpPayload → Prop} (hP : ∀ (w : World ws) p, Admitted w p → P p)
    (ok : Sys ws → Action ws → Prop) :
    Kept ok fun s => ∀ k p, s.world.inner.slab.payloadAt k = some p → P p where
  initial s hs k p hk := by
    rw [hs.inner] at hk
    cases hk
  move s s' _ h hm k p hk := h k p (hm.payloadAt hk)
  accepted s s' t p e f _ _ _ h _ _ ha k q hk := by
    rw [ha.payloadAt, Function.update_apply] at hk
    split at hk
    · obtain rfl := Option.some.inj hk
      exact hP _ _ ha.admitted
    · exact h k q hk
  setCursor s file position _ h _ := h

/-- Each token was accepted once. -/
structure AcceptedOnce (s : Sys ws) : Prop where
  issued : ∀ t p checked, .accepted t p checked ∈ s.world.trace →
    t.kind = .operation ∧ s.world.inner.slab.Issued t.key
  unique : ∀ t p p' checked checked', .accepted t p checked ∈ s.world.trace →
    .accepted t p' checked' ∈ s.world.trace → p = p' ∧ checked = checked'

theorem kept_acceptedOnce (ok : Sys ws → Action ws → Prop) : Kept ok AcceptedOnce where
  initial s hs := by
    have hnil : s.world.trace = [] := by
      rw [World.trace, hs.log]
      rfl
    constructor <;> simp [hnil]
  move s s' _ h hm :=
    { issued := fun t p checked hacc => by
        obtain ⟨hkind, hissued⟩ := h.issued t p checked (hm.mem_accepted.mp hacc)
        exact ⟨hkind, hm.issued hissued⟩
      unique := fun t p p' checked checked' hacc hacc' =>
        h.unique t p p' checked checked' (hm.mem_accepted.mp hacc) (hm.mem_accepted.mp hacc') }
  accepted s s' t p e f _ _ _ h _ _ ha := by
    have hfresh : ∀ q checked, .accepted t q checked ∉ s.world.trace :=
      fun q checked hacc => ha.unissued (h.issued t q checked hacc).2
    refine ⟨fun u q checked hacc => ?_, fun u q q' checked checked' hacc hacc' => ?_⟩
    · rcases ha.mem_accepted.mp hacc with ⟨rfl, -, -⟩ | hold
      · exact ⟨ha.kind, (ha.issued _).mpr (.inr rfl)⟩
      · obtain ⟨hkind, hissued⟩ := h.issued u q checked hold
        exact ⟨hkind, (ha.issued _).mpr (.inl hissued)⟩
    · rcases ha.mem_accepted.mp hacc with ⟨rfl, rfl, rfl⟩ | hold
      · rcases ha.mem_accepted.mp hacc' with ⟨-, rfl, rfl⟩ | hold'
        · exact ⟨rfl, rfl⟩
        · exact absurd hold' (hfresh _ _)
      · rcases ha.mem_accepted.mp hacc' with ⟨rfl, -, -⟩ | hold'
        · exact absurd hold (hfresh _ _)
        · exact h.unique u q q' checked checked' hold hold'
  setCursor s file position _ h _ := by
    have hmem : ∀ {t p checked}, .accepted t p checked ∈ (s.world.setCursor file position).trace →
        .accepted t p checked ∈ s.world.trace := by
      intro t p checked hacc
      rcases List.mem_cons.mp hacc with heq | hacc
      · cases heq
      · exact hacc
    exact ⟨fun t p checked hacc => h.issued t p checked (hmem hacc),
      fun t p p' checked checked' hacc hacc' =>
        h.unique t p p' checked checked' (hmem hacc) (hmem hacc')⟩

/-- Every payload is on record as accepted, and every token once. -/
def OnRecord (s : Sys ws) : Prop := PayloadsAccepted s ∧ AcceptedOnce s

theorem kept_onRecord (ok : Sys ws → Action ws → Prop) : Kept ok OnRecord :=
  (kept_accepted ok).and (kept_acceptedOnce ok).given

theorem OnRecord.accepted (h : OnRecord s) (hkind : t.kind = .operation)
    (hcell : s.world.inner.slab.cell t.key = some (.live op)) :
    ∃ checked, .accepted t op.payload checked ∈ s.world.trace := by
  obtain ⟨u, checked, hu, hkey, hacc⟩ := h.1 _ _ (OpSlab.payloadAt_of_cell hcell)
  obtain rfl := Token.ext_key (hu.trans hkind.symm) hkey
  exact ⟨checked, hacc⟩

/-- The payload an entry was accepted with is in the slab, and keeps alive all
the entry refers to. -/
def Held (s : Sys ws) (e : Sqe ws) : Prop :=
  ∃ p checked, s.world.inner.slab.payloadAt e.token.key = some p ∧ Backs p e.op ∧
    .accepted e.token p checked ∈ s.world.log

theorem Ledger.held (hr : (systemMachine ws).Reachable s)
    (h : Ledger s.world.inner.slab s.world.inner.ring s.world.inner.pendingSubmit)
    (he : e ∈ s.world.inner.ring.entries) (hkind : e.token.kind = .operation) : Held s e := by
  obtain ⟨op, hcell, hbacks⟩ := h.backed e he hkind
  have hp := OpSlab.payloadAt_of_cell hcell
  obtain ⟨t, checked, htkind, htkey, hacc⟩ := (kept_accepted _).reachable hr _ _ hp
  obtain rfl := Token.ext_key (htkind.trans hkind.symm) htkey
  exact ⟨op.payload, checked, hp, hbacks, World.mem_log hacc⟩

/-- Over every run: an operation's payload is in the slab while the platform has
its entry and has not reported it, and while the entry waits in the queue of an
open ring; and payloads are drained only once the ring is closed, with nothing
submitted and no tombstone. -/
theorem payload_outlives_kernel (hr : (systemMachine ws).Reachable s) :
    (∀ e ∈ s.world.inner.ring.inflight, e.token.kind = .operation → Held s e) ∧
    (∀ e outcome, (e, outcome) ∈ s.world.inner.ring.executed → e.token.kind = .operation →
      Held s e) ∧
    (s.world.inner.ring.closed = false →
      ∀ e ∈ s.world.inner.ring.queue, e.token.kind = .operation → Held s e) ∧
    ∀ task steps outcome closeFails world wakers,
      s.pc = .calling task [] [] (.drained steps outcome) → outcome ≠ .progressing →
      s.world.closeAndRelease closeFails = some (world, wakers) →
        (∃ ring, ring.closed = true ∧
          (world, wakers) = (s.world.setInner { s.world.inner with ring }).release) ∧
        ∀ k, s.world.inner.slab.cell k ≠ some .tombstone ∧
          ∀ op, s.world.inner.slab.cell k = some (.live op) → op.lifecycle ≠ .submitted := by
  have hb := books_of_reachable hr
  have hopen : ∀ e, e ∈ s.world.inner.ring.inflight ∨ (∃ o, (e, o) ∈ s.world.inner.ring.executed) →
      s.world.inner.ring.closed = false := by
    intro e he
    cases hc : s.world.inner.ring.closed with
    | false => rfl
    | true =>
      obtain ⟨hinflight, hexecuted, -⟩ := hb.completions_of_closed hc
      rcases he with he | ⟨o, he⟩
      · rw [hinflight] at he
        cases he
      · rw [hexecuted] at he
        cases he
  refine ⟨fun e he hkind => ?_, fun e o he hkind => ?_, fun hc e he hkind => ?_, ?_⟩
  · exact (hb.ledger (hopen e (.inl he))).held hr (by simp [IoRing.entries, he]) hkind
  · refine (hb.ledger (hopen e (.inr ⟨o, he⟩))).held hr ?_ hkind
    simp only [IoRing.entries, List.mem_append, List.mem_map]
    exact .inr ⟨(e, o), he, rfl⟩
  · exact (hb.ledger hc).held hr (by simp [IoRing.entries, he]) hkind
  · intro task steps outcome closeFails world wakers hpc hdone hclose
    have hsealed : s.pc.sealed = true := by
      rw [hpc]
      simpa [Pc.sealed] using hdone
    obtain ⟨ring, hring, hrelease⟩ := Option.map_eq_some_iff.mp hclose
    refine ⟨⟨ring, ?_, hrelease.symm⟩, OpSlab.awaitingKernel_eq_zero.mp (hb.sealed hsealed)⟩
    rw [Moves.closeLoop_eq hring]

/-- A read the platform has accepted. -/
theorem payload_outlives_kernel_reading : ∃ s : Sys .w64, ∃ e, s.world.inner.ring.inflight = [e] ∧
    Held s e := by
  let b : Buf := { address := 4096, capacity := 512, len := 0 }
  obtain ⟨s, hrun, hring⟩ : ∃ s, (systemMachine .w64).run .new
      [.start (.read 3 (.owned b) 512 0) .willing, .pollDrive 7 .willing] = some s ∧
      s.world.inner.ring.inflight = [⟨.read (.raw 3) (.raw 4096) 512 0, 2 ^ 17⟩] :=
    ⟨_, rfl, rfl⟩
  refine ⟨s, _, hring, ?_⟩
  exact (payload_outlives_kernel (reachable_of_run hrun)).1 _ (by simp [hring]) rfl

end WinIoring.Runtime
