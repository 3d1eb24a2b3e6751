import WinIoring.Runtime.Moves

/-!
# Strides

Every step of the system is a sequence of moves, or one accepted request, or one
`set_cursor`. The functions of the driver and its handles are opened here, once
each; the invariants speak of moves only.
-/

namespace WinIoring.Runtime

open Slab

variable {ws : WordSize} {s s' : Sys ws} {w w' : World ws}

-- ---------------------------------------------------------------------------
-- Quiet code
-- ---------------------------------------------------------------------------

namespace World

@[simp] theorem trace_setInner (d : DriverInner ws) : (w.setInner d).trace = w.trace := rfl

@[simp] theorem trace_setResult (σ : SlotId) (slot : ResultSlot) :
    (w.setResult σ slot).trace = w.trace := rfl

@[simp] theorem trace_setRegistry (r : RegId) (registry : RegistryInner) :
    (w.setRegistry r registry).trace = w.trace := rfl

@[simp] theorem trace_setFile (f : FileId) (state : FileState) :
    (w.setFile f state).trace = w.trace := rfl

theorem trace_emit (e : Event ws) :
    (w.emit e).trace = if e.traced then e :: w.trace else w.trace := by
  simp only [trace, emit_log, List.filter_cons]

theorem trace_emitAll (h : ∀ e ∈ es, e.traced = false) : (w.emitAll es).trace = w.trace := by
  have hnil : es.reverse.filter Event.traced = [] := by
    simpa [List.filter_eq_nil_iff] using h
  simp only [trace, emitAll_log, List.filter_append, hnil, List.nil_append]

theorem untraced_map {f : α → Event ws} (hf : ∀ x, (f x).traced = false) (l : List α) :
    ∀ e ∈ l.map f, e.traced = false := by
  intro e he
  obtain ⟨x, -, rfl⟩ := List.mem_map.mp he
  exact hf x

@[simp] theorem trace_dropGuard (guard : Option FileId) : (w.dropGuard guard).trace = w.trace := by
  rw [trace, log_dropGuard, trace]

theorem Same.setInner (h : w.inner.Same d) : w.Same (w.setInner d) :=
  { Same.refl w with inner := h }

theorem Same.emitAll (h : ∀ e ∈ es, e.traced = false) : w.Same (w.emitAll es) :=
  { Same.refl w with trace := trace_emitAll h }

theorem Same.emit (h : e.traced = false) : w.Same (w.emit e) :=
  { Same.refl w with trace := by rw [trace_emit, h]; rfl }

theorem Same.wakeOptional (w : World ws) (waker : Option Waker) : w.Same (w.wakeOptional waker) :=
  .emitAll (untraced_map (fun _ => rfl) _)

theorem Same.nudgeDriver (w : World ws) : w.Same w.nudgeDriver :=
  (Same.setInner (d := w.inner.nudge.1) (by constructor <;> rfl)).trans (.wakeOptional ..)

theorem Same.dropRegistryRef (w : World ws) (r : RegId) (u : Bool) :
    w.Same (w.dropRegistryRef r u) := by
  have hmarks : w.Same (w.setRegistry r { w.registries r with strong := (w.registries r).strong - 1 }) :=
    { Same.refl w with
      marks := fun q => by
        rw [setRegistry_registries, Function.update_apply]
        split
        · rename_i h
          rw [h]
          rfl
        · rfl }
  simp only [World.dropRegistryRef]
  split
  · exact hmarks.trans (.emitAll (untraced_map (fun _ => rfl) _))
  · exact hmarks

end World

theorem Quiet.ofWorld (h : s.world.Same w) : Quiet s (s.withWorld w) :=
  ⟨h, rfl, rfl, .inl, .inl⟩

theorem Quiet.trans (h : Quiet s s') (h' : Quiet s' s'') : Quiet s s'' where
  world := h.world.trans h'.world
  futures := h'.futures.trans h.futures
  handles := h'.handles.trans h.handles
  draining hd := by
    rcases h'.draining hd with hd | hd
    · exact h.draining hd
    · exact .inr (h.world.inner.shutdown ▸ hd)
  sealed hs := by
    rcases h'.sealed hs with hs | hs
    · exact h.sealed hs
    · exact .inr (h.world.inner.slab ▸ hs)

namespace Moves

theorem ofInner (h : s.world.inner.Same d) : Moves b s (s.withInner d) :=
  .single (.quiet (.ofWorld (.setInner h)))

theorem ofWorld (h : s.world.Same w) : Moves b s (s.withWorld w) := .single (.quiet (.ofWorld h))

-- ---------------------------------------------------------------------------
-- Cancellation
-- ---------------------------------------------------------------------------

/-- What asking for a cancellation comes to: nothing, a refusal by the ring, or one
entry queued against an operation the platform has. -/
theorem issueCancel_cases (d : DriverInner ws) (t : Token ws) (refusal : Option HResult) :
    d.Same (d.issueCancel t refusal) ∨
    (∃ op, t.kind = .operation ∧ d.slab.cell t.key = some (.live op) ∧ op.cancel = .neverRequested ∧
      { d with cancelHolds := d.cancelHolds.filter fun hold => hold.1 ≠ t.toCancel }.Same
        (d.issueCancel t refusal)) ∨
    ∃ op target, refusal = none ∧ d.tornDown = false ∧ d.ring.closed = false ∧
      t.kind = .operation ∧ d.slab.cell t.key = some (.live op) ∧ op.lifecycle = .submitted ∧
      op.cancel = .neverRequested ∧ op.payload.cancelTarget = some target ∧ t.asUserData ≠ 0 ∧
      { d with
        slab := (d.slab.registerCancel t).1
        ring := d.ring.push ⟨.cancel target.handle t.asUserData, t.toCancel.asUserData⟩
        pendingSubmit := true
        cancelHolds := d.cancelHolds ++ target.hold t.toCancel }.Same (d.issueCancel t refusal) := by
  unfold DriverInner.issueCancel
  split
  · exact .inl (.refl d)
  split
  · exact .inl (.refl d)
  split
  · exact .inl (.refl d)
  rename_i htorn hnonzero hstate
  split
  · exact .inl (.refl d)
  rename_i target htarget
  obtain ⟨p, hpayload, htarget⟩ := Option.bind_eq_some_iff.mp htarget
  obtain ⟨op, hcell, rfl⟩ := OpSlab.payload_eq_some.mp hpayload
  have hlife : op.lifecycle = .submitted := by
    simp only [ne_eq, not_not, Option.map_eq_some_iff, Prod.exists, exists_and_right,
      exists_eq_right] at hstate
    obtain ⟨o, hstate⟩ := hstate
    obtain ⟨op', hcell', hlife, -⟩ := OpSlab.state_eq_some.mp hstate
    cases hcell.symm.trans hcell'
    exact hlife
  split
  · exact .inl (.refl d)
  rename_i slab cancel hregister
  have hready : t.kind = .operation ∧ op.cancel = .neverRequested := by
    by_contra hno
    rw [OpSlab.registerCancel_inert] at hregister
    · cases hregister
    · intro hk op' hcell'
      cases hcell.symm.trans hcell'
      exact fun hc => hno ⟨hk, hc⟩
  obtain ⟨hkind, hcancel⟩ := hready
  obtain ⟨-, hresult⟩ := OpSlab.cell_registerCancel hkind hcell hcancel
  rw [hregister] at hresult
  obtain rfl := Option.some.inj hresult
  obtain rfl : slab = (d.slab.registerCancel t).1 := by rw [hregister]
  simp only [IoRing.buildCancelRequest]
  rcases IoRing.build_cases d.ring
    ⟨.cancel target.handle t.asUserData, t.toCancel.asUserData⟩ refusal with
    ⟨err, hb⟩ | ⟨hnone, hopen, hb⟩
  · rw [hb]
    refine .inr (.inl ⟨op, hkind, hcell, hcancel, ?_, rfl, rfl, rfl, rfl, rfl, rfl, rfl, rfl, rfl, ?_, rfl, rfl,
      rfl⟩)
    · exact OpSlab.registerCancel_retracted hkind hcell hcancel
    · show (d.cancelHolds ++ target.hold t.toCancel).filter _ = _
      cases target <;> simp [CancelTarget.hold]
  · rw [hb]
    refine .inr (.inr ⟨op, target, hnone, by simpa using htorn, hopen, hkind, hcell, hlife, hcancel,
      htarget, hnonzero, ?_⟩)
    constructor <;> rfl

theorem issueCancel (s : Sys ws) (t : Token ws) (refusal : Option HResult) :
    Moves b s (s.withInner (s.world.inner.issueCancel t refusal)) := by
  rcases issueCancel_cases s.world.inner t refusal with
    hsame | ⟨op, hkind, hcell, hcancel, hsame⟩ |
    ⟨op, target, -, htorn, hopen, hkind, hcell, hlife, hcancel, htarget, hnonzero, hsame⟩
  · exact ofInner hsame
  · exact .tail (.single (.retracted hkind hcell hcancel)) (.quiet (.ofWorld (.setInner hsame)))
  · have hcancelled := Move.cancelled (b := b) htorn hopen hkind hcell hlife hcancel htarget hnonzero
    exact .tail (.single hcancelled) (.quiet (.ofWorld (.setInner hsame)))

theorem issueCancels (s : Sys ws) (ts : List (Token ws)) (refusal : Token ws → Option HResult) :
    Moves b s (s.withInner (s.world.inner.issueCancels ts refusal)) := by
  induction ts generalizing s with
  | nil => exact .refl
  | cons t ts ih => exact (issueCancel s t _).trans (ih (s.withInner _))

theorem cancelAbandoned (s : Sys ws) (a : Answers ws)
    (hbuilt : ∀ k op, s.world.inner.slab.cell k = some (.live op) → op.lifecycle ≠ .built) :
    Moves b s (s.withInner (s.world.inner.cancelAbandoned a)) := by
  have hdeferred : Moves b s (s.withInner { s.world.inner with deferredCancels := [] }) :=
    .single (.recalled hbuilt)
  exact (hdeferred.trans (issueCancels ..)).trans (issueCancels ..)

theorem requestCancel (s : Sys ws) (t : Token ws) (refusal : Option HResult) :
    Moves b s (s.withInner (s.world.inner.requestCancel t refusal)) := by
  unfold DriverInner.requestCancel
  split
  · exact .refl
  split
  · exact issueCancel ..
  · rename_i state hother hstate
    obtain ⟨op, hcell, hlife, -⟩ :=
      OpSlab.state_eq_some.mp (show s.world.inner.slab.state t = some (state.1, state.2) from hstate)
    split
    · exact .refl
    · refine .single (.deferred hcell fun hsubmitted => hother state.2 ?_)
      rw [← hsubmitted, hlife]
  · exact .refl

-- ---------------------------------------------------------------------------
-- Submission
-- ---------------------------------------------------------------------------

theorem noteSubmitFailure (s : Sys ws) (e : Error) (hpending : s.world.inner.pendingSubmit = true) :
    Moves b s (s.withInner (s.world.inner.noteSubmitFailure e)) := by
  have hfaltered : Moves b s (s.withInner { s.world.inner with
      submitFailures := min (s.world.inner.submitFailures + 1) u32Max }) := .single (.faltered hpending)
  simp only [DriverInner.noteSubmitFailure]
  split
  · refine .tail hfaltered (.quiet (.ofWorld (.setInner ?_)))
    constructor <;> rfl
  · exact hfaltered

theorem submitPending (hsealed : s.pc.sealed = false) (a : Answers ws) :
    Moves b s (s.withInner (s.world.inner.submitPending a)) := by
  unfold DriverInner.submitPending
  split
  · exact .refl
  rename_i hpending
  split
  · rename_i ring entries hsubmit
    obtain ⟨hopen, hsub⟩ := IoRing.submit_ok (congrArg Prod.snd hsubmit)
    rw [hsubmit] at hsub
    refine .trans (.tail (.single (.submitted hsealed hopen hsub)) (.quiet (.ofWorld (.setInner ?_))))
      (cancelAbandoned _ a fun k op hop => ?_)
    · constructor <;> rfl
    · exact OpSlab.not_built_of_promote hop
  · rename_i ring e hsubmit
    have hring := IoRing.submit_error (congrArg Prod.snd hsubmit)
    rw [hsubmit] at hring
    obtain rfl : ring = s.world.inner.ring := hring
    exact noteSubmitFailure s _ (by simpa using hpending)

-- ---------------------------------------------------------------------------
-- Completions
-- ---------------------------------------------------------------------------

theorem reapOne (hsealed : s.pc.sealed = false) (failure : Option HResult) :
    Moves true s (s.withWorld (s.world.reapOne failure).1) := by
  unfold World.reapOne
  split
  · exact ofInner (by constructor <;> rfl)
  · exact .refl
  rename_i ring cqe hpop
  obtain ⟨rest, hcompletions, rfl⟩ := IoRing.pop_some hpop
  dsimp only
  split
  · rename_i hkind
    refine .tail (.single (.reapedCancel hsealed hcompletions hkind))
      (.quiet (.ofWorld (.setInner ?_)))
    constructor <;> rfl
  · rename_i hkind
    replace hkind : cqe.token.kind = .operation := by
      cases hk : cqe.token.kind with
      | operation => rfl
      | cancel => exact absurd hk hkind
    split
    · rename_i hcomplete
      refine .single (.reapedStray hsealed hcompletions hkind fun op hcell => ?_)
      have := (OpSlab.cell_complete hkind hcell).2
      rw [Cqe.token, hcomplete] at this
      cases this
    · rename_i slab payload hcomplete
      obtain ⟨op, hcell, rfl⟩ := OpSlab.complete_some hcomplete
      have hmove := Move.resolved hsealed hcompletions hkind hcell
      simp only [Cqe.token, hcomplete] at hmove
      exact .single hmove

-- ---------------------------------------------------------------------------
-- Teardown
-- ---------------------------------------------------------------------------

theorem drainBegin (hsealed : s.pc.sealed = false) (hslab : NoneDescribed s.world.inner.slab)
    (a : Answers ws) : Moves b s (s.withWorld (s.world.drainBegin a).1) := by
  have hnone : s.world.resolveUnqueued = (s.world, []) := by
    simp [World.resolveUnqueued, described_eq_nil hslab]
  simp only [World.drainBegin, hnone]
  have hsubmit := submitPending (b := b) hsealed a
  refine hsubmit.trans ?_
  generalize s.world.inner.submitPending a = d
  have hcancel : Moves b (s.withInner d) (s.withInner
      (if d.shutdown.rank ≥ ShutdownMode.immediate.rank then
        d.issueCancels d.slab.submittedUncancelled a.drainCancel
      else
        d)) := by
    split
    · exact issueCancels ..
    · exact .refl
  refine hcancel.trans ?_
  generalize (if d.shutdown.rank ≥ ShutdownMode.immediate.rank then
    d.issueCancels d.slab.submittedUncancelled a.drainCancel else d) = d
  split
  · rename_i hwait
    have hnil : d.slab.built = [] := List.length_eq_zero_iff.mp hwait.1
    have hbuilt : ∀ k op, d.slab.cell k = some (.live op) → op.lifecycle ≠ .built :=
      fun k op hcell => by simpa using OpSlab.tokensWhere_eq_nil.mp hnil k op hcell
    rcases IoRing.submit_waiting d.ring d.slab.outstanding a.wait with hsame | ⟨hopen, taken, hsub⟩
    · rw [hsame]
      exact .refl
    · exact .single (.waited (s := s.withInner d) hsealed hopen hbuilt hsub)
  · exact .refl

theorem closeLoop_eq {ring ring' : IoRing ws} (h : World.closeLoop ring fails n = some ring') :
    ring' = { ring with closed := true } := by
  induction n generalizing fails with
  | zero => cases h
  | succ n ih =>
    simp only [World.closeLoop, IoRing.close] at h
    cases hc : ring.closed with
    | true =>
      simp only [hc, if_true, Option.some.injEq] at h
      rw [← h, ← hc]
    | false =>
      by_cases hfails : fails > 0
      · simp only [hc, hfails, decide_true, if_true, Bool.false_eq_true, if_false] at h
        exact ih h
      · simp only [hc, hfails, decide_false, Bool.false_eq_true, if_false, Option.some.injEq] at h
        exact h.symm

end Moves

-- ---------------------------------------------------------------------------
-- Starting an operation
-- ---------------------------------------------------------------------------

section Start

variable {checks : Except Error Unit} {payload : OpPayload} {place : OpPayload → OpPayload}
  {build : IoRing ws → BitVec ws.bits → IoRing ws × Except RingError Unit}
  {accept : DriverInner ws → DriverInner ws} {op : SqeOp ws} {refusal : Option HResult}
  {recovery : Recovery} {given : List Buffer}

/-- Whatever rejects a request, the same buffers come back. -/
structure Recovery.Gives (r : Recovery) (payload placed : OpPayload) (given : List Buffer) : Prop where
  checks : r.checks = given
  full : r.full payload = given
  refused : r.refused placed = given

/-- The driver with an entry queued for a slot it has just filled. -/
def DriverInner.enqueue (d : DriverInner ws) (slab : OpSlab ws OpPayload) (e : Sqe ws) :
    DriverInner ws :=
  { d with ring := d.ring.push e, slab, pendingSubmit := true }

/-- Nothing is left of a request but a spent generation, or its entry is
queued. -/
theorem World.start_cases (w : World ws) (checks : Except Error Unit) (payload : OpPayload)
    (place : OpPayload → OpPayload) (accept : DriverInner ws → DriverInner ws)
    (hbuild : ∀ ring u, build ring u = IoRing.build ring ⟨op, u⟩ refusal)
    (hgives : recovery.Gives payload (place payload) given) :
    (∃ (e : Error) (slab : OpSlab ws OpPayload), slab.cell = w.inner.slab.cell ∧
      (∀ k, w.inner.slab.Issued k → slab.Issued k) ∧ slab.length ≤ w.inner.slab.length + 1 ∧
      w.start checks payload place build accept recovery =
        ((w.setInner { w.inner with slab }).dropGuard payload.sequential, .error (e, given))) ∨
    ∃ (t : Token ws) (slab : OpSlab ws OpPayload), checks = .ok () ∧ t.kind = .operation ∧
      firstGeneration ≤ t.generation ∧ ¬ w.inner.slab.Issued t.key ∧
      slab.cell = Function.update w.inner.slab.cell t.key (some (.live
        { lifecycle := .built, observer := .live, payload := place payload, cancel := .neverRequested })) ∧
      (∀ k, slab.Issued k ↔ w.inner.slab.Issued k ∨ k = t.key) ∧ w.inner.ring.closed = false ∧
      let inner := accept (w.inner.enqueue slab ⟨op, t.asUserData⟩)
      let placed := { (w.setInner inner).setResult w.nextSlot .new with nextSlot := w.nextSlot + 1 }
      w.start checks payload place build accept recovery =
        ((placed.emit (.accepted t (place payload) inner.fileRegistration)).nudgeDriver, .ok t) := by
  unfold World.start
  cases checks with
  | error e =>
    refine .inl ⟨e, w.inner.slab, rfl, fun _ => id, Nat.le_succ _, ?_⟩
    rw [← hgives.checks]
    rfl
  | ok u =>
    rcases w.inner.slab.insert_cases payload with hins | ⟨slab, t, hins, hkind, hgen, hfresh, hcell, hissued⟩
    · simp only [hins, hgives.full]
      exact .inl ⟨_, w.inner.slab, rfl, fun _ => id, Nat.le_succ _, rfl⟩
    simp only [hins, hbuild]
    have hlive : slab.cell t.key = some (.live (.fresh payload)) := by
      rw [hcell, Function.update_self]
    have hplaced := OpSlab.cell_payloadMut hlive place
    have hplace : (slab.payloadMut t place).cell t.key = some (.live (.fresh (place payload))) := by
      rw [hplaced, Function.update_self]
      rfl
    rcases IoRing.build_cases w.inner.ring ⟨op, t.asUserData⟩ refusal with
      ⟨err, hb⟩ | ⟨-, hopen, hb⟩
    · simp only [hb, (OpSlab.cell_complete hkind hplace).2, Occupant.fresh, Option.toList,
        List.flatMap_cons, List.flatMap_nil, List.append_nil, hgives.refused]
      refine .inl ⟨_, _, ?_, fun k hk => ?_, ?_, rfl⟩
      · rw [(OpSlab.cell_complete hkind hplace).1, hplaced, hcell, Function.update_idem,
          Function.update_idem]
        have hvacant : w.inner.slab.cell t.key = none := by
          cases hc : w.inner.slab.cell t.key with
          | none => rfl
          | some c => exact absurd (OpSlab.issued_of_cell hc) hfresh
        exact Function.update_eq_self_iff.mpr hvacant.symm
      · simp only [OpSlab.issued_complete, OpSlab.issued_payloadMut, hissued]
        exact .inl hk
      · have hgrown := w.inner.slab.length_insert payload
        simpa [hins] using hgrown
    · simp only [hb]
      refine .inr ⟨t, _, trivial, hkind, hgen, hfresh, ?_, fun k => ?_, hopen, rfl⟩
      · rw [OpSlab.cell_setLifecycle hplace, hplaced, hcell, Function.update_idem,
          Function.update_idem]
        rfl
      · simp only [OpSlab.issued_setLifecycle, OpSlab.issued_payloadMut, hissued]

/-- What a rejected request may leave behind: a spent slot generation, and a
file's type once it has been asked for. -/
structure Untouched (w : World ws) (slab : OpSlab ws OpPayload) (files : FileId → FileState) :
    Prop where
  cell : slab.cell = w.inner.slab.cell
  issued : ∀ k, w.inner.slab.Issued k → slab.Issued k
  length : slab.length ≤ w.inner.slab.length + 1
  files : ∀ f, (files f).cursor = (w.files f).cursor ∧
    (files f).sequentialOutstanding = (w.files f).sequentialOutstanding

/-- What an entry point makes of a request: it is rejected and `given` comes back,
or the driver takes it on. `es` is still to be logged. -/
def Started (s : Sys ws) (request : Request) (handles : List RegisteredBuf) (given : List Buffer)
    (es : List (Event ws)) (r : World ws × Except (Rejection ε) (Token ws)) : Prop :=
  (∃ e slab files, Untouched s.world slab files ∧
    r = ({ s.world with inner := { s.world.inner with slab }, files }, .error (e, given))) ∨
  ∃ t p e, r.2 = .ok t ∧ request.Made p ∧
    let future := { token := t, isRead := request.isRead, sequential := request.sequential }
    Accepted s
      { s with
        world := r.1.emitAll es
        handles
        futures := Function.update s.futures s.world.nextSlot (some future) }
      t p e future

/-- The event a sequential operation starts with. -/
def Sys.starts (s : Sys ws) (sequential : Option FileId) : List (Event ws) :=
  sequential.toList.map fun g => .seqStarted g s.world.nextSlot (s.world.files g).cursor

/-- The files as they are once a payload's sequential guard is raised. -/
structure Guarded (s : Sys ws) (files : FileId → FileState) (sequential : Option FileId) : Prop where
  files : ∀ g, (files g).cursor = (s.world.files g).cursor ∧
    (files g).sequentialOutstanding = ((s.world.files g).sequentialOutstanding || sequential = some g)
  free : ∀ g, sequential = some g → (s.world.files g).sequentialOutstanding = false

theorem Guarded.none (s : Sys ws) : Guarded s s.world.files none := ⟨by simp, by simp⟩

theorem started_of_start {files : FileId → FileState} {request : Request}
    (refusal : Option HResult) (op : SqeOp ws) (hmade : request.Made (place payload))
    (hsame : payload.sequential = (place payload).sequential)
    (hguarded : Guarded s files (place payload).sequential)
    (hbuild : ∀ ring u, build ring u = IoRing.build ring ⟨op, u⟩ refusal)
    (hadmitted : checks = .ok () → Admitted s.world (place payload))
    (hbacks : Backs (place payload) op)
    (hrange : checks = .ok () → RangeChecked s.world (place payload) op)
    (haccept : ∀ d : DriverInner ws, accept d = { d with
      registrationInFlight := d.registrationInFlight || (place payload).registersBuffers })
    (hhandles : s.handles.Perm ((place payload).handle.toList ++ handles))
    (hgives : recovery.Gives payload (place payload) given) :
    Started s request handles given (s.starts request.sequential)
      (World.start { s.world with files } checks payload place build accept recovery) := by
  obtain rfl := funext haccept
  rcases World.start_cases { s.world with files } checks payload place _ hbuild hgives with
    ⟨e, slab, hcell, hissued, hlength, heq⟩ |
    ⟨t, slab, hchecks, hkind, hgen, hfresh, hcell, hissued, hopen, heq⟩
  · rw [heq, hsame]
    have hguard : ∀ w : World ws, w.dropGuard (place payload).sequential =
        { w with files := (w.dropGuard (place payload).sequential).files } := by
      intro w
      cases (place payload).sequential <;> rfl
    rw [hguard]
    refine .inl ⟨e, slab, _, ⟨hcell, hissued, hlength, fun g => ?_⟩, rfl⟩
    rw [World.files_dropGuard]
    split
    · rename_i hg
      exact ⟨(hguarded.files g).1, (hguarded.free g hg).symm⟩
    · rename_i hg
      have := hguarded.files g
      simpa [hg] using this
  · rw [heq]
    refine .inr ⟨t, _, ⟨op, t.asUserData⟩, rfl, hmade, ?_⟩
    rw [← hmade.sequential]
    exact
      { admitted := hadmitted hchecks
        kind := hkind
        generation := hgen
        unissued := hfresh
        cell := hcell
        issued := hissued
        userData := rfl
        backs := hbacks
        range := hrange hchecks
        isOpen := hopen
        ring := rfl
        pendingSubmit := rfl
        tornDown := rfl
        shutdown := rfl
        bufferRegistration := rfl
        registrationInFlight := rfl
        retiredBufferRegistrations := rfl
        fileRegistration := rfl
        retiredFileRegistrations := rfl
        cancelHolds := rfl
        deferredCancels := rfl
        submitFailures := rfl
        submissions := rfl
        results := rfl
        nextSlot := rfl
        registries := rfl
        nextRegistry := rfl
        files := hguarded.files
        token := rfl
        sequential := rfl
        isRead := hmade.isRead
        futures := rfl
        handles := hhandles
        pc := rfl
        trace := by
          have hnudge := fun w : World ws => (World.Same.nudgeDriver w).trace
          rw [Sys.starts]
          cases (place payload).sequential with
          | none => exact hnudge _
          | some g => exact congrArg (List.cons _) (hnudge _) }

end Start

-- ---------------------------------------------------------------------------
-- The application
-- ---------------------------------------------------------------------------

/-- What the checks that come first everywhere establish. -/
theorem World.running_of_checkAccepting {a : StartAnswers} {o : OpCode}
    (h : w.checkAccepting a o = .ok u) : w.inner.shutdown = .running := by
  unfold World.checkAccepting at h
  split at h
  · cases h
  · rename_i hrunning
    exact not_not.mp hrunning

theorem perm_keepHandles (arg : BufArg) {b : Buffer} (h : s.bufArg arg = some b) :
    s.handles.Perm (b.handle?.toList ++ s.keepHandles arg) := by
  cases arg with
  | owned b' =>
    obtain rfl := Option.some.inj h
    exact .refl _
  | handle i =>
    obtain ⟨hd, hi, rfl⟩ := Option.map_eq_some_iff.mp h
    obtain ⟨hlt, rfl⟩ := List.getElem?_eq_some_iff.mp hi
    exact (List.getElem_cons_eraseIdx_perm hlt).symm

/-- A stretch of code that does not reap. -/
theorem Stride.calm (h : Moves false s s') : Stride s s' a := .moves h nofun

theorem Started.onFile {request : Request} {r : World ws × Except (Rejection Error) (Token ws)}
    (h : Started s request handles given es r) :
    Started s request handles given es (Sys.onFile r) := by
  rcases h with ⟨e, slab, files, huntouched, rfl⟩ | ⟨t, p, e, ht, hmade, h⟩
  · exact .inl ⟨_, slab, files, huntouched, rfl⟩
  · refine .inr ⟨t, p, e, ?_, hmade, h⟩
    rw [Sys.onFile, ht]
    rfl

/-- A read or write admits a payload that names no registration. -/
theorem admitted_transfer {buffer : Buffer} (hguarded : Guarded s files sequential)
    (hrunning : s.world.inner.shutdown = .running) : Admitted s.world
      { buffer := some buffer
        file := some file
        slot := s.world.nextSlot
        registeredBuffer := none
        registeredFile := none
        pendingRegistration := none
        sequential } where
  running := hrunning
  slot := rfl
  registeredFile := by simp
  registeredBuffer := by simp
  registration := by simp
  replacing := by simp
  watermarks := by simp
  sequential := hguarded.free

theorem ok_of_bind {x : Except Error Unit} {f : Unit → Except Error Unit} (h : x.bind f = .ok u) :
    x = .ok () ∧ f () = .ok u := by
  cases x with
  | error e => cases h
  | ok => exact ⟨rfl, h⟩

theorem World.current_of_checkRegistration {w : World ws} {h : RegisteredBuf}
    (hcheck : w.checkRegistration h = .ok u) : w.inner.bufferRegistration = some h.registry := by
  unfold World.checkRegistration at hcheck
  split at hcheck
  · rename_i current hcur
    split at hcheck
    · rename_i heq
      exact hcur.trans (congrArg some heq)
    · cases hcheck
  · cases hcheck

theorem range_of_checkReadCapacity {b : Buffer} (h : World.checkReadCapacity b len = .ok u) :
    len ≤ b.capacity := by
  unfold World.checkReadCapacity at h
  split at h
  · cases h
  · rename_i hle
    exact Nat.le_of_not_lt hle

theorem range_of_checkWriteInitialized {b : Buffer}
    (h : World.checkWriteInitialized b len = .ok u) : len ≤ b.len := by
  unfold World.checkWriteInitialized at h
  split at h
  · cases h
  · rename_i hle
    exact Nat.le_of_not_lt hle

theorem started_read (request : Request) {buffer : Buffer} (hguarded : Guarded s files request.sequential)
    (hplain : request.newFiles = none ∧ request.registeredFile = none)
    (hhandles : s.handles.Perm (buffer.handle?.toList ++ handles)) :
    Started s request handles [buffer] (s.starts request.sequential)
      (World.tryRead { s.world with files } file buffer len offset request.sequential a) := by
  refine started_of_start a.refusal _ ?_ ?_ hguarded (fun _ _ => rfl) (fun hchecks => ?_) ?_
    (fun hchecks => ?_) (fun _ => ?_) hhandles ⟨rfl, rfl, unboxPayloadOne_type rfl⟩
  · exact ⟨hplain.1.symm, hplain.2.symm, rfl, fun _ => rfl⟩
  · rfl
  · exact admitted_transfer hguarded (World.running_of_checkAccepting (ok_of_bind hchecks).1)
  · exact ⟨rfl, buffer, rfl, rfl⟩
  · intro b hb
    obtain rfl := Option.some.inj hb
    exact range_of_checkReadCapacity (ok_of_bind hchecks).2
  · simp [OpPayload.registersBuffers]

theorem started_write (request : Request) {buffer : Buffer} (hguarded : Guarded s files request.sequential)
    (hplain : request.newFiles = none ∧ request.registeredFile = none)
    (hhandles : s.handles.Perm (buffer.handle?.toList ++ handles)) :
    Started s request handles [buffer] (s.starts request.sequential)
      (World.tryWrite { s.world with files } file buffer len offset request.sequential a) := by
  refine started_of_start a.refusal _ ?_ ?_ hguarded (fun _ _ => rfl) (fun hchecks => ?_) ?_
    (fun hchecks => ?_) (fun _ => ?_) hhandles ⟨rfl, rfl, unboxPayloadOne_type rfl⟩
  · exact ⟨hplain.1.symm, hplain.2.symm, rfl, fun _ => rfl⟩
  · rfl
  · exact admitted_transfer hguarded (World.running_of_checkAccepting (ok_of_bind hchecks).1)
  · exact ⟨rfl, buffer, rfl, rfl⟩
  · intro b hb
    obtain rfl := Option.some.inj hb
    exact range_of_checkWriteInitialized (ok_of_bind hchecks).2
  · simp [OpPayload.registersBuffers]

theorem started_flush (s : Sys ws) (file : FileId) (a : StartAnswers) :
    Started s (.flush file) s.handles [] [] (s.world.tryFlush file a) := by
  refine started_of_start a.refusal _ ?_ ?_ (.none s) (fun _ _ => rfl) (fun hchecks => ?_) ?_
    (fun _ => rfl) (fun _ => ?_) ?_ ⟨rfl, rfl, rfl⟩
  · exact ⟨rfl, rfl, rfl, nofun⟩
  · rfl
  · exact
      { running := World.running_of_checkAccepting hchecks
        slot := rfl
        registeredFile := by simp
        registeredBuffer := by simp
        registration := by simp
        replacing := by simp
        watermarks := by simp
        sequential := by simp }
  · rfl
  · simp [OpPayload.registersBuffers]
  · exact .refl _

theorem started_registerBuffers (s : Sys ws) (buffers : List Buf) (a : StartAnswers) :
    Started s (.registerBuffers buffers) s.handles (buffers.map .owned) []
      (s.world.startRegisterBuffers buffers a) := by
  dsimp only [World.startRegisterBuffers]
  refine started_of_start a.refusal _ ?_ ?_ (.none s) (fun _ _ => rfl) (fun hchecks => ?_) ?_
    (fun _ => rfl) (fun _ => ?_) ?_ ⟨rfl, ?_, ?_⟩
  · exact ⟨rfl, rfl, rfl, nofun⟩
  · rfl
  · split at hchecks
    · cases hchecks
    simp only [World.checkRegisterBuffers] at hchecks
    split at hchecks
    · cases hchecks
    split at hchecks
    · cases hchecks
    split at hchecks
    · cases hchecks
    rename_i hrunning hidle _ hfree
    exact
      { running := not_not.mp hrunning
        slot := rfl
        registeredFile := by simp
        registeredBuffer := by simp
        registration := by simp
        replacing := fun _ _ _ _ _ _ => ⟨Bool.eq_false_iff.mpr hidle, hfree⟩
        watermarks := fun _ _ _ _ _ heq => by
          obtain ⟨rfl, -, -, rfl, -⟩ := PendingRegistration.buffers.inj (Option.some.inj heq)
          rfl
        sequential := by simp }
  · exact ⟨_, _, _, _, rfl⟩
  · simp [OpPayload.registersBuffers, PendingRegistration.isBuffers]
  · exact .refl _
  all_goals
    dsimp only [id]
    exact unboxPayload_buffers rfl

theorem started_registerFiles (s : Sys ws) (files : List FileId) (a : StartAnswers) :
    Started s (.registerFiles files) s.handles [] [] (s.world.startRegisterFiles files a) := by
  refine started_of_start a.refusal _ ?_ ?_ (.none s) (fun _ _ => rfl) (fun hchecks => ?_) ?_
    (fun _ => rfl) (fun _ => ?_) ?_ ⟨rfl, rfl, rfl⟩
  · exact ⟨rfl, rfl, rfl, nofun⟩
  · rfl
  · split at hchecks
    · cases hchecks
    exact
      { running := World.running_of_checkAccepting hchecks
        slot := rfl
        registeredFile := by simp
        registeredBuffer := by simp
        registration := by simp
        replacing := by simp
        watermarks := by simp
        sequential := by simp }
  · rfl
  · simp [OpPayload.registersBuffers, PendingRegistration.isBuffers]
  · exact .refl _

theorem started_registeredOp {h : RegisteredBuf} (hhandles : s.handles.Perm (h :: handles))
    (target : FileTarget) (i bufferOffset len fileOffset : Nat) (isWrite : Bool) (a : StartAnswers) :
    Started s (.registeredOp target i bufferOffset len fileOffset isWrite) handles [.handle h] []
      (s.world.tryRegisteredOp target h bufferOffset len fileOffset isWrite a) := by
  let op : SqeOp ws := if isWrite then
      .write (target.handle) (.registered h.index bufferOffset) len fileOffset
    else
      .read (target.handle) (.registered h.index bufferOffset) len fileOffset
  refine started_of_start a.refusal op ?_ ?_ (.none s) (fun _ _ => ?_) (fun hchecks => ?_) ?_
    (fun hchecks => ?_) (fun _ => ?_) hhandles ⟨rfl, rfl, rfl⟩
  · exact ⟨rfl, rfl, rfl, nofun⟩
  · rfl
  · cases isWrite <;> rfl
  · obtain ⟨haccepting, hchecks⟩ := ok_of_bind hchecks
    obtain ⟨hregistration, hchecks⟩ := ok_of_bind hchecks
    obtain ⟨-, htarget⟩ := ok_of_bind hchecks
    have hcurrent := World.current_of_checkRegistration hregistration
    exact
      { running := World.running_of_checkAccepting haccepting
        slot := rfl
        registeredFile := fun i hi => by
          cases target with
          | owned file => cases hi
          | registered index =>
            obtain rfl := Option.some.inj hi
            exact ⟨rfl, htarget⟩
        registeredBuffer := fun i offset hi => by
          obtain ⟨rfl, rfl⟩ := Prod.mk.inj (Option.some.inj hi)
          exact ⟨h, rfl, rfl, hcurrent⟩
        registration := by simp
        replacing := by simp
        watermarks := by simp
        sequential := by simp }
  · have htarget : Backs.BacksHandle
        { buffer := some (.handle h)
          file := target.file
          slot := s.world.nextSlot
          registeredBuffer := some (h.index, bufferOffset)
          registeredFile := target.index
          pendingRegistration := none
          sequential := none } target.handle := by
      cases target with
      | owned file => rfl
      | registered index => exact ⟨rfl, rfl⟩
    cases isWrite with
    | true => exact ⟨htarget, h, rfl, rfl, rfl⟩
    | false => exact ⟨htarget, h, rfl, rfl, rfl⟩
  · obtain ⟨-, hchecks⟩ := ok_of_bind hchecks
    obtain ⟨-, hchecks⟩ := ok_of_bind hchecks
    obtain ⟨hrange, -⟩ := ok_of_bind hchecks
    cases isWrite with
    | true => exact hrange
    | false => exact hrange
  · simp [OpPayload.registersBuffers]

/-- The handle's type is kept, whatever the check concludes. -/
theorem World.checkHasFileOffset_eq (w : World ws) (file : FileId) (a : StartAnswers) :
    ∃ fileType r, w.checkHasFileOffset file a =
      (w.setFile file { w.files file with fileType }, r) := by
  simp only [World.checkHasFileOffset]
  split
  · exact ⟨_, _, rfl⟩
  · exact ⟨_, _, rfl⟩

theorem started_sequential (s : Sys ws) (a : StartAnswers) {buffer : Buffer} {request : Request}
    {issue : World ws → Nat → World ws × Except (Rejection Error) (Token ws)}
    (hseq : request.sequential = some file)
    (hissue : ∀ files, Guarded s files request.sequential →
      Started s request handles [buffer] (s.starts request.sequential)
        (issue { s.world with files } (s.world.files file).cursor)) :
    Started s request handles [buffer] [] (s.world.sequential file buffer a issue) := by
  obtain ⟨fileType, r, hcheck⟩ := s.world.checkHasFileOffset_eq file a
  obtain ⟨files, hfiles, htyped⟩ : ∃ files,
      s.world.setFile file { s.world.files file with fileType } = { s.world with files } ∧
      ∀ g, (files g).cursor = (s.world.files g).cursor ∧
        (files g).sequentialOutstanding = (s.world.files g).sequentialOutstanding := by
    refine ⟨_, rfl, fun g => ?_⟩
    rw [Function.update_apply]
    split
    · rename_i hg
      subst hg
      exact ⟨rfl, rfl⟩
    · exact ⟨rfl, rfl⟩
  have huntouched : Untouched s.world s.world.inner.slab files :=
    ⟨rfl, fun _ => id, Nat.le_succ _, htyped⟩
  simp only [World.sequential, hcheck, hfiles]
  cases r with
  | error e => exact .inl ⟨_, _, _, huntouched, rfl⟩
  | ok =>
    dsimp only
    split
    · exact .inl ⟨_, _, _, huntouched, rfl⟩
    rename_i hdown
    rw [Bool.not_eq_true, (htyped file).2] at hdown
    have hguarded : Guarded s
        (Function.update files file { files file with sequentialOutstanding := true })
        (some file) := by
      refine ⟨fun g => ?_, fun g hg => Option.some.inj hg ▸ hdown⟩
      rw [Function.update_apply]
      split
      · rename_i hg
        subst hg
        exact ⟨(htyped g).1, by simp⟩
      · rename_i hg
        have hne : file ≠ g := fun he => hg he.symm
        simpa [hne] using htyped g
    have hstarted := hissue _ (hseq ▸ hguarded)
    rw [← (htyped file).1] at hstarted
    revert hstarted
    generalize hr : issue _ _ = r
    have hsame : issue (World.setFile { s.world with files } file
        { files file with sequentialOutstanding := true }) (files file).cursor = r := hr
    rw [hsame]
    obtain ⟨world, result⟩ := r
    simp only [Started, Sys.starts, hseq, Option.toList, List.map_cons, List.map_nil,
      ← (htyped file).1]
    rintro (⟨e, slab, files', hleft, heq⟩ | ⟨t, p, e, rfl, hmade, h⟩)
    · obtain ⟨rfl, rfl⟩ := Prod.mk.inj heq
      exact .inl ⟨_, slab, files', hleft, rfl⟩
    · exact .inr ⟨t, p, e, rfl, hmade, h⟩

/-- The buffers a request takes from its caller. -/
def Sys.given (s : Sys ws) : Request → List Buffer
  | .read _ arg _ _ | .write _ arg _ _ | .seqRead _ arg _ | .seqWrite _ arg _ =>
    (s.bufArg arg).toList
  | .registeredOp _ i _ _ _ _ => (s.bufArg (.handle i)).toList
  | .registerBuffers buffers => buffers.map .owned
  | .flush _ | .registerFiles _ => []

theorem issue_cases (h : s.issue r a = some (result, handles)) :
    Started s r handles (s.given r) [] result ∧
      s.handles.Perm ((s.given r).filterMap Buffer.handle? ++ handles) := by
  have hperm : ∀ {arg : BufArg} {b : Buffer}, s.bufArg arg = some b →
      (s.bufArg arg).toList = [b] ∧
        s.handles.Perm ([b].filterMap Buffer.handle? ++ s.keepHandles arg) := by
    intro arg b hb
    refine ⟨by rw [hb]; rfl, ?_⟩
    have hkeep := perm_keepHandles arg hb
    cases b <;> exact hkeep
  cases r with
  | read file arg len offset =>
    obtain ⟨b, hb, heq⟩ := Option.map_eq_some_iff.mp h
    obtain ⟨rfl, rfl⟩ := Prod.mk.inj heq
    obtain ⟨hgiven, hhandles⟩ := hperm hb
    simp only [Sys.given, hgiven]
    exact ⟨(started_read (.read file arg len offset) (.none s) ⟨rfl, rfl⟩
      (perm_keepHandles arg hb)).onFile, hhandles⟩
  | write file arg len offset =>
    obtain ⟨b, hb, heq⟩ := Option.map_eq_some_iff.mp h
    obtain ⟨rfl, rfl⟩ := Prod.mk.inj heq
    obtain ⟨hgiven, hhandles⟩ := hperm hb
    simp only [Sys.given, hgiven]
    exact ⟨(started_write (.write file arg len offset) (.none s) ⟨rfl, rfl⟩
      (perm_keepHandles arg hb)).onFile, hhandles⟩
  | flush file =>
    obtain ⟨rfl, rfl⟩ := Prod.mk.inj (Option.some.inj h)
    exact ⟨(started_flush s file a).onFile, .refl _⟩
  | seqRead file arg len =>
    obtain ⟨b, hb, heq⟩ := Option.map_eq_some_iff.mp h
    obtain ⟨rfl, rfl⟩ := Prod.mk.inj heq
    obtain ⟨hgiven, hhandles⟩ := hperm hb
    simp only [Sys.given, hgiven]
    exact ⟨started_sequential s a rfl fun files hguarded =>
      started_read (.seqRead file arg len) hguarded ⟨rfl, rfl⟩ (perm_keepHandles arg hb), hhandles⟩
  | seqWrite file arg len =>
    obtain ⟨b, hb, heq⟩ := Option.map_eq_some_iff.mp h
    obtain ⟨rfl, rfl⟩ := Prod.mk.inj heq
    obtain ⟨hgiven, hhandles⟩ := hperm hb
    simp only [Sys.given, hgiven]
    exact ⟨started_sequential s a rfl fun files hguarded =>
      started_write (.seqWrite file arg len) hguarded ⟨rfl, rfl⟩ (perm_keepHandles arg hb), hhandles⟩
  | registeredOp target i bufferOffset len fileOffset isWrite =>
    obtain ⟨hd, hi, heq⟩ := Option.map_eq_some_iff.mp h
    obtain ⟨rfl, rfl⟩ := Prod.mk.inj heq
    have harg : s.bufArg (.handle i) = some (.handle hd) := congrArg (Option.map Buffer.handle) hi
    obtain ⟨hgiven, hhandles⟩ := hperm harg
    simp only [Sys.given, hgiven]
    exact ⟨(started_registeredOp hhandles target i bufferOffset len fileOffset isWrite a).onFile,
      hhandles⟩
  | registerBuffers buffers =>
    obtain ⟨rfl, rfl⟩ := Prod.mk.inj (Option.some.inj h)
    refine ⟨(started_registerBuffers s buffers a).onFile, ?_⟩
    have hnone : (buffers.map Buffer.owned).filterMap Buffer.handle? = [] := by
      simp [List.filterMap_map, Function.comp_def, Buffer.handle?]
    rw [Sys.given, hnone]
    exact .refl _
  | registerFiles files =>
    obtain ⟨rfl, rfl⟩ := Prod.mk.inj (Option.some.inj h)
    exact ⟨(started_registerFiles s files a).onFile, .refl _⟩

theorem stride_start (h : s.start r a = some s') : Stride s s' (.start r answers) := by
  obtain ⟨⟨⟨world, result⟩, handles⟩, hissue, rfl⟩ := Option.map_eq_some_iff.mp h
  obtain ⟨hstarted, hhandles⟩ := issue_cases hissue
  rcases hstarted with ⟨e, slab, files, hleft, heq⟩ | ⟨t, p, e, heq, hmade, hacc⟩
  · obtain ⟨rfl, rfl⟩ := Prod.mk.inj heq
    exact .calm (.single (.refused hleft.cell hleft.issued hleft.files hhandles.symm))
  · dsimp only at heq
    subst heq
    exact .accepted hmade hacc

namespace Moves

/-- Reaping builds no entry. -/
theorem history_reapOne (w : World ws) (failure : Option HResult) :
    (w.reapOne failure).1.inner.ring.history = w.inner.ring.history := by
  unfold World.reapOne
  split
  · rfl
  · rfl
  rename_i ring cqe hpop
  obtain ⟨rest, -, rfl⟩ := IoRing.pop_some hpop
  dsimp only
  split
  · rfl
  split
  · rfl
  · rw [World.ring_resolveCompletion]
    rfl

/-- Code that ends somewhere else, with the borrow as it likes. -/
theorem land (h : Moves b s (s.withWorld w)) (hdraining : pc.draining → s.pc.draining ∨
      w.inner.shutdown ≠ .running)
    (hsealed : pc.sealed → s.pc.sealed ∨ w.inner.slab.awaitingKernel = 0) :
    Moves b s { s with world := w, event, waiters, collections, pc, borrow, reentered } :=
  h.tail (.quiet ⟨.refl _, rfl, rfl, hdraining, hsealed⟩)

theorem halt (s : Sys ws) : Moves b s s.halt :=
  .single (.quiet ⟨.refl _, rfl, rfl, (nomatch ·), (nomatch ·)⟩)

theorem call (h : Moves b s (s.withWorld (k s.world))) : Moves b s (s.call k) := by
  unfold Sys.call
  split
  · exact h.land .inl .inl
  · exact halt s

theorem cancel (s : Sys ws) (t : Token ws) (refusal : Option HResult) :
    Moves b s (s.withWorld (s.world.cancel t refusal)) := by
  refine (requestCancel s t refusal).trans (ofWorld ?_)
  exact .trans (.setInner (by constructor <;> rfl)) (.wakeOptional ..)

theorem escalate (s : Sys ws) (mode : ShutdownMode) :
    Moves b s (s.withWorld (s.world.escalate mode)) := by
  unfold World.escalate
  split
  · exact .refl
  · rename_i hless
    exact .tail (.single (.escalated (Nat.lt_of_not_le hless))) (.quiet (.ofWorld (.nudgeDriver _)))

theorem detachFuture (hslab : NoneDescribed s.world.inner.slab) (t : Token ws)
    (refusal : Option HResult) : Moves b s (s.withWorld (s.world.detachFuture t refusal)) := by
  by_cases hlive : ∃ op, s.world.inner.slab.cell t.key = some (.live op)
  · obtain ⟨op, hcell⟩ := hlive
    have hresult := OpSlab.detach_result hcell
    have hdetached := Move.detached (b := b) (s := s) t
    unfold World.detachFuture
    split
    · rename_i slab hdetach
      rw [hdetach] at hresult
      exact absurd (Option.some.inj hresult).symm (hslab _ _ hcell)
    · rename_i slab hdetach
      rw [hdetach] at hdetached
      exact .single hdetached
    · rename_i slab hdetach
      rw [hdetach] at hdetached
      refine ((Relation.ReflTransGen.single hdetached).trans (requestCancel _ t refusal)).trans
        (ofWorld ?_)
      exact .trans (.setInner (by constructor <;> rfl)) (.wakeOptional ..)
    · exact .refl
  · have hinert := OpSlab.detach_inert (not_exists.mp hlive)
    simp only [World.detachFuture, hinert]
    exact .refl

theorem dropFuture (hslab : NoneDescribed s.world.inner.slab)
    (h : s.dropFuture σ refusal = some s') : Moves b s s' := by
  obtain ⟨future, hfuture, rfl⟩ := Option.map_eq_some_iff.mp h
  dsimp only
  split
  · have hdetach := detachFuture (b := b) hslab future.token refusal
    have hforgotten := Move.forgotten (b := b) (s := s.withWorld (s.world.detachFuture future.token refusal))
      true false hfuture
    have hmoves := hdetach.tail hforgotten
    rename_i hfree
    simp only [Sys.call, hfree, if_true]
    exact hmoves.tail (.quiet ⟨.refl _, rfl, rfl, .inl, .inl⟩)
  · exact .single (.forgotten _ _ hfuture)

theorem poll (h : s.poll σ waker = some s') : Moves b s s' := by
  obtain ⟨future, hfuture, rfl⟩ := Option.map_eq_some_iff.mp h
  dsimp only
  split
  · rename_i hempty
    have hquiet : Moves b s (s.withWorld (s.world.emitAll
        ((s.world.results σ).waker.toList.map (.dropWaker · s.held)))) :=
      ofWorld (.emitAll (World.untraced_map (fun _ => rfl) _))
    exact hquiet.tail (.polled hfuture hempty)
  · rename_i completed hcompleted
    exact .single (.delivered hfuture hcompleted)

theorem checkOut_cases (w : World ws) (r : RegId) (index : Nat) :
    (∃ e, w.checkOut r index = (w, .error e)) ∨
    ∃ registry h, w.inner.tornDown = false ∧ w.inner.shutdown = .running ∧
      w.inner.registrationInFlight = false ∧ w.inner.bufferRegistration = some r ∧
      (w.registries r).claim r index = .ok (registry, h) ∧
      w.checkOut r index = (w.setRegistry r registry, .ok h) := by
  unfold World.checkOut
  split
  · exact .inl ⟨_, rfl⟩
  split
  · exact .inl ⟨_, rfl⟩
  split
  · exact .inl ⟨_, rfl⟩
  rename_i hopen hidle hcurrent
  rw [not_or, not_not, Bool.not_eq_true] at hopen
  split
  · exact .inl ⟨_, rfl⟩
  · rename_i registry hd hclaim
    exact .inr ⟨registry, hd, hopen.1, hopen.2, Bool.eq_false_iff.mpr hidle, not_not.mp hcurrent,
      hclaim, rfl⟩

theorem checkOut (h : s.checkOut collection index = some s') : Moves b s s' := by
  obtain ⟨r, -, rfl⟩ := Option.map_eq_some_iff.mp h
  split
  · rcases checkOut_cases s.world r index with
      ⟨e, heq⟩ | ⟨registry, hd, htorn, hrunning, hidle, hcurrent, hclaim, heq⟩
    · simp only [heq]
      exact .refl
    · simp only [heq]
      exact .single (.checkedOut htorn hrunning hidle hcurrent hclaim)
  · exact halt s

theorem fill (h : s.fill i len = some s') : Moves b s s' := by
  obtain ⟨hd, hhandle, rfl⟩ := Option.map_eq_some_iff.mp h
  split
  · exact .refl
  · rename_i hlen
    exact .single (.filled hhandle (Nat.le_of_not_lt hlen))

theorem dropHandle (h : s.dropHandle i = some s') : Moves b s s' := by
  obtain ⟨hd, hhandle, rfl⟩ := Option.map_eq_some_iff.mp h
  exact .single (.handleDropped hhandle)

theorem cloneCollection (h : s.cloneCollection i = some s') : Moves b s s' := by
  obtain ⟨r, -, rfl⟩ := Option.map_eq_some_iff.mp h
  have hmarks : s.world.Same (s.world.setRegistry r
      { s.world.registries r with strong := (s.world.registries r).strong + 1 }) :=
    { World.Same.refl s.world with
      marks := fun q => by
        rw [World.setRegistry_registries, Function.update_apply]
        split
        · rename_i h
          rw [h]
          rfl
        · rfl }
  exact (ofWorld hmarks).land .inl .inl

theorem dropCollection (h : s.dropCollection i = some s') : Moves b s s' := by
  obtain ⟨r, -, rfl⟩ := Option.map_eq_some_iff.mp h
  exact (ofWorld (.dropRegistryRef ..)).land .inl .inl

theorem pollShutdown (h : s.pollShutdown waiter waker = some s') : Moves b s s' := by
  unfold Sys.pollShutdown at h
  split at h
  · obtain rfl := Option.some.inj h
    exact halt s
  split at h
  · obtain rfl := Option.some.inj h
    exact .refl
  split at h
  · obtain rfl := Option.some.inj h
    have hsame : s.world.Same (s.world.pollShutdownFirst waker).1 := .setInner (by constructor <;> rfl)
    exact (ofWorld hsame).land .inl .inl
  · split at h
    · obtain rfl := Option.some.inj h
      refine call (ofWorld (.trans (.setInner ?_) (.emitAll ?_)))
      · constructor <;> rfl
      · exact World.untraced_map (fun _ => rfl) _
    · cases h

theorem dropShutdown {waiter : Nat} (h : s.dropShutdown waiter = some s') : Moves b s s' := by
  unfold Sys.dropShutdown at h
  split at h
  · dsimp only at h
    split at h <;> obtain rfl := Option.some.inj h
    · have hwaiters : Moves b s { s with waiters := s.waiters.erase waiter } :=
        (ofWorld (.refl _)).land .inl .inl
      refine hwaiters.trans (call (ofWorld (.trans (.setInner ?_) (.emitAll ?_))))
      · constructor <;> rfl
      · exact World.untraced_map (fun _ => rfl) _
    · exact (ofWorld (.refl _)).land .inl .inl
  · cases h

-- ---------------------------------------------------------------------------
-- The driver's loop
-- ---------------------------------------------------------------------------

theorem beginPass (hsealed : s.pc.sealed = false) (waker : Waker) (a : Answers ws) :
    Moves b s (s.beginPass waker a) :=
  (submitPending hsealed a).land (nomatch ·) (nomatch ·)

theorem beginDrain (hslab : NoneDescribed s.world.inner.slab)
    (hdraining : s.pc.draining ∨ s.world.inner.shutdown ≠ .running) (task : Task) (steps : Nat)
    (a : Answers ws) : Moves b s (s.beginDrain task steps a) := by
  have hpc : ∀ wakers, (Pc.reaping task (.drain steps) wakers).draining := by
    cases task <;> exact fun _ => rfl
  have hmark : Moves b s { s with pc := .reaping task (.drain steps) [] } :=
    .single (.quiet ⟨.refl _, rfl, rfl, fun _ => hdraining, (nomatch ·)⟩)
  have hbegin := drainBegin (b := b) (s := { s with pc := .reaping task (.drain steps) [] }) rfl hslab a
  have hdrain : Moves b s (s.driverStep (s.world.drainBegin a).1
      (.reaping task (.drain steps) (s.world.drainBegin a).2)) :=
    hmark.trans (land hbegin (fun _ => .inl (hpc _)) (nomatch ·))
  unfold Sys.beginDrain
  split
  · exact (ofWorld (.refl _)).land (nomatch ·) (nomatch ·)
  · exact hdrain

theorem awaitingKernel_of_drainOutcome (h : s.world.drainOutcome ≠ .progressing) :
    s.world.inner.slab.awaitingKernel = 0 := by
  unfold World.drainOutcome at h
  split at h
  · rename_i hnone
    rw [OpSlab.outstanding_eq_zero] at hnone
    exact OpSlab.awaitingKernel_eq_zero.mpr fun k => by simp [hnone k]
  split at h
  · rename_i hresidue
    exact hresidue.1
  · exact absurd rfl h

theorem endReaping (hpc : s.pc = .reaping task loop wakers) :
    Moves b s (s.endReaping task loop wakers) := by
  unfold Sys.endReaping
  cases loop with
  | pass =>
    have hsame : s.world.Same (s.world.setInner s.world.inner.takeReports.1) :=
      .setInner (by constructor <;> rfl)
    refine (ofWorld hsame).land (fun hdraining => ?_) (nomatch ·)
    cases task with
    | drop => exact .inl (by rw [hpc]; rfl)
    | drive w =>
      right
      by_contra hrunning
      have hrunning' : s.world.inner.shutdown = .running := hrunning
      simp [Pc.draining, hrunning'] at hdraining
  | drain steps =>
    have hsame : s.world.Same (s.world.setInner
        (s.world.inner.reportSlowDrain (min (steps + 1) u32Max)).takeReports.1) := by
      refine .setInner ?_
      unfold DriverInner.reportSlowDrain
      split
      · constructor <;> rfl
      split
      · constructor <;> rfl
      · constructor <;> rfl
    refine (ofWorld hsame).land (fun _ => .inl ?_) (fun hsealed => .inr ?_)
    · rw [hpc]
      cases task <;> rfl
    · rw [hsame.inner.slab]
      exact awaitingKernel_of_drainOutcome (by simpa [Pc.sealed] using hsealed)

theorem parkPoll (s : Sys ws) (waker : Waker) : Moves b s (s.parkPoll waker) := by
  unfold Sys.parkPoll
  dsimp only
  split
  · refine (ofWorld (.trans (.setInner ?_) (.emitAll (World.untraced_map (fun _ => rfl) _)))).land
      (nomatch ·) (nomatch ·)
    constructor <;> rfl
  · refine (ofWorld (.trans (.setInner ?_) (.emitAll (World.untraced_map (fun _ => rfl) _)))).land
      (nomatch ·) (nomatch ·)
    constructor <;> rfl

theorem pollSignalled (s : Sys ws) (waker : Waker) : Moves b s (s.pollSignalled waker) := by
  unfold Sys.pollSignalled
  dsimp only
  split
  · refine (ofWorld (.trans (.setInner ?_) (.emitAll (World.untraced_map (fun _ => rfl) _)))).land
      (nomatch ·) (nomatch ·)
    constructor <;> rfl
  · exact (ofWorld (.emitAll (World.untraced_map (fun _ => rfl) _))).land (nomatch ·) (nomatch ·)

theorem dropPark (s : Sys ws) : Moves b s s.dropPark := by
  refine (ofWorld (.trans (.setInner ?_) (.emitAll (World.untraced_map (fun _ => rfl) _)))).land
    .inl .inl
  constructor <;> rfl

theorem yieldNow (s : Sys ws) (waker : Waker) (hdraining : pc.draining → s.pc.draining)
    (hsealed : pc.sealed → s.pc.sealed) : Moves b s (s.yieldNow waker pc) :=
  (ofWorld (.emit rfl)).land (fun h => .inl (hdraining h)) (fun h => .inl (hsealed h))

theorem closing (hsealed : s.pc.sealed) (task : Task) (a : Answers ws) :
    Moves b s (s.closing task a) := by
  unfold Sys.closing World.closeAndRelease
  cases hclose : World.closeLoop s.world.inner.ring a.closeFails closeAttempts with
  | none => exact halt s
  | some ring =>
    have hreleased := Move.released (b := b) hsealed (closeLoop_eq hclose)
    have hreports : ∀ w : World ws, w.Same (w.setInner w.inner.takeReports.1) :=
      fun w => .setInner (by constructor <;> rfl)
    have hmoves := (Relation.ReflTransGen.single hreleased).trans (ofWorld (hreports _))
    exact land hmoves (fun _ => .inl (Pc.draining_of_sealed hsealed)) (nomatch ·)

theorem resume (hpc : s.pc = .calling task [] [] next) (hslab : NoneDescribed s.world.inner.slab)
    (a : Answers ws) : Moves b s (s.resume task a next) := by
  unfold Sys.resume
  cases next with
  | decide shuttingDown retryOwed =>
    cases task with
    | drop => exact beginDrain hslab (.inl (by rw [hpc]; rfl)) ..
    | drive w =>
      dsimp only
      split
      · rename_i hdown
        exact beginDrain hslab (.inl (by rw [hpc, hdown]; rfl)) ..
      split
      · exact yieldNow s w (nomatch ·) (nomatch ·)
      · exact parkPoll s w
  | drained steps outcome =>
    cases outcome with
    | progressing =>
      cases task with
      | drop => exact beginDrain hslab (.inl (by rw [hpc]; rfl)) ..
      | drive w => exact yieldNow s w (fun _ => by rw [hpc]; rfl) (nomatch ·)
    | quiescent => exact closing (by rw [hpc]; rfl) task a
    | unsubmittableResidue => exact closing (by rw [hpc]; rfl) task a
  | finished =>
    cases task with
    | drop => exact (ofWorld (.refl _)).land (nomatch ·) (nomatch ·)
    | drive w => exact (ofWorld (.refl _)).land (nomatch ·) (nomatch ·)

/-- The end of a stretch of reaping builds no entry. -/
theorem history_endReaping (s : Sys ws) (task : Task) (loop : Loop) (wakers : List Waker) :
    (s.endReaping task loop wakers).world.inner.ring.history = s.world.inner.ring.history := by
  unfold Sys.endReaping
  cases loop with
  | pass => rfl
  | drain steps =>
    simp only [Sys.freeStep, World.setInner_inner, DriverInner.takeReports, DriverInner.reportSlowDrain]
    split
    · rfl
    split
    · rfl
    · rfl

theorem advance (hslab : NoneDescribed s.world.inner.slab) (h : s.advance a = some s') :
    ∃ b, Moves b s s' ∧
      (b = true → s'.world.inner.ring.history = s.world.inner.ring.history) := by
  have hplain : ∀ {s'}, Moves false s s' → ∃ b, Moves b s s' ∧
      (b = true → s'.world.inner.ring.history = s.world.inner.ring.history) :=
    fun h => ⟨false, h, nofun⟩
  unfold Sys.advance at h
  split at h
  · rename_i task loop wakers hpc
    have hreap := reapOne (by rw [hpc]; rfl) a.pop
    have hhistory := history_reapOne s.world a.pop
    split at h <;> obtain rfl := Option.some.inj h
    · rename_i world more hone
      rw [hone] at hreap hhistory
      refine ⟨true, hreap.land (fun hdraining => .inl ?_) (nomatch ·), fun _ => hhistory⟩
      rw [hpc]
      cases task <;> cases loop <;> exact hdraining
    · rename_i world hone
      rw [hone] at hreap hhistory
      exact ⟨true, hreap.trans (endReaping hpc),
        fun _ => (history_endReaping ..).trans hhistory⟩
  · rename_i task waker rest reports next hpc
    obtain rfl := Option.some.inj h
    refine hplain ((ofWorld (.emit rfl)).land (fun hdraining => .inl ?_) (fun hsealed => .inl ?_))
    · rw [hpc]
      exact (Pc.draining_calling ..).trans hdraining
    · rw [hpc]
      exact (Pc.sealed_calling ..).trans hsealed
  · rename_i task e rest next hpc
    obtain rfl := Option.some.inj h
    have hobserve : s.world.Same (if s.observer then s.world.emit (.observe e false) else s.world) := by
      split
      · exact .emit rfl
      · exact .refl _
    refine hplain ((ofWorld hobserve).land (fun hdraining => .inl ?_) (fun hsealed => .inl ?_))
    · rw [hpc]
      exact (Pc.draining_calling ..).trans hdraining
    · rw [hpc]
      exact (Pc.sealed_calling ..).trans hsealed
  · rename_i task next hpc
    obtain rfl := Option.some.inj h
    exact hplain (resume hpc hslab a)
  · obtain rfl := Option.some.inj h
    exact hplain (pollSignalled ..)
  · rename_i waker hpc
    obtain rfl := Option.some.inj h
    refine hplain ((dropPark s).trans (beginPass ?_ waker a))
    exact congrArg Pc.sealed hpc
  · rename_i task wakers reports hpc
    obtain rfl := Option.some.inj h
    exact hplain ((ofWorld (.refl _)).land (fun _ => .inl (by rw [hpc]; rfl)) (nomatch ·))
  · cases h

theorem pollDrive (hslab : NoneDescribed s.world.inner.slab) (h : s.pollDrive waker a = some s') :
    Moves b s s' := by
  unfold Sys.pollDrive at h
  split at h
  · rename_i hpc
    obtain rfl := Option.some.inj h
    exact beginPass (by rw [hpc]; rfl) ..
  · rename_i hpc
    obtain rfl := Option.some.inj h
    exact beginPass (by rw [hpc]; rfl) ..
  · rename_i hpc
    obtain rfl := Option.some.inj h
    exact beginDrain hslab (.inl (by rw [hpc]; rfl)) ..
  · obtain rfl := Option.some.inj h
    exact parkPoll ..
  · cases h

theorem dropDrive (h : s.dropDrive = some s') : Moves b s s' := by
  unfold Sys.dropDrive at h
  split at h
  · obtain rfl := Option.some.inj h
    exact (ofWorld (.refl _)).land (nomatch ·) (nomatch ·)
  · obtain rfl := Option.some.inj h
    exact (ofWorld (.refl _)).land (nomatch ·) (nomatch ·)
  · obtain rfl := Option.some.inj h
    exact (dropPark s).trans ((ofWorld (.refl _)).land (nomatch ·) (nomatch ·))
  · cases h

theorem dropDriver (hslab : NoneDescribed s.world.inner.slab) (h : s.dropDriver a = some s') :
    Moves b s s' := by
  unfold Sys.dropDriver at h
  split at h
  · rename_i hpc
    split at h
    · obtain rfl := Option.some.inj h
      exact (ofWorld (.refl _)).land (nomatch ·) (nomatch ·)
    · obtain rfl := Option.some.inj h
      have hmax : s.world.inner.shutdown.max .immediate = .immediate := by
        cases s.world.inner.shutdown <;> rfl
      have hescalate : Moves b s (s.withInner { s.world.inner with shutdown := .immediate }) := by
        by_cases himm : s.world.inner.shutdown = .immediate
        · exact ofInner ⟨rfl, rfl, rfl, rfl, himm.symm, rfl, rfl, rfl, rfl, rfl, rfl, rfl, rfl, rfl⟩
        · refine .single (.escalated ?_)
          cases hs : s.world.inner.shutdown with
          | immediate => exact absurd hs himm
          | _ => decide
      rw [hmax]
      exact hescalate.trans (beginDrain (s := s.withInner { s.world.inner with shutdown := .immediate })
        hslab (.inr fun h => nomatch (h : ShutdownMode.immediate = .running)) .drop 0 a)
  · cases h

end Moves

theorem applicationStep_stride (hslab : NoneDescribed s.world.inner.slab)
    (h : s.applicationStep a = some s') : Stride s s' a := by
  cases a with
  | start r answers =>
    simp only [Sys.applicationStep] at h
    split at h
    · exact stride_start h
    · obtain rfl := Option.some.inj h
      exact .calm (.halt s)
  | cancel t refusal =>
    simp only [Sys.applicationStep] at h
    split at h
    · obtain rfl := Option.some.inj h
      exact .calm (.call (.cancel ..))
    · cases h
  | poll σ waker => exact .calm (.poll h)
  | dropFuture σ refusal => exact .calm (.dropFuture hslab h)
  | escalate mode =>
    obtain rfl := Option.some.inj h
    exact .calm (.call (.escalate ..))
  | checkOut collection index => exact .calm (.checkOut h)
  | fill i len => exact .calm (.fill h)
  | dropHandle i => exact .calm (.dropHandle h)
  | cloneCollection i => exact .calm (.cloneCollection h)
  | dropCollection i => exact .calm (.dropCollection h)
  | setCursor file position =>
    obtain rfl := Option.some.inj h
    exact .setCursor rfl
  | pollShutdown waiter waker => exact .calm (.pollShutdown h)
  | dropShutdown waiter => exact .calm (.dropShutdown h)
  | pollDrive waker a =>
    simp only [Sys.applicationStep] at h
    split at h
    · exact .calm (.pollDrive hslab h)
    · cases h
  | dropDrive =>
    simp only [Sys.applicationStep] at h
    split at h
    · exact .calm (.dropDrive h)
    · cases h
  | dropDriver a =>
    simp only [Sys.applicationStep] at h
    split at h
    · exact .calm (.dropDriver hslab h)
    · cases h
  | _ => cases h

theorem step_stride (hslab : NoneDescribed s.world.inner.slab) (h : s.step a = some s') :
    Stride s s' a := by
  unfold Sys.step at h
  split at h
  · cases h
  cases a with
  | execute e outcome =>
    obtain ⟨ring, hring, rfl⟩ := Option.map_eq_some_iff.mp h
    exact .calm (.single (.executed hring))
  | report e outcome =>
    obtain ⟨ring, hring, rfl⟩ := Option.map_eq_some_iff.mp h
    exact .calm (.tail (.single (.reported hring)) (.quiet ⟨.refl _, rfl, rfl, .inl, .inl⟩))
  | callback =>
    simp only [Sys.callback] at h
    split at h
    · obtain rfl := Option.some.inj h
      exact .calm (.single (.quiet ⟨.refl _, rfl, rfl, .inl, .inl⟩))
    · cases h
  | poolWake =>
    simp only [Sys.poolWake] at h
    split at h
    · cases h
    · obtain rfl := Option.some.inj h
      exact .calm ((Moves.ofWorld (.emit rfl)).land .inl .inl)
  | advance a =>
    dsimp only at h
    split at h
    · cases h
    · obtain ⟨b, hmoves, hcalm⟩ := Moves.advance hslab h
      exact .moves hmoves hcalm
  | endCall =>
    dsimp only at h
    split at h
    · obtain rfl := Option.some.inj h
      exact .calm (.single (.quiet ⟨.refl _, rfl, rfl, .inl, .inl⟩))
    · cases h
  | _ =>
    dsimp only at h
    split at h
    · exact applicationStep_stride hslab h
    · cases h

end WinIoring.Runtime
