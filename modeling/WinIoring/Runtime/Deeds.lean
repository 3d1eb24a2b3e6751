import WinIoring.Runtime.Mailbox
import WinIoring.Runtime.Park

/-!
# Deeds

A step of the system, told by what it does to things a caller can hold or be told
of: the buffers, the registrations, the result slots and the wakers, and the log
to the last event. Most code of the driver is idle in this sense.
-/

namespace WinIoring.Runtime

open Slab

variable {ws : WordSize} {s s' : Sys ws} {w w' w'' : World ws} {P Q : Event ws → Prop}

-- ---------------------------------------------------------------------------
-- What a stretch of code logs
-- ---------------------------------------------------------------------------

/-- Everything a stretch of code logs is of one kind. -/
def World.Grows (P : Event ws → Prop) (w w' : World ws) : Prop := ∃ es, w'.log = es ++ w.log ∧ ∀ e ∈ es, P e

namespace World.Grows

theorem of_log (h : w'.log = w.log) : w.Grows P w' := ⟨[], h, by simp⟩

theorem refl (P : Event ws → Prop) (w : World ws) : w.Grows P w := .of_log rfl

theorem trans (h : w.Grows P w') (h' : w'.Grows P w'') : w.Grows P w'' := by
  obtain ⟨es, hes, hP⟩ := h
  obtain ⟨es', hes', hP'⟩ := h'
  refine ⟨es' ++ es, by rw [hes', hes, List.append_assoc], fun e he => ?_⟩
  exact (List.mem_append.mp he).elim (hP' e) (hP e)

theorem mono (h : w.Grows P w') (hPQ : ∀ e, P e → Q e) : w.Grows Q w' := by
  obtain ⟨es, hes, hP⟩ := h
  exact ⟨es, hes, fun e he => hPQ e (hP e he)⟩

theorem congr (h : w.Grows P w') (hlog : w''.log = w'.log) : w.Grows P w'' := h.trans (.of_log hlog)

theorem emit (w : World ws) {e : Event ws} (he : P e) : w.Grows P (w.emit e) := ⟨[e], rfl, by simpa using he⟩

theorem emitAll (w : World ws) {es : List (Event ws)} (hes : ∀ e ∈ es, P e) : w.Grows P (w.emitAll es) :=
  ⟨es.reverse, rfl, fun e he => hes e (List.mem_reverse.mp he)⟩

theorem map (w : World ws) {f : α → Event ws} (hf : ∀ x, P (f x)) (l : List α) : w.Grows P (w.emitAll (l.map f)) :=
  .emitAll w (List.forall_mem_map.mpr fun x _ => hf x)

theorem added (h : w.Grows P w') (he : e ∈ Sys.added w w') : P e := by
  obtain ⟨es, hes, hP⟩ := h
  exact hP e (Sys.added_of_append hes ▸ he)

end World.Grows

/-- A caller's buffer let go of. -/
def Event.dropsBuffer (u : Bool) (e : Event ws) : Prop := ∃ b, e = .dropBuffer b u

namespace World

theorem grows_dropRegistryRef (w : World ws) (r : RegId) (u : Bool) :
    w.Grows (Event.dropsBuffer u) (w.dropRegistryRef r u) := by
  simp only [dropRegistryRef]
  split
  · exact .map (w.setRegistry r _) (fun b => ⟨b, rfl⟩) _
  · exact .of_log rfl

theorem grows_dropHandle (w : World ws) (h : RegisteredBuf) (u : Bool) :
    w.Grows (Event.dropsBuffer u) (w.dropHandle h u) :=
  (w.setRegistry h.registry ((w.registries h.registry).release h.index)).grows_dropRegistryRef h.registry u

theorem grows_dropOptional (w : World ws) (b : Option Boxed) (u : Bool) :
    w.Grows (Event.dropsBuffer u) (w.dropOptional b u) := by
  match b with
  | none | some (.pending (.files _)) => exact .refl _ w
  | some (.buffer (.owned b)) => exact .emit w ⟨b, rfl⟩
  | some (.buffer (.handle h)) => exact w.grows_dropHandle h u
  | some (.collection r) => exact w.grows_dropRegistryRef r u
  | some (.pending (.buffers ..)) => exact .map w (fun b => ⟨b, rfl⟩) _

theorem grows_dropFutureRef (w : World ws) (σ : SlotId) (u : Bool) :
    w.Grows (Event.dropsBuffer u) (w.dropFutureRef σ u) :=
  (w.setResult σ { w.results σ with completed := none, awaited := false }).grows_dropOptional _ u

theorem grows_pollPending (w : World ws) (σ : SlotId) (waker : Waker) (u : Bool) :
    w.Grows (fun e => (∃ old, (w.results σ).waker = some old ∧ e = .dropWaker old u) ∨ e = .polled σ waker)
      (w.pollPending σ waker u) := by
  let stored := w.setResult σ { w.results σ with waker := some waker }
  refine .trans ?_ (.emit (stored.emitAll ((w.results σ).waker.toList.map (.dropWaker · u))) (.inr rfl))
  refine .trans (.of_log rfl) (.emitAll stored (List.forall_mem_map.mpr fun old hold => .inl ?_))
  exact ⟨old, Option.mem_toList.mp hold, rfl⟩

theorem log_deliver (w : World ws) (σ : SlotId) (future : Future ws) (completed : CompletedOp) :
    (w.deliver σ future completed).1.log = .delivered σ completed :: w.log := by
  obtain ⟨_, _, h⟩ := w.deliver_eq σ future completed
  rw [h]
  rfl

/-- What resolving an operation logs: that it has, and what is let go of because
nobody waits. -/
def Fills (w : World ws) (σ : SlotId) (completed : CompletedOp) (cause : Cause ws) (e : Event ws) : Prop :=
  e = .filled σ completed (w.results σ).waker cause ∨ e.dropsBuffer true ∧ (w.results σ).awaited = false

theorem grows_dropSlotRef (w : World ws) (σ : SlotId) :
    w.Grows (fun e => e.dropsBuffer true ∧ (w.results σ).awaited = false) (w.dropSlotRef σ) := by
  unfold dropSlotRef
  dsimp only
  split
  · exact .refl ..
  · rename_i hgone
    refine .mono (P := Event.dropsBuffer true) ?_ fun e he => ⟨he, Bool.not_eq_true _ ▸ hgone⟩
    exact (w.setResult σ { w.results σ with completed := none }).grows_dropOptional _ true

theorem grows_fill (w : World ws) (p : OpPayload) (completed : CompletedOp) (cause : Cause ws) :
    w.Grows (w.Fills p.slot completed cause) (w.fill p completed cause).1 := by
  let filled := (w.emit (.filled p.slot completed (w.results p.slot).waker cause)).setResult p.slot
    { w.results p.slot with completed := some completed, waker := none }
  have hfilled : w.Grows (w.Fills p.slot completed cause) filled := .congr (.emit w (.inl rfl)) rfl
  have hdropped : filled.Grows (w.Fills p.slot completed cause) (filled.dropSlotRef p.slot) := by
    refine (filled.grows_dropSlotRef p.slot).mono fun e he => .inr ⟨he.1, ?_⟩
    simpa [filled] using he.2
  exact (hfilled.trans hdropped).congr (log_dropGuard ..)

theorem log_settleRegistration (w : World ws) (p : OpPayload) (result : Except Error Transferred) :
    (w.settleRegistration p result).1.log = w.log := by
  rcases w.settleRegistration_cases p result with
    ⟨-, h⟩ | ⟨_, _, -, -, h⟩ | ⟨_, _, -, -, h⟩ | ⟨_, _, _, _, _, _, -, -, h⟩
  all_goals rw [h]
  all_goals rfl

theorem log_raiseTransfer (w : World ws) (p : OpPayload) (result : Except Error Transferred)
    (boxed : Option Boxed) : (w.raiseTransfer p result boxed).log = w.log := by
  unfold raiseTransfer
  split <;> rfl

theorem grows_resolveCompletion (w : World ws) (p : OpPayload) (cqe : Cqe ws) :
    w.Grows (w.Fills p.slot (w.settled p cqe) (.completion cqe)) (w.resolveCompletion p cqe).1 := by
  let raised := (w.settleRegistration p (completionResult cqe.outcome)).1.raiseTransfer p
    (completionResult cqe.outcome) (w.settleRegistration p (completionResult cqe.outcome)).2
  have hlog : raised.log = w.log := (log_raiseTransfer ..).trans (log_settleRegistration ..)
  have hresults : raised.results = w.results := (results_raiseTransfer ..).trans (results_settleRegistration ..)
  refine .trans (.of_log hlog) ((raised.grows_fill p (w.settled p cqe) (.completion cqe)).mono fun e he => ?_)
  rw [Fills, hresults] at he
  exact he

end World

-- ---------------------------------------------------------------------------
-- Idle code
-- ---------------------------------------------------------------------------

/-- Events that give nothing to a caller, take nothing from one and run none of
its code under the borrow. -/
def Event.idle : Event ws → Bool
  | .wake _ u | .dropWaker _ u | .observe _ u => !u
  | .executed .. | .reported _ | .seqStarted .. | .setCursor .. | .copied .. => true
  | _ => false

/-- The registrations the driver refers to. -/
def DriverInner.registrations (d : DriverInner ws) : List RegId :=
  d.bufferRegistration.toList ++ d.retiredBufferRegistrations

structure DriverInner.Idles (d d' : DriverInner ws) : Prop where
  payloadAt : d'.slab.payloadAt = d.slab.payloadAt
  registrations : d'.registrations = d.registrations
  waiting : d'.waiting = d.waiting

namespace DriverInner.Idles

variable {d d' d'' : DriverInner ws}

theorem refl (d : DriverInner ws) : d.Idles d := ⟨rfl, rfl, rfl⟩

theorem trans (h : d.Idles d') (h' : d'.Idles d'') : d.Idles d'' where
  payloadAt := h'.payloadAt.trans h.payloadAt
  registrations := h'.registrations.trans h.registrations
  waiting := h'.waiting.trans h.waiting

theorem of_same (h : d.Same d') (hwaiting : d'.waiting = d.waiting) : d.Idles d' where
  payloadAt := by rw [h.slab]
  registrations := by
    simp only [DriverInner.registrations, h.bufferRegistration, h.retiredBufferRegistrations]
  waiting := hwaiting

theorem issueCancel (d : DriverInner ws) (t : Token ws) (refusal : Option HResult) :
    d.Idles (d.issueCancel t refusal) := by
  have hwaiting := congrArg Prod.fst (d.wakers_issueCancel t refusal)
  rcases Moves.issueCancel_cases d t refusal with
    hsame | ⟨_, _, _, _, hsame⟩ | ⟨_, _, _, _, _, _, _, _, _, _, _, hsame⟩
  · exact of_same hsame hwaiting
  · refine .trans ?_ (of_same hsame hwaiting)
    exact ⟨rfl, rfl, rfl⟩
  · refine .trans ?_ (of_same hsame hwaiting)
    exact ⟨OpSlab.payloadAt_registerCancel .., rfl, rfl⟩

theorem issueCancels (d : DriverInner ws) (ts : List (Token ws)) (refusal : Token ws → Option HResult) :
    d.Idles (d.issueCancels ts refusal) :=
  issueCancels_induction (P := d.Idles) (fun d' t refusal h => h.trans (issueCancel d' t refusal)) (refl d) ts
    refusal

theorem requestCancel (d : DriverInner ws) (t : Token ws) (refusal : Option HResult) :
    d.Idles (d.requestCancel t refusal) := by
  unfold DriverInner.requestCancel
  split
  · exact refl d
  split
  · exact issueCancel ..
  · split
    · exact refl d
    · exact ⟨rfl, rfl, rfl⟩
  · exact refl d

theorem submitPending (d : DriverInner ws) (a : Answers ws) : d.Idles (d.submitPending a) := by
  unfold DriverInner.submitPending
  split
  · exact refl d
  split
  · rename_i ring entries hsubmit
    let submitted := { d with
      ring
      submissions := d.submissions + 1
      submittedEntries := d.submittedEntries + entries
      pendingSubmit := false
      submitFailures := 0
      slab := d.slab.promoteBuiltToSubmitted
      deferredCancels := [] }
    have hsubmitted : d.Idles submitted := ⟨OpSlab.payloadAt_promote _, rfl, rfl⟩
    exact (hsubmitted.trans (issueCancels ..)).trans (issueCancels ..)
  · simp only [noteSubmitFailure]
    split
    · exact ⟨rfl, rfl, rfl⟩
    · exact ⟨rfl, rfl, rfl⟩

end DriverInner.Idles

/-- Code that moves no buffer, registration, result or waiter. -/
structure World.Idles (w w' : World ws) : Prop where
  inner : w.inner.Idles w'.inner
  results : w'.results = w.results
  nextSlot : w'.nextSlot = w.nextSlot
  registries : w'.registries = w.registries
  nextRegistry : w'.nextRegistry = w.nextRegistry
  log : w.Grows (fun e => e.idle = true) w'

namespace World.Idles

theorem refl (w : World ws) : w.Idles w := ⟨.refl _, rfl, rfl, rfl, rfl, .refl _ _⟩

theorem trans (h : w.Idles w') (h' : w'.Idles w'') : w.Idles w'' where
  inner := h.inner.trans h'.inner
  results := h'.results.trans h.results
  nextSlot := h'.nextSlot.trans h.nextSlot
  registries := h'.registries.trans h.registries
  nextRegistry := h'.nextRegistry.trans h.nextRegistry
  log := h.log.trans h'.log

theorem setInner {d : DriverInner ws} (h : w.inner.Idles d) : w.Idles (w.setInner d) :=
  ⟨h, rfl, rfl, rfl, rfl, .of_log rfl⟩

theorem emit (w : World ws) {e : Event ws} (he : e.idle = true) : w.Idles (w.emit e) :=
  ⟨.refl _, rfl, rfl, rfl, rfl, .emit w he⟩

theorem map (w : World ws) {f : α → Event ws} (hf : ∀ x, (f x).idle = true) (l : List α) :
    w.Idles (w.emitAll (l.map f)) :=
  ⟨.refl _, rfl, rfl, rfl, rfl, .map w hf l⟩

theorem wakeOptional (w : World ws) (waker : Option Waker) : w.Idles (w.wakeOptional waker) :=
  .map w (fun _ => rfl) _

theorem nudgeDriver (w : World ws) : w.Idles w.nudgeDriver := by
  refine .trans (.setInner (w := w) ?_) (.wakeOptional _ _)
  exact ⟨rfl, rfl, rfl⟩

theorem dropWakers (w : World ws) (wakers : List Waker) : w.Idles (Sys.dropWakers w wakers) :=
  .map w (fun _ => rfl) _

theorem cancel (w : World ws) (t : Token ws) (refusal : Option HResult) : w.Idles (w.cancel t refusal) := by
  refine .trans (.setInner (w := w) ?_) (.wakeOptional _ _)
  exact (DriverInner.Idles.requestCancel w.inner t refusal).trans ⟨rfl, rfl, rfl⟩

theorem escalate (w : World ws) (mode : ShutdownMode) : w.Idles (w.escalate mode) := by
  unfold World.escalate
  split
  · exact .refl w
  · refine .trans (.setInner (w := w) ?_) (.nudgeDriver _)
    exact ⟨rfl, rfl, rfl⟩

/-- With nothing described, dropping a future drops no payload. -/
theorem detachFuture (hnone : NoneDescribed w.inner.slab) (t : Token ws) (refusal : Option HResult) :
    w.Idles (w.detachFuture t refusal) := by
  have hdetach : w.inner.Idles { w.inner with slab := (w.inner.slab.detach t).1 } :=
    ⟨OpSlab.payloadAt_detach .., rfl, rfl⟩
  unfold World.detachFuture
  split
  · rename_i hresult
    by_cases hlive : ∃ op, w.inner.slab.cell t.key = some (.live op)
    · obtain ⟨op, hcell⟩ := hlive
      have hlifecycle := OpSlab.detach_result hcell
      rw [hresult] at hlifecycle
      exact absurd (Option.some.inj hlifecycle).symm (hnone _ _ hcell)
    · rw [OpSlab.detach_inert (not_exists.mp hlive)] at hresult
      cases hresult
  · rename_i hresult
    rw [hresult] at hdetach
    exact .setInner hdetach
  · rename_i hresult
    rw [hresult] at hdetach
    refine .trans (.setInner (w := w) ?_) (.wakeOptional _ _)
    exact (hdetach.trans (.requestCancel _ t refusal)).trans ⟨rfl, rfl, rfl⟩
  · exact .refl w

theorem drainBegin (hnone : NoneDescribed w.inner.slab) (a : Answers ws) : w.Idles (w.drainBegin a).1 := by
  have hunqueued : w.resolveUnqueued = (w, []) := by
    simp [World.resolveUnqueued, described_eq_nil hnone]
  simp only [World.drainBegin, hunqueued]
  refine .setInner ?_
  have hsubmit := DriverInner.Idles.submitPending w.inner a
  generalize w.inner.submitPending a = d at hsubmit
  have hcancel : w.inner.Idles (if d.shutdown.rank ≥ ShutdownMode.immediate.rank then
      d.issueCancels d.slab.submittedUncancelled a.drainCancel
    else
      d) := by
    split
    · exact hsubmit.trans (.issueCancels ..)
    · exact hsubmit
  generalize (if d.shutdown.rank ≥ ShutdownMode.immediate.rank then
    d.issueCancels d.slab.submittedUncancelled a.drainCancel else d) = d at hcancel
  split
  · exact hcancel.trans ⟨rfl, rfl, rfl⟩
  · exact hcancel

end World.Idles

-- ---------------------------------------------------------------------------
-- What a request logs
-- ---------------------------------------------------------------------------

/-- What a request may log. -/
def Event.starts (e : Event ws) : Prop := e.idle = true ∨ ∃ t p files, e = .accepted t p files

namespace World

theorem grows_start {accept : DriverInner ws → DriverInner ws} {recovery : Recovery} :
    w.Grows Event.starts (w.start checks payload place build accept recovery).1 := by
  unfold start
  split
  · exact .of_log (log_dropGuard ..)
  split
  · exact .of_log (log_dropGuard ..)
  dsimp only
  split
  · exact .of_log ((log_dropGuard ..).trans rfl)
  · refine .trans ?_ ((Idles.nudgeDriver _).log.mono fun e he => .inl he)
    exact ⟨[_], rfl, List.forall_mem_singleton.mpr (.inr ⟨_, _, _, rfl⟩)⟩

theorem grows_sequential (w : World ws) (file : FileId) (buffer : Buffer) (a : StartAnswers)
    {issue : World ws → Nat → World ws × Except (Rejection Error) (Token ws)}
    (hissue : ∀ (w : World ws) offset, w.Grows Event.starts (issue w offset).1) :
    w.Grows Event.starts (w.sequential file buffer a issue).1 := by
  have hcheck : (w.checkHasFileOffset file a).1.log = w.log := by
    obtain ⟨_, _, heq⟩ := w.checkHasFileOffset_eq file a
    rw [heq]
    rfl
  unfold sequential
  split
  · rename_i hresult
    rw [hresult] at hcheck
    exact .of_log hcheck
  · rename_i checked _ hresult
    rw [hresult] at hcheck
    dsimp only
    split
    · exact .of_log hcheck
    · have hgrown := hissue (checked.setFile file { checked.files file with sequentialOutstanding := true })
        (checked.files file).cursor
      split
      · rename_i hresult
        rw [hresult] at hgrown
        exact .trans (.of_log hcheck) hgrown
      · rename_i hresult
        rw [hresult] at hgrown
        exact .trans (.of_log hcheck) (.trans hgrown (.emit _ (.inl rfl)))

end World

theorem grows_issue (h : s.issue r a = some (result, handles)) : s.world.Grows Event.starts result.1 := by
  unfold Sys.issue at h
  cases r with
  | read | write | registeredOp =>
    obtain ⟨b, -, heq⟩ := Option.map_eq_some_iff.mp h
    obtain rfl := (Prod.mk.inj heq).1
    exact World.grows_start
  | seqRead | seqWrite =>
    obtain ⟨b, -, heq⟩ := Option.map_eq_some_iff.mp h
    obtain rfl := (Prod.mk.inj heq).1
    exact World.grows_sequential _ _ _ _ fun _ _ => World.grows_start
  | flush | registerBuffers | registerFiles =>
    obtain rfl := (Prod.mk.inj (Option.some.inj h)).1
    exact World.grows_start

-- ---------------------------------------------------------------------------
-- Deeds
-- ---------------------------------------------------------------------------

/-- The wakers the driver's code has taken and not yet woken. -/
def Pc.pending : Pc → List Waker
  | .reaping _ _ wakers | .calling _ wakers _ _ | .released _ wakers _ => wakers
  | _ => []

/-- What stops the code for good: a call that borrows the driver, made by caller
code that runs under the borrow, or a ring that will not close. -/
def Stops (s : Sys ws) (a : Action ws) : Prop :=
  s.borrow ≠ .free ∧ s.reentered = true ∨ ∃ answers, a = .advance answers ∧ s.pc.sealed = true ∧
    World.closeLoop s.world.inner.ring answers.closeFails closeAttempts = none

/-- The code goes on with the wakers it has taken, or stops for good. -/
inductive Carries (s : Sys ws) (a : Action ws) (s' : Sys ws) : Prop
  | on (hlive : s.pc ≠ .halted → s'.pc ≠ .halted) (h : s.pc.pending = s.wakes a ++ s'.pc.pending)
  | stopped (h : Stops s a) (hpc : s'.pc = .halted)

/-- What is not in the world stays as it was. -/
structure Beside (s s' : Sys ws) : Prop where
  futures : s'.futures = s.futures
  handles : s'.handles.Perm s.handles
  collections : s'.collections = s.collections

/-- A call on a `ShutdownComplete` reaches the list of waiters, and drops wakers
from it. -/
structure World.Waits (w w' : World ws) : Prop where
  inner : ∃ shutdownWaiters nextWaiterId, w'.inner = { w.inner with shutdownWaiters, nextWaiterId }
  results : w'.results = w.results
  nextSlot : w'.nextSlot = w.nextSlot
  registries : w'.registries = w.registries
  nextRegistry : w'.nextRegistry = w.nextRegistry
  log : w.Grows (fun e => ∃ id waker, (id, waker) ∈ w.inner.shutdownWaiters ∧ e = .dropWaker waker true) w'

inductive Deed (s : Sys ws) : Action ws → Sys ws → Prop
  | idled {s' : Sys ws} (hworld : s.world.Idles s'.world) (hbeside : Beside s s') (hcarries : Carries s a s') :
    Deed s a s'
  | accepted {s' : Sys ws} (h : Accepted s s' t p e f) (hlog : s.world.Grows Event.starts s'.world)
      (hcollections : s'.collections = s.collections) (hwaiting : s'.world.waiting = s.world.waiting) :
    Deed s (.start r answers) s'
  | polled (hfuture : s.futures σ = some future) (hempty : (s.world.results σ).completed = none) :
    Deed s (.poll σ waker) (s.withWorld (s.world.pollPending σ waker s.held))
  | delivered (hfuture : s.futures σ = some future)
      (hfilled : (s.world.results σ).completed = some completed) :
    Deed s (.poll σ waker) (Sys.receive
      { s with
        world := (s.world.deliver σ future completed).1
        futures := Function.update s.futures σ none }
      (s.world.deliver σ future completed).2)
  | forgotten {s' : Sys ws} {w : World ws} (detached : Bool) (hfuture : s.futures σ = some future)
    (hidles : s.world.Idles w)
      (hworld : s'.world = (w.emit (.futureDropped σ detached)).dropFutureRef σ s.held)
      (hfutures : s'.futures = Function.update s.futures σ none) (hhandles : s'.handles = s.handles)
      (hcollections : s'.collections = s.collections) (hpc : s'.pc = s.pc) :
    Deed s (.dropFuture σ refusal) s'
  | checkedOut (hcollection : s.collections[i]? = some r)
      (hclaim : (s.world.registries r).claim r index = .ok (registry, h)) :
    Deed s (.checkOut i index) { s with world := s.world.setRegistry r registry, handles := s.handles ++ [h] }
  | filled (hhandle : s.handles[i]? = some h) :
    Deed s (.fill i len) { s with
      world := (s.world.setRegistry h.registry
        ((s.world.registries h.registry).setInitialized h.index len)).emit (.copied h.registry h.index len)
      handles := s.handles.set i { h with initialized := len } }
  | handleDropped (hhandle : s.handles[i]? = some h) :
    Deed s (.dropHandle i) { s with
      world := s.world.dropHandle h s.held
      handles := s.handles.eraseIdx i }
  | collectionCloned (hcollection : s.collections[i]? = some r) :
    Deed s (.cloneCollection i) { s with
      world := s.world.setRegistry r
        { s.world.registries r with strong := (s.world.registries r).strong + 1 }
      collections := s.collections ++ [r] }
  | collectionDropped (hcollection : s.collections[i]? = some r) :
    Deed s (.dropCollection i) { s with
      world := s.world.dropRegistryRef r s.held
      collections := s.collections.eraseIdx i }
  | waited {s' : Sys ws} (ha : (∃ waiter waker, a = .pollShutdown waiter waker) ∨ ∃ id, a = .dropShutdown id)
      (hworld : s.world.Waits s'.world) (hbeside : Beside s s') (hcarries : Carries s a s') : Deed s a s'
  | resolved {w : World ws} (hpc : s.pc = .reaping task loop wakers)
      (hring : s.world.inner.ring.completions = cqe :: rest) (hkind : cqe.token.kind = .operation)
      (hcell : s.world.inner.slab.cell cqe.token.key = some (.live op))
      (hw : w = s.world.setInner { s.world.inner with
        slab := (s.world.inner.slab.complete cqe.token).1
        ring := { s.world.inner.ring with completions := rest } }) :
    Deed s (.advance answers) (s.driverStep (w.resolveCompletion op.payload cqe).1
      (.reaping task loop (wakers ++ (w.resolveCompletion op.payload cqe).2.toList)))
  | released {w : World ws} (hpc : s.pc = .calling task [] [] next) (hsealed : s.pc.sealed = true)
      (hw : w = s.world.setInner { s.world.inner with ring := { s.world.inner.ring with closed := true } }) :
    Deed s (.advance answers) (s.driverStep (w.release.1.setInner w.release.1.inner.takeReports.1)
      (.released task w.release.2 w.release.1.inner.takeReports.2))

theorem Carries.stay {s s' : Sys ws} {a : Action ws} (hpc : s'.pc = s.pc) (hwakes : s.wakes a = []) :
    Carries s a s' :=
  .on (fun hlive => hpc ▸ hlive) (by rw [hpc, hwakes, List.nil_append])

/-- What one turn of the reaping loop comes to: the loop ends, nobody is told, or
an operation is resolved. -/
theorem World.reapOne_cases (w : World ws) (failure : Option HResult) :
    (∃ d, w.inner.Idles d ∧ w.reapOne failure = (w.setInner d, none)) ∨
    (∃ d, w.inner.Idles d ∧ w.reapOne failure = (w.setInner d, some [])) ∨
    ∃ cqe rest op, w.inner.ring.completions = cqe :: rest ∧ cqe.token.kind = .operation ∧
      w.inner.slab.cell cqe.token.key = some (.live op) ∧
      let taken := w.setInner { w.inner with
        slab := (w.inner.slab.complete cqe.token).1
        ring := { w.inner.ring with completions := rest } }
      w.reapOne failure = ((taken.resolveCompletion op.payload cqe).1,
        some (taken.resolveCompletion op.payload cqe).2.toList) := by
  unfold World.reapOne
  split
  · refine .inl ⟨_, ?_, rfl⟩
    exact ⟨rfl, rfl, rfl⟩
  · exact .inl ⟨w.inner, .refl _, rfl⟩
  rename_i ring cqe hpop
  obtain ⟨rest, hcompletions, rfl⟩ := IoRing.pop_some hpop
  dsimp only
  split
  · refine .inr (.inl ⟨_, ?_, rfl⟩)
    exact ⟨OpSlab.payloadAt_completeCancel .., rfl, rfl⟩
  rename_i hkind
  replace hkind : cqe.token.kind = .operation := by
    cases hk : cqe.token.kind with
    | operation => rfl
    | cancel => exact absurd hk hkind
  split
  · refine .inr (.inl ⟨_, ?_, rfl⟩)
    exact ⟨rfl, rfl, rfl⟩
  · rename_i slab payload hcomplete
    obtain ⟨op, hcell, rfl⟩ := OpSlab.complete_some hcomplete
    refine .inr (.inr ⟨cqe, rest, op, hcompletions, hkind, hcell, ?_⟩)
    simp only [Cqe.token, hcomplete]

namespace Deed

theorem halted (h : Stops s a) : Deed s a s.halt :=
  .idled (World.Idles.refl s.world) ⟨rfl, .refl _, rfl⟩ (.stopped h rfl)

/-- A call from under the borrow. -/
theorem panicked (hruns : s.callerRuns = true) (hheld : s.borrow ≠ .free) : Deed s a s.halt :=
  halted (.inl ⟨hheld, (of_decide_eq_true hruns).resolve_left hheld⟩)

theorem of_world (hworld : s.world.Idles w) (hcarries : Carries s a { s with world := w }) :
    Deed s a { s with world := w } :=
  .idled hworld ⟨rfl, .refl _, rfl⟩ hcarries

/-- A call that leaves callers' things alone. -/
theorem call {k : World ws → World ws} (hruns : s.callerRuns = true) (hk : s.world.Idles (k s.world))
    (hwakes : s.wakes a = []) : Deed s a (s.call k) := by
  unfold Sys.call
  split
  · exact .idled hk ⟨rfl, .refl _, rfl⟩ (.stay rfl hwakes)
  · exact panicked hruns ‹_›

theorem start (h : s.start r a = some s') : Deed s (.start r answers) s' := by
  have hwaiting := (Aside.start h).waiting
  obtain ⟨⟨⟨world, result⟩, handles⟩, hissue, rfl⟩ := Option.map_eq_some_iff.mp h
  obtain ⟨hstarted, hhandles⟩ := issue_cases hissue
  rcases hstarted with ⟨e, slab, files, hleft, heq⟩ | ⟨t, p, e, heq, hmade, hacc⟩
  · obtain ⟨rfl, rfl⟩ := Prod.mk.inj heq
    refine .idled ?_ ⟨rfl, hhandles.symm, rfl⟩ (.stay rfl rfl)
    exact ⟨⟨OpSlab.payloadAt_congr hleft.cell, rfl, rfl⟩, rfl, rfl, rfl, rfl, .of_log rfl⟩
  · have hlog := grows_issue hissue
    dsimp only at heq
    subst heq
    exact .accepted hacc hlog rfl hwaiting

theorem poll {waker : Waker} (h : s.poll σ waker = some s') : Deed s (.poll σ waker) s' := by
  obtain ⟨future, hfuture, rfl⟩ := Option.map_eq_some_iff.mp h
  split
  · exact .polled hfuture ‹_›
  · exact .delivered hfuture ‹_›

theorem dropFuture (hnone : NoneDescribed s.world.inner.slab) (h : s.dropFuture σ refusal = some s') :
    Deed s (.dropFuture σ refusal) s' := by
  obtain ⟨future, hfuture, rfl⟩ := Option.map_eq_some_iff.mp h
  dsimp only
  split
  · rename_i hfree
    have hheld : s.held = false := by simp [Sys.held, hfree]
    refine .forgotten true hfuture (.detachFuture hnone future.token refusal) ?_ ?_ ?_ ?_ ?_
    all_goals simp only [Sys.call, hfree, if_true, hheld]
  · rename_i hfree
    have hheld : s.held = true := by simpa [Sys.held] using hfree
    exact .forgotten false hfuture (.refl s.world) (by rw [hheld]) rfl rfl rfl rfl

theorem checkOut (hruns : s.callerRuns = true) (h : s.checkOut collection index = some s') :
    Deed s (.checkOut collection index) s' := by
  obtain ⟨r, hcollection, rfl⟩ := Option.map_eq_some_iff.mp h
  split
  · rcases Moves.checkOut_cases s.world r index with ⟨e, hresult⟩ | ⟨registry, hd, -, -, -, -, hclaim, hresult⟩
    · rw [hresult]
      exact .of_world (.refl _) (.stay rfl rfl)
    · rw [hresult]
      exact .checkedOut hcollection hclaim
  · exact panicked hruns ‹_›

theorem pollShutdown {waker : Waker} (hruns : s.callerRuns = true)
    (h : s.step (.pollShutdown waiter waker) = some s') : Deed s (.pollShutdown waiter waker) s' := by
  rcases step_pollShutdown h with ⟨rfl, hheld⟩ | ⟨hfree, ⟨-, rfl⟩ | ⟨-, ⟨-, rfl⟩ | ⟨id, -, -, rfl⟩⟩⟩
  · exact panicked hruns hheld
  · exact .idled (.refl _) ⟨rfl, .refl _, rfl⟩ (.stay rfl rfl)
  · exact .waited (.inl ⟨_, _, rfl⟩) ⟨⟨_, _, rfl⟩, rfl, rfl, rfl, rfl, .of_log rfl⟩ ⟨rfl, .refl _, rfl⟩ (.stay rfl rfl)
  · rw [Sys.call, if_pos hfree]
    refine .waited (.inl ⟨_, _, rfl⟩) ⟨⟨_, _, rfl⟩, rfl, rfl, rfl, rfl, ?_⟩ ⟨rfl, .refl _, rfl⟩ (.stay rfl rfl)
    refine .trans (.of_log rfl) (.emitAll _ (List.forall_mem_map.mpr fun entry hentry => ?_))
    obtain ⟨id', waker'⟩ := entry
    exact ⟨id', waker', List.mem_of_find?_eq_some (Option.mem_toList.mp hentry), rfl⟩

theorem dropShutdown {id : Nat} (h : s.step (.dropShutdown id) = some s') : Deed s (.dropShutdown id) s' := by
  rcases step_dropShutdown h with ⟨-, rfl⟩ | ⟨hfree, rfl⟩
  · exact .idled (.refl _) ⟨rfl, .refl _, rfl⟩ (.stay rfl rfl)
  · simp only [Sys.call, hfree, if_true]
    refine .waited (.inr ⟨_, rfl⟩) ⟨⟨_, _, rfl⟩, rfl, rfl, rfl, rfl, ?_⟩ ⟨rfl, .refl _, rfl⟩ (.stay rfl rfl)
    refine .trans (.of_log rfl) (.emitAll _ (List.forall_mem_map.mpr fun entry hentry => ?_))
    obtain ⟨id', waker'⟩ := entry
    replace hentry : (id', waker') ∈ (s.world.inner.shutdownWaiters.partition (·.1 = id)).1 := hentry
    rw [List.partition_eq_filter_filter] at hentry
    exact ⟨id', waker', List.mem_of_mem_filter hentry, rfl⟩

-- ---------------------------------------------------------------------------
-- The driver's code
-- ---------------------------------------------------------------------------

theorem beginPass (hpending : s.pc.pending = s.wakes a) (w : Waker) (answers : Answers ws) :
    Deed s a (s.beginPass w answers) :=
  .idled (.setInner (.submitPending ..)) ⟨rfl, .refl _, rfl⟩
    (.on (by rintro - ⟨⟩) (hpending.trans (List.append_nil _).symm))

/-- A turn of the teardown loop, from a driver that may just have been dropped. -/
theorem beginDrain (hnone : NoneDescribed w.inner.slab) (hpending : s.pc.pending = s.wakes a)
    (hworld : s.world.Idles w) (task : Task) (steps : Nat) (answers : Answers ws) :
    Deed s a (({ s with world := w } : Sys ws).beginDrain task steps answers) := by
  have hcarries : s.pc.pending = s.wakes a ++ [] := hpending.trans (List.append_nil _).symm
  unfold Sys.beginDrain
  split
  · exact .idled hworld ⟨rfl, .refl _, rfl⟩ (.on (by rintro - ⟨⟩) hcarries)
  · have hwakers : (w.drainBegin answers).2 = [] := by
      simp [World.drainBegin, World.resolveUnqueued, described_eq_nil hnone]
    refine .idled (hworld.trans (.drainBegin hnone answers)) ⟨rfl, .refl _, rfl⟩ (.on (by rintro - ⟨⟩) ?_)
    exact hcarries.trans (congrArg (s.wakes a ++ ·) hwakers.symm)

theorem endReaping (hpc : s.pc = .reaping task loop wakers) (hworld : s.world.Idles w) (answers : Answers ws) :
    Deed s (.advance answers) (({ s with world := w } : Sys ws).endReaping task loop wakers) := by
  have hcarries : s.pc.pending = s.wakes (.advance answers) ++ wakers := by
    simp only [hpc, Pc.pending, Sys.wakes, List.nil_append]
  cases loop with
  | pass =>
    refine .idled (.trans hworld (.setInner ?_)) ⟨rfl, .refl _, rfl⟩ (.on (by rintro - ⟨⟩) hcarries)
    exact ⟨rfl, rfl, rfl⟩
  | drain steps =>
    refine .idled (.trans hworld (.setInner ?_)) ⟨rfl, .refl _, rfl⟩ (.on (by rintro - ⟨⟩) hcarries)
    have hwaiting := congrArg Prod.fst (w.inner.wakers_reportSlowDrain (min (steps + 1) u32Max))
    have hreported : w.inner.Idles (w.inner.reportSlowDrain (min (steps + 1) u32Max)) := by
      refine ⟨?_, ?_, hwaiting⟩
      all_goals unfold DriverInner.reportSlowDrain
      all_goals split
      any_goals split
      all_goals rfl
    exact hreported.trans ⟨rfl, rfl, rfl⟩

theorem parkPoll (hpending : s.pc.pending = s.wakes a) (w : Waker) : Deed s a (s.parkPoll w) := by
  have hcarries : s.pc.pending = s.wakes a ++ [] := hpending.trans (List.append_nil _).symm
  unfold Sys.parkPoll
  dsimp only
  split
  · refine .idled (.trans (.setInner (w := s.world) ?_) (.dropWakers _ _)) ⟨rfl, .refl _, rfl⟩
      (.on (by rintro - ⟨⟩) hcarries)
    exact ⟨rfl, rfl, rfl⟩
  · refine .idled (.trans (.setInner (w := s.world) ?_) (.dropWakers _ _)) ⟨rfl, .refl _, rfl⟩
      (.on (by rintro - ⟨⟩) hcarries)
    exact ⟨rfl, rfl, rfl⟩

theorem pollSignalled {w : Waker} (hpc : s.pc = .arming w) (answers : Answers ws) :
    Deed s (.advance answers) (s.pollSignalled w) := by
  have hcarries : s.pc.pending = s.wakes (.advance answers) ++ [] := by
    simp only [hpc, Pc.pending, Sys.wakes, List.nil_append]
  unfold Sys.pollSignalled
  dsimp only
  split
  · refine .idled (.trans (.setInner (w := s.world) ?_) (.dropWakers _ _)) ⟨rfl, .refl _, rfl⟩
      (.on (by rintro - ⟨⟩) hcarries)
    exact ⟨rfl, rfl, rfl⟩
  · exact .idled (.dropWakers _ _) ⟨rfl, .refl _, rfl⟩ (.on (by rintro - ⟨⟩) hcarries)

theorem idles_dropPark (s : Sys ws) : s.world.Idles s.dropPark.world := by
  refine .trans (.setInner (w := s.world) ?_) (.dropWakers _ _)
  exact ⟨rfl, rfl, rfl⟩

theorem yieldNow (hpending : s.pc.pending = s.wakes a) (hlive : pc ≠ .halted) (hpc : pc.pending = [])
    (w : Waker) : Deed s a (s.yieldNow w pc) := by
  refine .idled (.emit s.world rfl) ⟨rfl, .refl _, rfl⟩ (.on (fun _ => hlive) ?_)
  exact hpending.trans ((List.append_nil _).symm.trans (congrArg (s.wakes a ++ ·) hpc.symm))

theorem closing (hpc : s.pc = .calling task [] [] next) (hsealed : s.pc.sealed = true) (answers : Answers ws) :
    Deed s (.advance answers) (s.closing task answers) := by
  unfold Sys.closing World.closeAndRelease
  cases hclose : World.closeLoop s.world.inner.ring answers.closeFails closeAttempts with
  | none => exact halted (.inr ⟨answers, rfl, hsealed, hclose⟩)
  | some ring =>
    obtain rfl := Moves.closeLoop_eq hclose
    exact .released hpc hsealed rfl

theorem resume (hnone : NoneDescribed s.world.inner.slab) (hpc : s.pc = .calling task [] [] next)
    (answers : Answers ws) : Deed s (.advance answers) (s.resume task answers next) := by
  have hpending : s.pc.pending = s.wakes (.advance answers) := by simp only [hpc, Pc.pending, Sys.wakes]
  cases next with
  | decide shuttingDown retryOwed =>
    cases task with
    | drop => exact beginDrain hnone hpending (.refl s.world) .drop 0 answers
    | drive w =>
      simp only [Sys.resume]
      split
      · exact beginDrain hnone hpending (.refl s.world) ..
      split
      · exact yieldNow hpending (by rintro ⟨⟩) rfl w
      · exact parkPoll hpending w
  | drained steps outcome =>
    cases outcome with
    | progressing =>
      cases task with
      | drop => exact beginDrain hnone hpending (.refl s.world) .drop steps answers
      | drive w => exact yieldNow hpending (by rintro ⟨⟩) rfl w
    | quiescent => exact closing hpc (hpc ▸ rfl) answers
    | unsubmittableResidue => exact closing hpc (hpc ▸ rfl) answers
  | finished =>
    have hcarries : s.pc.pending = s.wakes (.advance answers) ++ [] := hpending.trans (List.append_nil _).symm
    cases task with
    | drop => exact .idled (.refl _) ⟨rfl, .refl _, rfl⟩ (.on (by rintro - ⟨⟩) hcarries)
    | drive w => exact .idled (.refl _) ⟨rfl, .refl _, rfl⟩ (.on (by rintro - ⟨⟩) hcarries)

theorem reapOne (hpc : s.pc = .reaping task loop wakers) (h : s.advance answers = some s') :
    Deed s (.advance answers) s' := by
  have hpending : s.pc.pending = s.wakes (.advance answers) ++ wakers := by
    simp only [hpc, Pc.pending, Sys.wakes, List.nil_append]
  simp only [Sys.advance, hpc] at h
  rcases s.world.reapOne_cases answers.pop with
    ⟨d, hidles, hresult⟩ | ⟨d, hidles, hresult⟩ | ⟨cqe, rest, op, hring, hkind, hcell, hresult⟩
  all_goals rw [hresult] at h
  all_goals obtain rfl := Option.some.inj h
  · exact endReaping hpc (.setInner hidles) answers
  · exact .idled (.setInner hidles) ⟨rfl, .refl _, rfl⟩ (.on (by rintro - ⟨⟩) (by rw [hpending, List.append_nil]; rfl))
  · exact .resolved hpc hring hkind hcell rfl

theorem advance (hnone : NoneDescribed s.world.inner.slab) (h : s.advance answers = some s') :
    Deed s (.advance answers) s' := by
  have hreap := h
  unfold Sys.advance at h
  split at h
  · exact reapOne ‹_› hreap
  · rename_i task w rest reports next hpc
    obtain rfl := Option.some.inj h
    exact .idled (.emit s.world rfl) ⟨rfl, .refl _, rfl⟩
      (.on (by rintro - ⟨⟩) (by simp [hpc, Pc.pending, Sys.wakes, Sys.freeStep]))
  · rename_i task e rest next hpc
    obtain rfl := Option.some.inj h
    refine .idled ?_ ⟨rfl, .refl _, rfl⟩ (.on (by rintro - ⟨⟩) (by simp [hpc, Pc.pending, Sys.wakes, Sys.freeStep]))
    simp only [Sys.freeStep]
    split
    · exact .emit s.world rfl
    · exact .refl _
  · exact Option.some.inj h ▸ resume hnone ‹_› answers
  · exact Option.some.inj h ▸ pollSignalled ‹_› answers
  · rename_i w hpc
    obtain rfl := Option.some.inj h
    refine .idled (.trans (idles_dropPark s) (.setInner (.submitPending ..))) ⟨rfl, .refl _, rfl⟩
      (.on (by rintro - ⟨⟩) ?_)
    simp [hpc, Pc.pending, Sys.wakes, Sys.beginPass, Sys.driverStep]
  · rename_i task wakers reports hpc
    obtain rfl := Option.some.inj h
    exact .idled (.refl _) ⟨rfl, .refl _, rfl⟩
      (.on (by rintro - ⟨⟩) (by simp [hpc, Pc.pending, Sys.wakes, Sys.freeStep]))
  · cases h

theorem pollDrive {w : Waker} (hnone : NoneDescribed s.world.inner.slab) (h : s.pollDrive w answers = some s') :
    Deed s (.pollDrive w answers) s' := by
  unfold Sys.pollDrive at h
  split at h
  · exact Option.some.inj h ▸ beginPass (by simp [*, Pc.pending, Sys.wakes]) w answers
  · exact Option.some.inj h ▸ beginPass (by simp [*, Pc.pending, Sys.wakes]) w answers
  · exact Option.some.inj h ▸ beginDrain hnone (by simp [*, Pc.pending, Sys.wakes]) (.refl s.world) ..
  · exact Option.some.inj h ▸ parkPoll (by simp [*, Pc.pending, Sys.wakes]) w
  · cases h

theorem dropDrive (h : s.dropDrive = some s') : Deed s .dropDrive s' := by
  unfold Sys.dropDrive at h
  split at h
  · obtain rfl := Option.some.inj h
    exact .idled (.refl _) ⟨rfl, .refl _, rfl⟩ (.on (by rintro - ⟨⟩) (by simp [*, Pc.pending, Sys.wakes]))
  · obtain rfl := Option.some.inj h
    exact .idled (.refl _) ⟨rfl, .refl _, rfl⟩ (.on (by rintro - ⟨⟩) (by simp [*, Pc.pending, Sys.wakes]))
  · obtain rfl := Option.some.inj h
    exact .idled (idles_dropPark s) ⟨rfl, .refl _, rfl⟩ (.on (by rintro - ⟨⟩) (by simp [*, Pc.pending, Sys.wakes]))
  · cases h

theorem dropDriver (hnone : NoneDescribed s.world.inner.slab) (h : s.dropDriver answers = some s') :
    Deed s (.dropDriver answers) s' := by
  unfold Sys.dropDriver at h
  split at h
  · rename_i hpc
    split at h
    · obtain rfl := Option.some.inj h
      exact .idled (.refl _) ⟨rfl, .refl _, rfl⟩ (.on (by rintro - ⟨⟩) (by simp [hpc, Pc.pending, Sys.wakes]))
    · have hpending : s.pc.pending = s.wakes (.dropDriver answers) := by simp [hpc, Pc.pending, Sys.wakes]
      let raised := s.world.setInner { s.world.inner with shutdown := s.world.inner.shutdown.max .immediate }
      have hraised : s.world.Idles raised := .setInner ⟨rfl, rfl, rfl⟩
      obtain rfl := Option.some.inj h
      exact beginDrain (w := raised) hnone hpending hraised .drop 0 answers
  · cases h

theorem application (hnone : NoneDescribed s.world.inner.slab) (hruns : s.callerRuns = true)
    (hstep : s.step a = some s') (h : s.applicationStep a = some s') : Deed s a s' := by
  cases a with
  | start r answers =>
    simp only [Sys.applicationStep] at h
    split at h
    · exact start h
    · exact Option.some.inj h ▸ panicked hruns ‹_›
  | cancel t refusal =>
    simp only [Sys.applicationStep] at h
    split at h
    · exact Option.some.inj h ▸ call hruns (.cancel ..) rfl
    · cases h
  | poll σ waker => exact poll h
  | dropFuture σ refusal => exact dropFuture hnone h
  | escalate mode => exact Option.some.inj h ▸ call hruns (.escalate ..) rfl
  | checkOut collection index => exact checkOut hruns h
  | fill i len =>
    obtain ⟨hd, hhandle, rfl⟩ := Option.map_eq_some_iff.mp h
    split
    · exact .idled (.refl _) ⟨rfl, .refl _, rfl⟩ (.stay rfl rfl)
    · exact .filled hhandle
  | dropHandle i =>
    obtain ⟨hd, hhandle, rfl⟩ := Option.map_eq_some_iff.mp h
    exact .handleDropped hhandle
  | cloneCollection i =>
    obtain ⟨r, hcollection, rfl⟩ := Option.map_eq_some_iff.mp h
    exact .collectionCloned hcollection
  | dropCollection i =>
    obtain ⟨r, hcollection, rfl⟩ := Option.map_eq_some_iff.mp h
    exact .collectionDropped hcollection
  | setCursor file position =>
    obtain rfl := Option.some.inj h
    refine .idled ?_ ⟨rfl, .refl _, rfl⟩ (.stay rfl rfl)
    exact ⟨.refl _, rfl, rfl, rfl, rfl, ⟨[_], rfl, List.forall_mem_singleton.mpr rfl⟩⟩
  | pollShutdown waiter waker => exact pollShutdown hruns hstep
  | dropShutdown id => exact dropShutdown hstep
  | pollDrive waker answers =>
    simp only [Sys.applicationStep] at h
    split at h
    · exact pollDrive hnone h
    · cases h
  | dropDrive =>
    simp only [Sys.applicationStep] at h
    split at h
    · exact dropDrive h
    · cases h
  | dropDriver answers =>
    simp only [Sys.applicationStep] at h
    split at h
    · exact dropDriver hnone h
    · cases h
  | _ => cases h

end Deed

/-- Every step is one of the deeds. -/
theorem step_deed (hnone : NoneDescribed s.world.inner.slab) (h : s.step a = some s') : Deed s a s' := by
  have hstep := h
  unfold Sys.step at h
  split at h
  · cases h
  cases a with
  | execute e outcome =>
    obtain ⟨ring, -, rfl⟩ := Option.map_eq_some_iff.mp h
    refine .idled (.trans (.setInner (w := s.world) ?_) (.emit _ rfl)) ⟨rfl, .refl _, rfl⟩ (.stay rfl rfl)
    exact ⟨rfl, rfl, rfl⟩
  | report e outcome =>
    obtain ⟨ring, -, rfl⟩ := Option.map_eq_some_iff.mp h
    refine .idled (.trans (.setInner (w := s.world) ?_) (.emit _ rfl)) ⟨rfl, .refl _, rfl⟩ (.stay rfl rfl)
    exact ⟨rfl, rfl, rfl⟩
  | callback =>
    simp only [Sys.callback] at h
    split at h
    · obtain rfl := Option.some.inj h
      exact .idled (.refl _) ⟨rfl, .refl _, rfl⟩ (.stay rfl rfl)
    · cases h
  | poolWake =>
    simp only [Sys.poolWake] at h
    split at h
    · cases h
    · obtain rfl := Option.some.inj h
      exact .idled (.emit s.world rfl) ⟨rfl, .refl _, rfl⟩ (.stay rfl rfl)
  | advance answers =>
    dsimp only at h
    split at h
    · cases h
    · exact .advance hnone h
  | endCall =>
    dsimp only at h
    split at h
    · obtain rfl := Option.some.inj h
      exact .idled (.refl _) ⟨rfl, .refl _, rfl⟩ (.stay rfl rfl)
    · cases h
  | _ =>
    dsimp only at h
    split at h
    · exact .application hnone ‹_› hstep h
    · cases h

theorem live_of_step (h : s.step a = some s') : s.pc ≠ .halted := by
  intro hpc
  simp [Sys.step, hpc] at h

/-- Nothing else stops the code. -/
theorem stops_of_step (hnone : NoneDescribed s.world.inner.slab) (h : s.step a = some s')
    (hpc : s'.pc = .halted) : Stops s a := by
  have hlive := live_of_step h
  have hcarried : Carries s a s' → Stops s a := by
    intro hcarries
    cases hcarries with
    | on hgoes _ => exact absurd hpc (hgoes hlive)
    | stopped hstops _ => exact hstops
  cases step_deed hnone h with
  | idled _ _ hcarries => exact hcarried hcarries
  | waited _ _ _ hcarries => exact hcarried hcarries
  | accepted hacc => exact absurd (hacc.pc.symm.trans hpc) hlive
  | delivered => exact absurd ((Sys.receive_pc ..).symm.trans hpc) hlive
  | forgotten _ _ _ _ _ _ _ hstay => exact absurd (hstay.symm.trans hpc) hlive
  | resolved => cases hpc
  | released => cases hpc
  | _ => exact absurd hpc hlive

end WinIoring.Runtime
