import WinIoring.Runtime.Identity
import WinIoring.Runtime.Promotion

/-!
# Cancellations that wait

A cancellation asked for before its operation is submitted is deferred, and a
future dropped that early leaves its operation detached. The submission that
promotes the operation goes through both, and every later one through the
detached operations whose cancellation the platform has refused so far.
-/

namespace WinIoring.Runtime

open Slab

variable {ws : WordSize} {s s' : Sys ws}

-- ---------------------------------------------------------------------------
-- Attempts
-- ---------------------------------------------------------------------------

namespace DriverInner

variable {d : DriverInner ws} {t : Token ws} {op : Occupant OpPayload} {ts : List (Token ws)}
  {refusal : Token ws → Option HResult} {a : Answers ws}

/-- An operation an attempt to cancel goes to the platform for. -/
structure Cancellable (d : DriverInner ws) (t : Token ws) (op : Occupant OpPayload) : Prop where
  tornDown : d.tornDown = false
  isOpen : d.ring.closed = false
  kind : t.kind = .operation
  cell : d.slab.cell t.key = some (.live op)
  lifecycle : op.lifecycle = .submitted
  cancel : op.cancel = .neverRequested
  target : op.payload.cancelTarget ≠ none

/-- One whose cancellation is queued. -/
structure Enqueued (d : DriverInner ws) (t : Token ws) (op : Occupant OpPayload) : Prop where
  queued : t.toCancel ∈ d.ring.queued
  cell : d.slab.cell t.key = some (.live { op with cancel := .pending })

/-- The platform has taken the cancellation, or refused it and may be asked
again. -/
def Pursued (d : DriverInner ws) (t : Token ws) (op : Occupant OpPayload) : Prop :=
  d.Cancellable t op ∨ d.Enqueued t op

theorem Enqueued.issueCancel (h : d.Enqueued t op) (u : Token ws) (refusal : Option HResult) :
    (d.issueCancel u refusal).Enqueued t op := by
  rcases Moves.issueCancel_cases d u refusal with
    hsame | ⟨_, _, _, _, hsame⟩ | ⟨op', target, -, -, -, hkind, hcell, -, hcancel, -, -, hsame⟩
  · exact ⟨hsame.ring ▸ h.queued, hsame.slab ▸ h.cell⟩
  · exact ⟨hsame.ring ▸ h.queued, hsame.slab ▸ h.cell⟩
  · have hne : t.key ≠ u.key := by
      intro hkey
      rw [← hkey, h.cell] at hcell
      cases hcell
      cases hcancel
    constructor
    · rw [hsame.ring, Ledger.queued_push]
      exact List.mem_append_left _ h.queued
    · rw [hsame.slab, (OpSlab.cell_registerCancel hkind hcell hcancel).1, Function.update_apply, if_neg hne]
      exact h.cell

/-- An attempt on one operation leaves the others as they were. -/
theorem Cancellable.issueCancel (h : d.Cancellable t op) (u : Token ws) (refusal : Option HResult) :
    (d.issueCancel u refusal).Pursued t op := by
  rcases Moves.issueCancel_cases d u refusal with
    hsame | ⟨_, _, _, _, hsame⟩ | ⟨op', target, -, -, -, hkind, hcell, -, hcancel, -, -, hsame⟩
  · exact .inl { h with
      tornDown := hsame.tornDown ▸ h.tornDown
      isOpen := hsame.ring ▸ h.isOpen
      cell := hsame.slab ▸ h.cell }
  · exact .inl { h with
      tornDown := hsame.tornDown ▸ h.tornDown
      isOpen := hsame.ring ▸ h.isOpen
      cell := hsame.slab ▸ h.cell }
  · have hregister := (OpSlab.cell_registerCancel hkind hcell hcancel).1
    by_cases hu : t = u
    · subst hu
      cases h.cell.symm.trans hcell
      refine .inr ⟨?_, ?_⟩
      · rw [hsame.ring, Ledger.queued_push]
        exact List.mem_append_right _ (by simp [Sqe.token])
      · rw [hsame.slab, hregister, Function.update_self]
    · have hne : t.key ≠ u.key := fun hkey => hu (Token.ext_key (h.kind.trans hkind.symm) hkey)
      refine .inl { h with
        tornDown := hsame.tornDown.trans h.tornDown
        isOpen := ?_
        cell := ?_ }
      · rw [hsame.ring]
        exact h.isOpen
      · rw [hsame.slab, hregister, Function.update_apply, if_neg hne]
        exact h.cell

/-- An attempt the platform does not refuse queues the cancellation. -/
theorem Cancellable.enqueued (h : d.Cancellable t op) : (d.issueCancel t none).Enqueued t op := by
  rcases h.issueCancel t none with hstill | hdone
  · -- The platform was asked: its answer is the only way the queue stays as it was.
    obtain ⟨target, htarget⟩ := Option.ne_none_iff_exists'.mp h.target
    have hqueue := queue_issueCancel h.tornDown h.isOpen (OpSlab.asUserData_ne_zero h.cell) h.kind h.cell
      h.lifecycle h.cancel htarget
    rcases Moves.issueCancel_cases d t none with
      hsame | ⟨_, _, _, _, hsame⟩ | ⟨op', target', -, -, -, hkind, hcell, -, hcancel, -, -, hsame⟩
    · simp [hsame.ring] at hqueue
    · simp [hsame.ring] at hqueue
    · have hcell' := hstill.cell
      rw [hsame.slab, (OpSlab.cell_registerCancel hkind hcell hcancel).1, Function.update_self] at hcell'
      obtain rfl := Cell.live.inj (Option.some.inj hcell')
      cases hstill.cancel
  · exact hdone

theorem Pursued.issueCancel (h : d.Pursued t op) (u : Token ws) (refusal : Option HResult) :
    (d.issueCancel u refusal).Pursued t op := by
  rcases h with h | h
  · exact h.issueCancel u refusal
  · exact .inr (h.issueCancel u refusal)

theorem Pursued.issueCancels (h : d.Pursued t op) (ts : List (Token ws))
    (refusal : Token ws → Option HResult) : (d.issueCancels ts refusal).Pursued t op :=
  issueCancels_induction (P := fun d => d.Pursued t op) (fun _ u refusal h => h.issueCancel u refusal) h ts
    refusal

theorem Enqueued.issueCancels (h : d.Enqueued t op) (ts : List (Token ws))
    (refusal : Token ws → Option HResult) : (d.issueCancels ts refusal).Enqueued t op :=
  issueCancels_induction (P := fun d => d.Enqueued t op) (fun _ u refusal h => h.issueCancel u refusal) h ts
    refusal

/-- A pass over a list of operations attempts each of them. -/
theorem Pursued.attempted (h : d.Pursued t op) (hmem : t ∈ ts) (hanswer : refusal t = none) :
    (d.issueCancels ts refusal).Enqueued t op := by
  induction ts generalizing d with
  | nil => cases hmem
  | cons u ts ih =>
    rcases List.mem_cons.mp hmem with rfl | hmem
    · refine Enqueued.issueCancels ?_ ts refusal
      rcases h with h | h
      · show (d.issueCancel t (refusal t)).Enqueued t op
        rw [hanswer]
        exact h.enqueued
      · exact h.issueCancel t _
    · exact ih (h.issueCancel u _) hmem

/-- A pass over the operations of one kind whose cancellation was never
requested attempts each such operation. -/
theorem Pursued.scanned (h : d.Pursued t op) {p : Occupant OpPayload → Bool}
    (hp : op.lifecycle = .submitted → op.cancel = .neverRequested → p op)
    (hanswer : refusal t = none) : (d.issueCancels (d.slab.tokensWhere p) refusal).Enqueued t op := by
  rcases h with h | h
  · have hmem : t ∈ d.slab.tokensWhere p :=
      OpSlab.mem_tokensWhere.mpr ⟨h.kind, op, h.cell, hp h.lifecycle h.cancel⟩
    exact Pursued.attempted (.inl h) hmem hanswer
  · exact h.issueCancels _ refusal

end DriverInner

namespace DriverInner

variable {d : DriverInner ws} {t : Token ws} {op : Occupant OpPayload} {a : Answers ws}

/-- Promoting changes how far an operation has got, and nothing else. -/
theorem promote_eq (op : Occupant OpPayload) : ∃ lifecycle, op.promote = { op with lifecycle } := by
  unfold Occupant.promote
  split
  · exact ⟨_, rfl⟩
  · exact ⟨op.lifecycle, rfl⟩

theorem lifecycle_promote (h : op.lifecycle ≠ .described) : op.promote.lifecycle = .submitted := by
  unfold Occupant.promote
  split
  · rfl
  · cases hl : op.lifecycle with
    | described => exact absurd hl h
    | built => exact absurd hl ‹_›
    | submitted => rfl

/-- What one successful submission attempts. -/
theorem submitPending_attempts (h : d.Submits a) (htorn : d.tornDown = false) (hkind : t.kind = .operation)
    (hcell : d.slab.cell t.key = some (.live op)) (hlife : op.lifecycle ≠ .described)
    (hcancel : op.cancel = .neverRequested) (htarget : op.payload.cancelTarget ≠ none) :
    (d.submitPending a).Pursued t op.promote ∧
      (t ∈ d.deferredCancels → a.deferredCancel t = none → (d.submitPending a).Enqueued t op.promote) ∧
      (op.observer = .detached → a.detachedCancel t = none →
        (d.submitPending a).Enqueued t op.promote) := by
  obtain ⟨d', htook, heq⟩ := submitPending_of_submits h
  obtain ⟨lifecycle, hpromote⟩ := promote_eq op
  have hready : d'.Cancellable t op.promote :=
    { tornDown := htook.tornDown.trans htorn
      isOpen := htook.ring.closed.trans h.2.1
      kind := hkind
      cell := by rw [htook.slab, OpSlab.cell_promote, hcell]; rfl
      lifecycle := lifecycle_promote hlife
      cancel := by rw [hpromote]; exact hcancel
      target := by rw [hpromote]; exact htarget }
  have hfirst := Pursued.issueCancels (.inl hready) d.deferredCancels a.deferredCancel
  rw [heq]
  refine ⟨hfirst.issueCancels _ _, fun hmem hanswer => ?_, fun hdetached hanswer => ?_⟩
  · exact (Pursued.attempted (.inl hready) hmem hanswer).issueCancels _ _
  · refine hfirst.scanned (fun hsubmitted hnever => ?_) hanswer
    rw [hpromote] at hsubmitted hnever ⊢
    simpa using ⟨hsubmitted, hdetached, hnever⟩

@[simp] theorem shutdown_issueCancel (d : DriverInner ws) (t : Token ws) (refusal : Option HResult) :
    (d.issueCancel t refusal).shutdown = d.shutdown := by
  rcases Moves.issueCancel_cases d t refusal with
    h | ⟨_, _, _, _, h⟩ | ⟨_, _, _, _, _, _, _, _, _, _, _, h⟩
  · exact h.shutdown
  · exact h.shutdown
  · exact h.shutdown

theorem shutdown_issueCancels (d : DriverInner ws) (ts : List (Token ws)) (refusal : Token ws → Option HResult) :
    (d.issueCancels ts refusal).shutdown = d.shutdown :=
  issueCancels_induction (P := fun d' => d'.shutdown = d.shutdown)
    (fun d' t refusal h => (shutdown_issueCancel d' t refusal).trans h) rfl ts refusal

theorem shutdown_submitPending (d : DriverInner ws) (a : Answers ws) :
    (d.submitPending a).shutdown = d.shutdown := by
  unfold submitPending
  split
  · rfl
  split
  · exact (shutdown_issueCancels ..).trans (shutdown_issueCancels ..)
  · simp only [noteSubmitFailure]
    split
    · rfl
    · rfl

end DriverInner

/-- What one drain step attempts in the immediate mode. -/
theorem World.beforeWait_attempts {w : World ws} {a : Answers ws} (hmode : w.inner.shutdown = .immediate)
    (hnone : NoneDescribed w.inner.slab) (htorn : w.inner.tornDown = false)
    (hopen : w.inner.ring.closed = false) (hkind : t.kind = .operation)
    (hcell : w.inner.slab.cell t.key = some (.live op)) (hcancel : op.cancel = .neverRequested)
    (htarget : op.payload.cancelTarget ≠ none)
    (hlife : op.lifecycle = .submitted ∨ w.inner.Submits a) :
    (w.beforeWait a).inner.Pursued t op.promote ∧
      (a.drainCancel t = none → (w.beforeWait a).inner.Enqueued t op.promote) := by
  have hunqueued : w.resolveUnqueued = (w, []) := by
    simp [World.resolveUnqueued, described_eq_nil hnone]
  have hpursued : (w.inner.submitPending a).Pursued t op.promote := by
    by_cases hsubmits : w.inner.Submits a
    · exact (DriverInner.submitPending_attempts hsubmits htorn hkind hcell (hnone _ op hcell) hcancel htarget).1
    · obtain ⟨_, _, heq⟩ := DriverInner.submitPending_of_not_submits hsubmits
      have hsubmitted := hlife.resolve_right hsubmits
      have hsame : op.promote = op := if_neg (by simp [hsubmitted])
      rw [heq, hsame]
      exact .inl ⟨htorn, hopen, hkind, hcell, hsubmitted, hcancel, htarget⟩
  have heq : (w.beforeWait a).inner = (w.inner.submitPending a).issueCancels
      (w.inner.submitPending a).slab.submittedUncancelled a.drainCancel := by
    simp only [World.beforeWait, hunqueued, DriverInner.shutdown_submitPending, hmode]
    rfl
  rw [heq]
  refine ⟨hpursued.issueCancels _ _, fun hanswer => hpursued.scanned (fun hsubmitted hnever => ?_) hanswer⟩
  simpa using ⟨hsubmitted, hnever⟩

-- ---------------------------------------------------------------------------
-- Requests over runs
-- ---------------------------------------------------------------------------

/-- An operation still built is among the deferred cancellations. -/
def Deferred (t : Token ws) (d : DriverInner ws) (op : Occupant OpPayload) : Prop :=
  op.lifecycle = .built → t ∈ d.deferredCancels

/-- An operation nobody waits for. -/
def Detached (_ : DriverInner ws) (op : Occupant OpPayload) : Prop := op.observer = .detached

/-- Only a pass over the deferred cancellations forgets one, with nothing built. -/
theorem Move.deferredCancels (h : Move b s s') {t : Token ws} (ht : t ∈ s.world.inner.deferredCancels) :
    t ∈ s'.world.inner.deferredCancels ∨
      ∀ k op, s.world.inner.slab.cell k = some (.live op) → op.lifecycle ≠ .built := by
  cases h with
  | quiet hq => exact .inl (hq.world.inner.deferredCancels ▸ ht)
  | deferred => exact .inl (List.mem_append_left _ ht)
  | recalled hbuilt => exact .inr hbuilt
  | @resolved cqe rest _ op =>
    obtain ⟨_, _, _, _, _, hinner⟩ := (s.world.setInner { s.world.inner with
      slab := (s.world.inner.slab.complete cqe.token).1
      ring := { s.world.inner.ring with completions := rest } }).resolveCompletion_books op.payload cqe
    rw [Sys.withWorld, hinner]
    exact .inl ht
  | released =>
    rw [Sys.withWorld, World.release_inner]
    exact .inl ht
  | delivered =>
    rw [Sys.receive_world, World.inner_deliver]
    exact .inl ht
  | forgotten =>
    rw [World.inner_dropFutureRef]
    exact .inl ht
  | handleDropped =>
    rw [World.inner_dropHandle]
    exact .inl ht
  | _ => exact .inl ht

theorem lasts_deferred (t : Token ws) : Lasts (Deferred t) where
  move s s' k op' hm hop' := by
    obtain ⟨op, hop, -, ⟨hlife, -⟩ | ⟨hlife, -⟩⟩ := hm.live hop'
    · refine ⟨op, hop, fun h hbuilt => ?_⟩
      rw [hlife] at hbuilt
      exact (hm.deferredCancels (h hbuilt)).resolve_right fun hnone => hnone k op hop hbuilt
    · refine ⟨op, hop, fun _ hbuilt => ?_⟩
      rw [hlife, Occupant.promote] at hbuilt
      split at hbuilt
      · cases hbuilt
      · contradiction
  accepted s s' t' p e f op ha h hbuilt := ha.deferredCancels ▸ h hbuilt

theorem lasts_detached : @Lasts ws Detached where
  move s s' k op' hm hop' := by
    obtain ⟨op, hop, hdetached, -⟩ := hm.live hop'
    exact ⟨op, hop, hdetached⟩
  accepted _ _ _ _ _ _ _ _ h := h

/-- A call of `cancel` on a built operation defers it. -/
theorem deferred_of_cancel (hb : Books s) (hkind : t.kind = .operation) (hfree : s.borrow = .free)
    (hs : s.step (.cancel t refusal) = some s') (hcell : s.world.inner.slab.cell t.key = some (.live op))
    (hlife : op.lifecycle = .built) : Standing (Deferred t) t.key s'.world.inner := by
  have htorn : s.world.inner.tornDown = false := by
    rw [hb.tornDown]
    cases hclosed : s.world.inner.ring.closed with
    | false => rfl
    | true => cases ((hb.closed hclosed).2 t.key).symm.trans hcell
  have hstate : s.world.inner.slab.state t = some (.built, op.observer) :=
    OpSlab.state_eq_some.mpr ⟨op, hcell, hlife, rfl⟩
  obtain ⟨hheld, -⟩ | ⟨-, hinner⟩ := cancel_step hkind hs
  · exact absurd hfree hheld
  rw [hinner]
  simp only [DriverInner.requestCancel, htorn, hstate, DriverInner.takeDriverWaker]
  split
  · contradiction
  split
  · exact ⟨OpSlab.issued_of_cell hcell, fun _ _ _ => ‹_›⟩
  · exact ⟨OpSlab.issued_of_cell hcell, fun _ _ _ => List.mem_append_right _ (by simp)⟩

/-- A future dropped with the borrow free leaves its operation detached. -/
theorem detached_of_dropFuture (hb : Books s) (hfuture : s.futures σ = some future)
    (hfree : s.borrow = .free) (hs : s.step (.dropFuture σ refusal) = some s')
    (hcell : s.world.inner.slab.cell future.token.key = some (.live op)) :
    Standing Detached future.token.key s'.world.inner := by
  have hinner : s'.world.inner = (s.world.detachFuture future.token refusal).inner := by
    unfold Sys.step at hs
    split at hs
    · cases hs
    simp only [Sys.callerRuns, hfree, Sys.applicationStep, Sys.dropFuture, hfuture, Option.map_some, Sys.call,
      true_or, decide_true, if_true, Option.some.injEq] at hs
    subst hs
    simp
  have hresult := OpSlab.detach_result hcell
  have hown : (s.world.inner.slab.detach future.token).1.cell future.token.key =
      some (.live { op with observer := .detached }) := by
    rw [OpSlab.cell_detach hcell, Function.update_self]
  have hdetached : Standing Detached future.token.key
      (s.withInner { s.world.inner with slab := (s.world.inner.slab.detach future.token).1 }).world.inner :=
    .of_cell hown rfl
  rw [hinner]
  unfold World.detachFuture
  split
  · rename_i slab hdetach
    rw [hdetach] at hresult
    exact absurd (Option.some.inj hresult).symm (hb.noneDescribed _ op hcell)
  · rename_i slab hdetach
    rw [hdetach] at hdetached
    exact hdetached
  · rename_i slab hdetach
    rw [hdetach] at hdetached
    have hmoves := Moves.requestCancel (b := false) (s.withInner { s.world.inner with slab }) future.token refusal
    have hkept := lasts_detached.moves hdetached hmoves
    exact ⟨hkept.issued, hkept.live⟩
  · rename_i hdetach
    rw [hdetach] at hresult
    cases hresult

/-- In every reachable state: cancelling a built operation, and dropping its
future with the borrow free, leave a request that lasts as long as the operation
is built, or live. A successful submission attempts every such operation that
names a file, and every detached one whose cancellation has not been queued; so
does each drain step, in the immediate mode that `Drop for Driver` may only now
have set, with every submitted operation whose cancellation has not been
queued. -/
theorem cancellation_pursued (hr : (systemMachine ws).Reachable s) :
    (∀ (t : Token ws) refusal s' op, t.kind = .operation → s.borrow = .free →
      s.step (.cancel t refusal) = some s' →
      s.world.inner.slab.cell t.key = some (.live op) → op.lifecycle = .built →
        Standing (Deferred t) t.key s'.world.inner) ∧
    (∀ σ future refusal s' op, s.futures σ = some future → s.borrow = .free →
      s.step (.dropFuture σ refusal) = some s' →
      s.world.inner.slab.cell future.token.key = some (.live op) →
        Standing Detached future.token.key s'.world.inner) ∧
    (∀ as s', (systemMachine ws).run s as = some s' → ∀ t : Token ws,
      (Standing (Deferred t) t.key s.world.inner → Standing (Deferred t) t.key s'.world.inner) ∧
      (Standing Detached t.key s.world.inner → Standing Detached t.key s'.world.inner)) ∧
    (∀ (a : Answers ws) (t : Token ws) op, t.kind = .operation →
      s.world.inner.slab.cell t.key = some (.live op) → op.cancel = .neverRequested →
      op.payload.cancelTarget ≠ none →
      (s.world.inner.Submits a →
        (s.world.inner.submitPending a).Pursued t op.promote ∧
        (t ∈ s.world.inner.deferredCancels → a.deferredCancel t = none →
          (s.world.inner.submitPending a).Enqueued t op.promote) ∧
        (op.observer = .detached → a.detachedCancel t = none →
          (s.world.inner.submitPending a).Enqueued t op.promote)) ∧
      let w := s.world.setInner { s.world.inner with shutdown := .immediate }
      op.lifecycle = .submitted ∨ w.inner.Submits a →
        (w.beforeWait a).inner.Pursued t op.promote ∧
        (a.drainCancel t = none → (w.beforeWait a).inner.Enqueued t op.promote)) := by
  have hb := books_of_reachable hr
  refine ⟨fun t refusal s' op hkind hfree hs => deferred_of_cancel hb hkind hfree hs,
    fun σ future refusal s' op hfuture hfree hs => detached_of_dropFuture hb hfuture hfree hs,
    fun as s' hrun t => ⟨fun h => (lasts_deferred t).run hr h hrun, fun h => lasts_detached.run hr h hrun⟩,
    fun a t op hkind hcell hcancel htarget => ?_⟩
  have hopen : s.world.inner.ring.closed = false := by
    cases hclosed : s.world.inner.ring.closed with
    | false => rfl
    | true => cases ((hb.closed hclosed).2 t.key).symm.trans hcell
  have htorn := hb.tornDown.trans hopen
  constructor
  · intro hsubmits
    exact DriverInner.submitPending_attempts hsubmits htorn hkind hcell (hb.noneDescribed _ op hcell) hcancel
      htarget
  · intro w hlife
    exact World.beforeWait_attempts rfl hb.noneDescribed htorn hopen hkind hcell hcancel htarget hlife

/-- A flush cancelled before its first submission. -/
theorem cancellation_pursued_early : ∃ (s s' : Sys .w64) (op : Occupant OpPayload) (t : Token .w64),
    s.step (.cancel t none) = some s' ∧ s.world.inner.slab.cell t.key = some (.live op) ∧
    Standing (Deferred t) t.key s'.world.inner := by
  obtain ⟨s, s', op, hrun, hfree, hs, hcell, hlife⟩ : ∃ (s s' : Sys .w64) (op : Occupant OpPayload),
      (systemMachine .w64).run .new [.start (.flush 3) .willing] = some s ∧ s.borrow = .free ∧
      s.step (.cancel ⟨2 ^ 17⟩ none) = some s' ∧
      s.world.inner.slab.cell (⟨2 ^ 17⟩ : Token .w64).key = some (.live op) ∧ op.lifecycle = .built :=
    ⟨_, _, _, rfl, rfl, rfl, rfl, rfl⟩
  exact ⟨s, s', op, _, hs, hcell,
    (cancellation_pursued (reachable_of_run hrun)).1 _ none s' op (by decide) hfree hs hcell hlife⟩

end WinIoring.Runtime
