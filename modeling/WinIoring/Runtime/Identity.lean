import WinIoring.Runtime.Safety

/-!
# What an operation id names

An id is a slot and a generation. Within one driver no two operations share them,
so the id of a finished operation cancels nothing. Another driver numbers its own
operations the same way, and takes the id for one of those.
-/

namespace WinIoring.Runtime

open Slab

variable {ws : WordSize} {s s' : Sys ws}

-- ---------------------------------------------------------------------------
-- What a cancellation touches
-- ---------------------------------------------------------------------------

/-- No cancellation was requested, deferred or enqueued. -/
structure Uncancelled (d d' : DriverInner ws) : Prop where
  requested : d'.slab.cell = d.slab.cell
  deferred : d'.deferredCancels = d.deferredCancels
  enqueued : d'.ring.queue = d.ring.queue

/-- The id names a live operation here, of which no cancellation has been asked
for, and the platform takes one if it has the operation. -/
def Aliased (d : DriverInner ws) (t : Token ws) (refusal : Option HResult) : Prop :=
  d.tornDown = false ∧ ∃ op, d.slab.cell t.key = some (.live op) ∧
    (op.lifecycle ≠ .submitted ∧ t ∉ d.deferredCancels ∨
      op.lifecycle = .submitted ∧ op.cancel = .neverRequested ∧ op.payload.cancelTarget ≠ none ∧
        refusal = none)

theorem Uncancelled.refl (d : DriverInner ws) : Uncancelled d d := ⟨rfl, rfl, rfl⟩

namespace DriverInner

variable {d : DriverInner ws} {t : Token ws} {refusal : Option HResult}

@[simp] theorem deferredCancels_issueCancel :
    (d.issueCancel t refusal).deferredCancels = d.deferredCancels := by
  unfold issueCancel
  split
  · rfl
  split
  · rfl
  split
  · rfl
  split
  · rfl
  split
  · rfl
  dsimp only
  split
  · rfl
  · rfl

/-- A cancellation the platform takes joins the queue. -/
theorem queue_issueCancel (htorn : d.tornDown = false) (hopen : d.ring.closed = false)
    (hnonzero : t.asUserData ≠ 0) (hkind : t.kind = .operation)
    (hcell : d.slab.cell t.key = some (.live op)) (hlife : op.lifecycle = .submitted)
    (hcancel : op.cancel = .neverRequested) (htarget : op.payload.cancelTarget = some target) :
    (d.issueCancel t none).ring.queue =
      d.ring.queue ++ [⟨.cancel target.handle t.asUserData, t.toCancel.asUserData⟩] := by
  have hstate : d.slab.state t = some (.submitted, op.observer) :=
    OpSlab.state_eq_some.mpr ⟨op, hcell, hlife, rfl⟩
  have hpayload : d.slab.payload t = some op.payload := OpSlab.payload_eq_some.mpr ⟨op, hcell, rfl⟩
  obtain ⟨slab, hregister⟩ : ∃ slab, d.slab.registerCancel t = (slab, some t.toCancel) :=
    ⟨_, Prod.ext rfl (OpSlab.cell_registerCancel hkind hcell hcancel).2⟩
  rw [issueCancel, if_neg (by simp [htorn]), if_neg hnonzero, if_neg (by simp [hstate])]
  simp [hpayload, htarget, hregister, IoRing.buildCancelRequest, IoRing.build, IoRing.ensureOpen, hopen,
    markNudged]

theorem uncancelled_requestCancel_iff (hopen : d.ring.closed = d.tornDown) (hnonzero : t.asUserData ≠ 0)
    (hkind : t.kind = .operation) : Uncancelled d (d.requestCancel t refusal) ↔ ¬ Aliased d t refusal := by
  unfold requestCancel
  by_cases htorn : d.tornDown = true
  · rw [if_pos htorn]
    refine iff_of_true (.refl d) ?_
    rintro ⟨hnot, -⟩
    cases hnot.symm.trans htorn
  rw [if_neg htorn]
  have htorn : d.tornDown = false := Bool.eq_false_iff.mpr htorn
  split
  · rename_i observer hstate
    obtain ⟨op, hcell, hlife, -⟩ := OpSlab.state_eq_some.mp hstate
    constructor
    · rintro h ⟨-, op', hcell', hor⟩
      cases hcell.symm.trans hcell'
      obtain ⟨-, hcancel, htarget, rfl⟩ := hor.resolve_left fun h => h.1 hlife
      obtain ⟨target, htarget⟩ := Option.ne_none_iff_exists'.mp htarget
      have hqueue := queue_issueCancel htorn (hopen.trans htorn) hnonzero hkind hcell hlife hcancel htarget
      have hlength := congrArg List.length (hqueue.symm.trans h.enqueued)
      rw [List.length_append] at hlength
      simp at hlength
    · intro h
      rcases Moves.issueCancel_cases d t refusal with
        hsame | ⟨_, _, _, _, hsame⟩ | ⟨op', target, hrefusal, -, -, -, hcell', -, hcancel, htarget, -⟩
      · exact ⟨by rw [hsame.slab], deferredCancels_issueCancel, by rw [hsame.ring]⟩
      · exact ⟨by rw [hsame.slab], deferredCancels_issueCancel, by rw [hsame.ring]⟩
      · cases hcell.symm.trans hcell'
        refine absurd ⟨htorn, op, hcell, .inr ⟨hlife, hcancel, ?_, hrefusal⟩⟩ h
        rw [htarget]
        nofun
  · rename_i state hother hstate
    obtain ⟨op, hcell, hlife, hobserver⟩ :=
      OpSlab.state_eq_some.mp (show d.slab.state t = some (state.1, state.2) from hstate)
    have hlife : op.lifecycle ≠ .submitted := by
      rintro hsubmitted
      exact hother state.2 (by rw [← hsubmitted, hlife])
    by_cases hmem : t ∈ d.deferredCancels
    · rw [if_pos hmem]
      refine iff_of_true (.refl d) ?_
      rintro ⟨-, op', hcell', hor⟩
      cases hcell.symm.trans hcell'
      rcases hor with ⟨-, hnot⟩ | ⟨hsubmitted, -⟩
      · exact hnot hmem
      · exact hlife hsubmitted
    · rw [if_neg hmem]
      refine iff_of_false (fun h => ?_) (not_not.mpr ⟨htorn, op, hcell, .inl ⟨hlife, hmem⟩⟩)
      have hlength := congrArg List.length h.deferred
      rw [List.length_append] at hlength
      simp at hlength
  · rename_i hstate
    refine iff_of_true (.refl d) ?_
    rintro ⟨-, op, hcell, -⟩
    cases hstate.symm.trans (OpSlab.state_eq_some.mpr ⟨op, hcell, rfl, rfl⟩)

end DriverInner

-- ---------------------------------------------------------------------------
-- Ids over runs
-- ---------------------------------------------------------------------------

/-- What an operation's id is known by. -/
structure Identified (slab : OpSlab ws OpPayload) (t : Token ws) : Prop where
  kind : t.kind = .operation
  nonzero : t.asUserData ≠ 0
  issued : slab.Issued t.key

theorem kept_identified (ok : Sys ws → Action ws → Prop) :
    Kept ok fun s => ∀ σ f, s.futures σ = some f → Identified s.world.inner.slab f.token where
  initial s hs σ f hf := by
    rw [hs.results] at hf
    cases hf
  move s s' _ h hm σ f hf :=
    { h σ f (hm.futures hf) with issued := hm.issued (h σ f (hm.futures hf)).issued }
  accepted s s' t p e f _ _ _ h _ _ ha σ g hg := by
    rw [ha.futures, Function.update_apply] at hg
    split at hg
    · obtain rfl := Option.some.inj hg
      obtain rfl := ha.token
      exact ⟨ha.kind, Token.asUserData_ne_zero ha.generation, (ha.issued _).mpr (.inr rfl)⟩
    · have hold := h σ g hg
      exact { hold with issued := (ha.issued _).mpr (.inl hold.issued) }
  setCursor s file position _ h _ := h

theorem Identified.stride {t : Token ws} (h : Identified s.world.inner.slab t) (hst : Stride s s' a) :
    Identified s'.world.inner.slab t := by
  cases hst with
  | moves hm hcalm =>
    clear hcalm
    induction hm with
    | refl => exact h
    | tail _ hlast ih => exact { ih with issued := hlast.issued ih.issued }
  | accepted _ ha => exact { h with issued := (ha.issued _).mpr (.inl h.issued) }
  | setCursor hs => exact hs ▸ h

/-- An operation that was accepted and is no longer live. -/
def Finished (s : Sys ws) (t : Token ws) : Prop :=
  Identified s.world.inner.slab t ∧ s.world.inner.slab.payloadAt t.key = none

/-- No step brings a finished operation back, or gives its slot's generation to
another. -/
theorem Finished.stride {t : Token ws} (h : Finished s t) (hst : Stride s s' a) : Finished s' t := by
  refine ⟨h.1.stride hst, ?_⟩
  cases hst with
  | moves hm hcalm =>
    clear hcalm
    induction hm with
    | refl => exact h.2
    | tail _ hlast ih =>
      rw [Option.eq_none_iff_forall_not_mem]
      intro p hp
      cases ih.symm.trans (hlast.payloadAt hp)
  | accepted _ ha =>
    rw [ha.payloadAt, Function.update_apply, if_neg]
    · exact h.2
    · exact fun hkey => ha.unissued (hkey ▸ h.1.issued)
  | setCursor hs => exact hs ▸ h.2

/-- A call of `cancel` comes to what the driver makes of the request. -/
theorem cancel_step (hkind : t.kind = .operation) (hs : s.step (.cancel t refusal) = some s') :
    s.borrow ≠ .free ∧ s' = s.halt ∨
      s.borrow = .free ∧ s'.world.inner = ((s.world.inner.requestCancel t refusal).takeDriverWaker).1 := by
  unfold Sys.step at hs
  split at hs
  · cases hs
  dsimp only at hs
  split at hs
  · simp only [Sys.applicationStep, hkind, if_true, Option.some.injEq] at hs
    subst hs
    unfold Sys.call
    split
    · refine .inr ⟨‹_›, ?_⟩
      show (World.wakeOptional _ _).inner = _
      unfold World.wakeOptional World.emitAll
      rfl
    · exact .inl ⟨‹_›, rfl⟩
  · cases hs

/-- The id of an operation of one driver, handed to another, leaves the other's
operations alone unless it names one of them. Within its own driver, it leaves
every operation alone once its own has finished. -/
theorem cancel_own_iff (ws : WordSize) :
    (∀ s₁ s₂ s₂' : Sys ws, (systemMachine ws).Reachable s₁ → (systemMachine ws).Reachable s₂ →
      ∀ σ future refusal, s₁.futures σ = some future →
        s₂.step (.cancel future.token refusal) = some s₂' →
        (Uncancelled s₂.world.inner s₂'.world.inner ↔
          ¬ (s₂.borrow = .free ∧ Aliased s₂.world.inner future.token refusal))) ∧
    ∀ s₀ s₁ s₂ s₃ : Sys ws, (systemMachine ws).Reachable s₀ → ∀ σ future, s₀.futures σ = some future →
      ∀ as, (systemMachine ws).run s₀ as = some s₁ →
        (∀ op, s₁.world.inner.slab.cell future.token.key ≠ some (.live op)) →
        ∀ bs, (systemMachine ws).run s₁ bs = some s₂ →
          ∀ refusal, s₂.step (.cancel future.token refusal) = some s₃ →
            Uncancelled s₂.world.inner s₃.world.inner := by
  have hcancel : ∀ {s s' : Sys ws} {t : Token ws} {refusal}, (systemMachine ws).Reachable s →
      t.kind = .operation → t.asUserData ≠ 0 → s.step (.cancel t refusal) = some s' →
      (Uncancelled s.world.inner s'.world.inner ↔
        ¬ (s.borrow = .free ∧ Aliased s.world.inner t refusal)) := by
    intro s s' t refusal hr hkind hnonzero hs
    rcases cancel_step hkind hs with ⟨hheld, rfl⟩ | ⟨hfree, hinner⟩
    · exact iff_of_true (.refl _) fun h => hheld h.1
    · have hclosed := (books_of_reachable hr).tornDown.symm
      have hiff : Uncancelled s.world.inner (s.world.inner.requestCancel t refusal) ↔ _ :=
        DriverInner.uncancelled_requestCancel_iff hclosed hnonzero hkind
      rw [hinner, and_iff_right hfree, ← hiff]
      exact ⟨fun h => ⟨h.1, h.2, h.3⟩, fun h => ⟨h.1, h.2, h.3⟩⟩
  refine ⟨fun s₁ s₂ s₂' h₁ h₂ σ future refusal hfuture hs => ?_, ?_⟩
  · have hid := (kept_identified _).reachable h₁ σ future hfuture
    exact hcancel h₂ hid.kind hid.nonzero hs
  · intro s₀ s₁ s₂ s₃ h₀ σ future hfuture as has hgone bs hbs refusal hs
    have hid := (kept_identified _).reachable h₀ σ future hfuture
    have hid₁ := run_keeps (P := fun s => Identified s.world.inner.slab future.token)
      (fun _ _ _ h hst => h.stride hst) h₀ hid has
    have hnone : s₁.world.inner.slab.payloadAt future.token.key = none := by
      rw [Option.eq_none_iff_forall_not_mem]
      intro p hp
      obtain ⟨op, hop, -⟩ := OpSlab.payloadAt_eq_some.mp hp
      exact hgone op hop
    have h₁ := h₀.run has
    obtain ⟨-, hnone₂⟩ := run_keeps (fun _ _ _ h hst => Finished.stride h hst) h₁ ⟨hid₁, hnone⟩ hbs
    refine (hcancel (h₁.run hbs) hid.kind hid.nonzero hs).mpr ?_
    rintro ⟨-, -, op, hop, -⟩
    cases hnone₂.symm.trans (OpSlab.payloadAt_of_cell hop)

/-- A driver with a flush in the platform's hands. -/
def flushing (file : FileId) : List (Action .w64) :=
  [.start (.flush file) .willing, .pollDrive 7 .willing, .advance .willing, .advance .willing]

/-- Two drivers' first operations have one id. -/
theorem not_cancel_own : ¬ ∀ s₁ s₂ s₂' : Sys .w64, (systemMachine .w64).Reachable s₁ →
    (systemMachine .w64).Reachable s₂ → ∀ σ future refusal, s₁.futures σ = some future →
      s₂.step (.cancel future.token refusal) = some s₂' → Uncancelled s₂.world.inner s₂'.world.inner := by
  intro h
  obtain ⟨s₁, future, hrun₁, hfuture, htoken⟩ : ∃ s f, (systemMachine .w64).run .new (flushing 3) = some s ∧
      s.futures 0 = some f ∧ f.token = ⟨2 ^ 17⟩ := ⟨_, _, rfl, rfl, rfl⟩
  obtain ⟨s₂, s₂', hrun₂, hstep, hbefore, hafter⟩ : ∃ s s', (systemMachine .w64).run .new (flushing 4) = some s ∧
      s.step (.cancel ⟨2 ^ 17⟩ none) = some s' ∧ s.world.inner.ring.queue.length = 0 ∧
      s'.world.inner.ring.queue.length = 1 := ⟨_, _, rfl, rfl, rfl, rfl⟩
  have hkept := h s₁ s₂ s₂' (reachable_of_run hrun₁) (reachable_of_run hrun₂) 0 future none hfuture
    (htoken ▸ hstep)
  rw [hkept.enqueued, hbefore] at hafter
  cases hafter

/-- A driver with nothing under way leaves another's id alone. -/
theorem cancel_own_idle : ∃ s₁ s₂ s₂' : Sys .w64, ∃ future, (systemMachine .w64).run .new (flushing 3) = some s₁ ∧
    s₁.futures 0 = some future ∧ s₂.step (.cancel future.token none) = some s₂' ∧
    Uncancelled s₂.world.inner s₂'.world.inner := by
  obtain ⟨s₁, future, hrun₁, hfuture, htoken⟩ : ∃ s f, (systemMachine .w64).run .new (flushing 3) = some s ∧
      s.futures 0 = some f ∧ f.token = ⟨2 ^ 17⟩ := ⟨_, _, rfl, rfl, rfl⟩
  obtain ⟨s₂', hstep⟩ : ∃ s', (Sys.new : Sys .w64).step (.cancel ⟨2 ^ 17⟩ none) = some s' := ⟨_, rfl⟩
  have hstep' : (Sys.new : Sys .w64).step (.cancel future.token none) = some s₂' := htoken ▸ hstep
  refine ⟨s₁, .new, s₂', future, hrun₁, hfuture, hstep', ?_⟩
  refine ((cancel_own_iff .w64).1 s₁ .new s₂' (reachable_of_run hrun₁) (.init Sys.new_initial) 0 future none
    hfuture hstep').mpr ?_
  rintro ⟨-, -, op, hop, -⟩
  cases hop

end WinIoring.Runtime
