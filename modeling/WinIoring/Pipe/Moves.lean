import WinIoring.Pipe.Server

/-!
# Moves of the pipe server

What each step of the server, its platform and its application comes to, with the
branch that was taken and what was found there.
-/

namespace WinIoring.Pipe

open WinIoring.Runtime (Waker)

variable {s s' t : Sys}

namespace Sys

-- ---------------------------------------------------------------------------
-- Where a change shows
-- ---------------------------------------------------------------------------

section Fields

variable (s : Sys) (c : ConnectId) (f : Connect → Connect) (e : Event)

@[simp] theorem modify_accept : (s.modify c f).accept = s.accept := rfl
@[simp] theorem modify_future : (s.modify c f).future = s.future := rfl
@[simp] theorem modify_pc : (s.modify c f).pc = s.pc := rfl
@[simp] theorem modify_nextConnect : (s.modify c f).nextConnect = s.nextConnect := rfl
@[simp] theorem modify_line : (s.modify c f).line = s.line := rfl
@[simp] theorem modify_log : (s.modify c f).log = s.log := rfl
@[simp] theorem modify_leakedFiles : (s.modify c f).leakedFiles = s.leakedFiles := rfl
@[simp] theorem modify_connects :
    (s.modify c f).connects = Function.update s.connects c (f (s.connects c)) := rfl

@[simp] theorem emit_accept : (s.emit e).accept = s.accept := rfl
@[simp] theorem emit_future : (s.emit e).future = s.future := rfl
@[simp] theorem emit_pc : (s.emit e).pc = s.pc := rfl
@[simp] theorem emit_nextConnect : (s.emit e).nextConnect = s.nextConnect := rfl
@[simp] theorem emit_line : (s.emit e).line = s.line := rfl
@[simp] theorem emit_log : (s.emit e).log = e :: s.log := rfl
@[simp] theorem emit_leakedFiles : (s.emit e).leakedFiles = s.leakedFiles := rfl
@[simp] theorem emit_connects : (s.emit e).connects = s.connects := rfl

end Fields

/-- A slot whose event's drop came to `event`. -/
def closeSlot (s : Sys) (c : ConnectId) (event : ArmedEvent) : Sys :=
  s.modify c fun k => { k with overlapped := .freed, event }

theorem dropSlot_some (h : s.dropSlot c u = some t) :
    ∃ event, (s.connects c).event.drop u = some event ∧ t = s.closeSlot c event := by
  obtain ⟨event, hdrop, rfl⟩ := Option.map_eq_some_iff.mp h
  exact ⟨event, hdrop, rfl⟩

theorem callable_iff : s.callable = true ↔ s.pc = .idle ∧ s.future = none := by
  rw [callable, decide_eq_true_eq]

end Sys

-- ---------------------------------------------------------------------------
-- The moves
-- ---------------------------------------------------------------------------

/-- `begin_accept` submits a connect. -/
structure Sys.Submits (s : Sys) (a : Answers) : Prop where
  callable : s.callable = true
  free : s.accept = .fresh ∨ s.accept = .idle
  answers : s.answers a.connect = true

inductive Move (s : Sys) : Action → Sys → Prop
  -- The platform.
  | completed (hout : (s.connects c).outstanding = true) (hresult : result ≠ .error errorIoIncomplete) :
    Move s (.complete c result)
      ((s.modify c fun k => { k with internal := .terminal result }).emit (.completed c result))
  | signalled (hpended : (s.connects c).pended = true) :
    Move s (.signal c) (s.setEvent c (s.connects c).event.signal)
  | dispatched (h : (s.connects c).event.dispatch = some event) :
    Move s (.dispatch c) (s.setEvent c event)
  | calledBack (h : (s.connects c).event.callback = some event) :
    Move s (.callback c) (s.modify c fun k =>
      { k with event, announced := k.announced || k.completed })
  | woke (h : (s.connects c).event.wake w = some event) :
    Move s (.poolWake c w) ((s.setEvent c event).emit (.wake w))
  | clientGone (hline : s.line = .listening)
      (hnone : ∀ c < s.nextConnect, (s.connects c).outstanding = false) :
    Move s .clientGone { s with line := .closing }
  -- `Server::accept`.
  | readied (hcall : s.callable = true) (haccept : s.accept = .connected) :
    Move s (.accept a) (s.returnAccept (.ok true))
  | rejoined (hcall : s.callable = true) (haccept : s.accept = .accepting c)
      (hpending : (s.connects c).completed = false) :
    Move s (.accept a) (s.returnAccept (.ok false))
  | resumed (hcall : s.callable = true) (haccept : s.accept = .accepting c)
      (hdone : (s.connects c).completed = true) :
    Move s (.accept a) { s.observe c with pc := .collecting .accept }
  | unarmed (hcall : s.callable = true) (hfree : s.accept = .fresh ∨ s.accept = .idle)
      (harm : a.arm = some hr) :
    Move s (.accept a) (s.returnAccept (.error (.ofHResult hr)))
  | joined (h : s.Submits a) (harm : a.arm = none) (hreports : reportsClient a.connect = true)
      (hdrop : ArmedEvent.new.drop a.unregister = some event) :
    Move s (.accept a) (Sys.returnAccept
      { (s.issue a.connect).closeSlot s.nextConnect event with
        accept := .connected
        line := .listening } (.ok true))
  | pended (h : s.Submits a) (harm : a.arm = none) (hanswer : a.connect = .error errorIoPending) :
    Move s (.accept a) (Sys.returnAccept
      { (s.issue a.connect).modify s.nextConnect fun k => { k with pended := true } with
        accept := .accepting s.nextConnect
        line := .listening } (.ok false))
  | refused (h : s.Submits a) (harm : a.arm = none) (hanswer : a.connect = .error hr)
      (hpending : hr ≠ errorIoPending) (hreports : reportsClient a.connect = false)
      (hdrop : ArmedEvent.new.drop a.unregister = some event) :
    Move s (.accept a)
      (((s.issue a.connect).closeSlot s.nextConnect event).returnAccept (.error (.ofHResult hr)))
  -- `Accept::poll`.
  | settled (hidle : s.pc = .idle) (hfuture : s.future = some .ready ∧ r = .ok () ∨
      ∃ e, s.future = some (.failed e) ∧ r = .error e) :
    Move s (.poll w) (s.resolve r)
  | parked (hidle : s.pc = .idle) (hfuture : s.future = some .waiting)
      (haccept : s.accept = .accepting c) (hquiet : (s.connects c).event.signalled = false) :
    Move s (.poll w)
      ((s.emit (.polled w)).setEvent c { (s.connects c).event with waker := some w })
  | found (hidle : s.pc = .idle) (hfuture : s.future = some .waiting)
      (haccept : s.accept = .accepting c) (hsignalled : (s.connects c).event.signalled = true) :
    Move s (.poll w)
      { (s.emit (.polled w)).setEvent c
          { (s.connects c).event with signalled := false, waker := none } with
        pc := .collecting (.poll w) }
  | polledConnected (hidle : s.pc = .idle) (hfuture : s.future = some .waiting)
      (haccept : s.accept = .connected) :
    Move s (.poll w) { s.emit (.polled w) with pc := .collecting (.poll w) }
  | polledFree (hidle : s.pc = .idle) (hfuture : s.future = some .waiting)
      (hfree : s.accept = .fresh ∨ s.accept = .idle) :
    Move s (.poll w) ((s.emit (.polled w)).resolve (.error .listening))
  | abandoned (hidle : s.pc = .idle) (hfuture : s.future ≠ none) :
    Move s .dropFuture { s with future := none }
  -- `Server::disconnect` and the start of `Drop for Server`.
  | disconnected (hcall : s.callable = true) (haccept : s.accept = .connected) :
    Move s (.disconnect none) ({ s with accept := .idle, line := .disconnected }.emit .disconnected)
  | declined (hcall : s.callable = true) (h : s.accept = .connected → refusal ≠ none) :
    Move s (.disconnect refusal) s
  | dropped (hcall : s.callable = true) (haccept : ∀ c, s.accept ≠ .accepting c) :
    Move s .dropServer { s with pc := .dropped }
  | tearing (hcall : s.callable = true) (haccept : s.accept = .accepting c) :
    Move s .dropServer { s.observe c with
      pc := if (s.connects c).completed then .cancelled c .located else .cancelling c }
  -- `Server::collect`.
  | collected (hpc : s.pc = .collecting caller) (haccept : s.accept = .accepting c)
      (hresult : reportsClient (s.connects c).getOverlappedResult = true)
      (hdrop : (s.connects c).event.drop a.unregister = some event) :
    Move s (.advance a) (Sys.afterCollect
      ({ (s.observe c).closeSlot c event with accept := .connected }.emit
        (.collected c (s.connects c).getOverlappedResult)) (.ok true) caller)
  | uncollected (hpc : s.pc = .collecting caller) (haccept : s.accept = .accepting c)
      (hresult : (s.connects c).getOverlappedResult = .error errorIoIncomplete) :
    Move s (.advance a) ((s.observe c).afterCollect (.ok false) caller)
  | failed (hpc : s.pc = .collecting caller) (haccept : s.accept = .accepting c)
      (hresult : (s.connects c).getOverlappedResult = .error hr)
      (hreports : reportsClient (s.connects c).getOverlappedResult = false)
      (hfinished : hr ≠ errorIoIncomplete) :
    Move s (.advance a) ((s.observe c).afterCollect (.error (.ofHResult hr)) caller)
  | collectedNothing (hpc : s.pc = .collecting caller) (haccept : ∀ c, s.accept ≠ .accepting c) :
    Move s (.advance a) (s.afterCollect (.ok true) caller)
  -- The rest of `Accept::poll`.
  | reparked (hpc : s.pc = .reparking w) (haccept : s.accept = .accepting c)
      (hquiet : (s.connects c).event.signalled = false) :
    Move s (.advance a)
      { s.setEvent c { (s.connects c).event with waker := some w } with pc := .idle }
  | rewoken (hpc : s.pc = .reparking w) (haccept : s.accept = .accepting c)
      (hsignalled : (s.connects c).event.signalled = true) :
    Move s (.advance a)
      ({ s.setEvent c { (s.connects c).event with signalled := false, waker := none } with
          pc := .idle }.emit (.wake w))
  | reparkedNothing (hpc : s.pc = .reparking w) (haccept : ∀ c, s.accept ≠ .accepting c) :
    Move s (.advance a) { s with pc := .idle }
  -- `Drop for Server`.
  | cancelled (hpc : s.pc = .cancelling c) (houtcome : outcome = CancelOutcome.ofResult a.cancel) :
    Move s (.advance a) ({ s with pc := .cancelled c outcome }.emit (.cancelled c outcome))
  | permitted (hpc : s.pc = .cancelled c outcome)
      (haction : (teardownAction outcome (s.connects c).completed).frees = true) :
    Move s (.advance a) { s.observe c with pc := .releasing c }
  | uncancelled (hpc : s.pc = .cancelled c outcome)
      (haction : (teardownAction outcome (s.connects c).completed).frees = false) :
    Move s (.advance a) ((s.observe c).leakSlot c)
  | released (hpc : s.pc = .releasing c)
      (hrelease : (s.connects c).event.releaseRegistration a.unregister = some (event, .released)) :
    Move s (.advance a) { s.setEvent c event with pc := .blocking c }
  | unreleased (hpc : s.pc = .releasing c) (hr : release ≠ .released)
      (hrelease : (s.connects c).event.releaseRegistration a.unregister = some (event, release)) :
    Move s (.advance a) ((s.setEvent c event).leakSlot c)
  | returned (hpc : s.pc = .blocking c) : Move s (.advance a) { s with pc := .returned c }
  | freed (hpc : s.pc = .returned c) (hdone : (s.connects c).completed = true)
      (hdrop : (s.connects c).event.drop a.unregister = some event) :
    Move s (.advance a)
      { (s.observe c).closeSlot c event with accept := .idle, pc := .dropped }
  | unfinished (hpc : s.pc = .returned c) (hpending : (s.connects c).completed = false) :
    Move s (.advance a) ((s.observe c).leakSlot c)

-- ---------------------------------------------------------------------------
-- Every step is a move
-- ---------------------------------------------------------------------------

variable {c : ConnectId} {a : Answers} {act : Action}

theorem ofIfSome {p : Prop} [Decidable p] {x y : Sys} (h : (if p then some x else none) = some y) :
    p ∧ y = x := by
  split at h
  · rename_i hp
    exact ⟨hp, (Option.some.inj h).symm⟩
  · cases h

theorem connect_move (hcall : s.callable = true) (hfree : s.accept = .fresh ∨ s.accept = .idle)
    (h : s.connect a = some (t, r)) : Move s (.accept a) (t.returnAccept r) := by
  unfold Sys.connect at h
  split at h
  · rename_i hr harm
    obtain ⟨rfl, rfl⟩ := Prod.mk.inj (Option.some.inj h)
    exact .unarmed hcall hfree harm
  rename_i harm
  split at h
  · rename_i hanswers
    have hsubmits : s.Submits a := ⟨hcall, hfree, hanswers⟩
    have hnew : ((s.issue a.connect).connects s.nextConnect).event = .new := by
      simp [Sys.issue, Connect.new]
    dsimp only at h
    split at h
    · rename_i hanswer
      obtain ⟨dropped, hdrop, heq⟩ := Option.map_eq_some_iff.mp h
      obtain ⟨event, hevent, rfl⟩ := Sys.dropSlot_some hdrop
      obtain ⟨rfl, rfl⟩ := Prod.mk.inj heq
      exact .joined hsubmits harm (by rw [hanswer]; rfl) (hnew ▸ hevent)
    · rename_i hr hanswer
      split at h
      · rename_i hpending
        obtain ⟨rfl, rfl⟩ := Prod.mk.inj (Option.some.inj h)
        exact .pended hsubmits harm (hpending ▸ hanswer)
      rename_i hpending
      split at h
      all_goals
        rename_i hreports
        obtain ⟨dropped, hdrop, heq⟩ := Option.map_eq_some_iff.mp h
        obtain ⟨event, hevent, rfl⟩ := Sys.dropSlot_some hdrop
        obtain ⟨rfl, rfl⟩ := Prod.mk.inj heq
      · exact .joined hsubmits harm (by simp [hanswer, reportsClient, hreports]) (hnew ▸ hevent)
      · exact .refused hsubmits harm hanswer hpending (by simp [hanswer, reportsClient, hreports])
          (hnew ▸ hevent)
  · cases h

theorem beginAccept_move (hcall : s.callable = true) (h : s.beginAccept a = some s') :
    Move s (.accept a) s' := by
  unfold Sys.beginAccept at h
  split at h
  · rename_i haccept
    obtain rfl := Option.some.inj h
    exact .readied hcall haccept
  · rename_i c haccept
    split at h
    · rename_i hdone
      obtain rfl := Option.some.inj h
      exact .resumed hcall haccept hdone
    · rename_i hpending
      obtain rfl := Option.some.inj h
      exact .rejoined hcall haccept (Bool.eq_false_iff.mpr hpending)
  · rename_i haccept
    obtain ⟨⟨t, r⟩, hconnect, rfl⟩ := Option.map_eq_some_iff.mp h
    exact connect_move hcall (.inl haccept) hconnect
  · rename_i haccept
    obtain ⟨⟨t, r⟩, hconnect, rfl⟩ := Option.map_eq_some_iff.mp h
    exact connect_move hcall (.inr haccept) hconnect

theorem poll_move (hidle : s.pc = .idle) (h : s.poll w = some s') : Move s (.poll w) s' := by
  unfold Sys.poll at h
  split at h
  · cases h
  · cases h
  · rename_i hfuture
    obtain rfl := Option.some.inj h
    exact .settled hidle (.inl ⟨hfuture, rfl⟩)
  · rename_i e hfuture
    obtain rfl := Option.some.inj h
    exact .settled hidle (.inr ⟨e, hfuture, rfl⟩)
  rename_i hfuture
  dsimp only at h
  split at h
  · rename_i c haccept
    cases hsignalled : (s.connects c).event.signalled with
    | true =>
      rw [Sys.emit_connects, ArmedEvent.pollSignalled_signalled hsignalled] at h
      obtain rfl := Option.some.inj h
      exact .found hidle hfuture haccept hsignalled
    | false =>
      rw [Sys.emit_connects, ArmedEvent.pollSignalled_quiet hsignalled] at h
      obtain rfl := Option.some.inj h
      exact .parked hidle hfuture haccept hsignalled
  · rename_i haccept
    obtain rfl := Option.some.inj h
    exact .polledConnected hidle hfuture haccept
  · rename_i haccept
    obtain rfl := Option.some.inj h
    exact .polledFree hidle hfuture (.inl haccept)
  · rename_i haccept
    obtain rfl := Option.some.inj h
    exact .polledFree hidle hfuture (.inr haccept)

theorem collect_move (hpc : s.pc = .collecting caller) (h : s.collect a.unregister = some (t, r)) :
    Move s (.advance a) (t.afterCollect r caller) := by
  unfold Sys.collect at h
  split at h
  · rename_i c haccept
    dsimp only at h
    have hevent : ((s.observe c).connects c).event = (s.connects c).event := by simp [Sys.observe]
    split at h
    · rename_i hresult
      obtain ⟨dropped, hdrop, heq⟩ := Option.map_eq_some_iff.mp h
      obtain ⟨event, hclosed, rfl⟩ := Sys.dropSlot_some hdrop
      obtain ⟨rfl, rfl⟩ := Prod.mk.inj heq
      exact .collected hpc haccept (by rw [hresult]; rfl) (hevent ▸ hclosed)
    · rename_i hr hresult
      split at h
      · rename_i hconnected
        obtain ⟨dropped, hdrop, heq⟩ := Option.map_eq_some_iff.mp h
        obtain ⟨event, hclosed, rfl⟩ := Sys.dropSlot_some hdrop
        obtain ⟨rfl, rfl⟩ := Prod.mk.inj heq
        exact .collected hpc haccept (by simp [hresult, reportsClient, hconnected]) (hevent ▸ hclosed)
      rename_i hreports
      split at h
      · rename_i hincomplete
        obtain ⟨rfl, rfl⟩ := Prod.mk.inj (Option.some.inj h)
        exact .uncollected hpc haccept (hincomplete ▸ hresult)
      · rename_i hfinished
        obtain ⟨rfl, rfl⟩ := Prod.mk.inj (Option.some.inj h)
        exact .failed hpc haccept hresult (by simp [hresult, reportsClient, hreports]) hfinished
  · rename_i haccept
    obtain ⟨rfl, rfl⟩ := Prod.mk.inj (Option.some.inj h)
    exact .collectedNothing hpc haccept

theorem repark_move (hpc : s.pc = .reparking w) : Move s (.advance a) (s.repark w) := by
  unfold Sys.repark
  split
  · rename_i c haccept
    cases hsignalled : (s.connects c).event.signalled with
    | true =>
      rw [ArmedEvent.pollSignalled_signalled hsignalled]
      exact .rewoken hpc haccept hsignalled
    | false =>
      rw [ArmedEvent.pollSignalled_quiet hsignalled]
      exact .reparked hpc haccept hsignalled
  · rename_i haccept
    exact .reparkedNothing hpc haccept

theorem disconnect_move (hcall : s.callable = true) (refusal : Option HResult) :
    Move s (.disconnect refusal) (s.disconnect refusal).1 := by
  unfold Sys.disconnect
  split
  · rename_i haccept
    split
    · exact .disconnected hcall haccept
    · exact .declined hcall nofun
  all_goals
    rename_i haccept
    exact .declined hcall fun hconnected => absurd (haccept.symm.trans hconnected) nofun

theorem dropServer_move (hcall : s.callable = true) : Move s .dropServer s.dropServer := by
  unfold Sys.dropServer
  split
  · rename_i c haccept
    exact .tearing hcall haccept
  · rename_i haccept
    exact .dropped hcall haccept

theorem tearDown_move (h : s.tearDown a s.pc = some s') : Move s (.advance a) s' := by
  unfold Sys.tearDown at h
  split at h
  · rename_i c hpc
    obtain rfl := Option.some.inj h
    exact .cancelled hpc rfl
  · rename_i c outcome hpc
    obtain rfl := Option.some.inj h
    split
    · rename_i haction
      exact .permitted hpc haction
    · rename_i haction
      exact .uncancelled hpc (Bool.eq_false_iff.mpr haction)
  · rename_i c hpc
    obtain ⟨⟨event, release⟩, hrelease, rfl⟩ := Option.map_eq_some_iff.mp h
    dsimp only
    cases release with
    | released => exact .released hpc hrelease
    | failed => exact Move.unreleased hpc (by decide : Registration.failed ≠ .released) hrelease
    | live => exact Move.unreleased hpc (by decide : Registration.live ≠ .released) hrelease
  · rename_i c hpc
    obtain rfl := Option.some.inj h
    exact .returned hpc
  · rename_i c hpc
    have hevent : ((s.observe c).connects c).event = (s.connects c).event := by simp [Sys.observe]
    dsimp only at h
    cases hdone : (s.connects c).completed with
    | true =>
      rw [hdone] at h
      obtain ⟨dropped, hdrop, rfl⟩ := Option.map_eq_some_iff.mp h
      obtain ⟨event, hclosed, rfl⟩ := Sys.dropSlot_some hdrop
      exact .freed hpc hdone (hevent ▸ hclosed)
    | false =>
      rw [hdone] at h
      obtain rfl := Option.some.inj h
      exact .unfinished hpc hdone
  · cases h

theorem advance_move (h : s.advance a = some s') : Move s (.advance a) s' := by
  unfold Sys.advance at h
  split at h
  · rename_i caller hpc
    obtain ⟨⟨t, r⟩, hcollect, rfl⟩ := Option.map_eq_some_iff.mp h
    exact collect_move hpc hcollect
  · rename_i w hpc
    obtain rfl := Option.some.inj h
    exact repark_move hpc
  · exact tearDown_move h

/-- Every step is a move. -/
theorem step_move (h : s.step act = some s') : Move s act s' := by
  cases act with
  | complete c result =>
    obtain ⟨hguard, rfl⟩ := ofIfSome h
    exact .completed hguard.1 hguard.2
  | signal c =>
    obtain ⟨hpended, rfl⟩ := ofIfSome h
    exact .signalled hpended
  | dispatch c =>
    obtain ⟨event, hevent, rfl⟩ := Option.map_eq_some_iff.mp h
    exact .dispatched hevent
  | callback c =>
    obtain ⟨k, hk, rfl⟩ := Option.map_eq_some_iff.mp h
    obtain ⟨event, hevent, rfl⟩ := Option.map_eq_some_iff.mp hk
    exact .calledBack hevent
  | poolWake c w =>
    obtain ⟨event, hevent, rfl⟩ := Option.map_eq_some_iff.mp h
    exact .woke hevent
  | clientGone =>
    obtain ⟨hguard, rfl⟩ := ofIfSome h
    exact .clientGone hguard.1 hguard.2
  | accept a =>
    simp only [Sys.step] at h
    split at h
    · rename_i hcall
      exact beginAccept_move hcall h
    · cases h
  | poll w =>
    simp only [Sys.step] at h
    split at h
    · rename_i hidle
      exact poll_move hidle h
    · cases h
  | dropFuture =>
    obtain ⟨hguard, rfl⟩ := ofIfSome h
    exact .abandoned hguard.1 hguard.2
  | disconnect refusal =>
    obtain ⟨hcall, rfl⟩ := ofIfSome h
    exact disconnect_move hcall refusal
  | dropServer =>
    obtain ⟨hcall, rfl⟩ := ofIfSome h
    exact dropServer_move hcall
  | advance a => exact advance_move h

end WinIoring.Pipe
