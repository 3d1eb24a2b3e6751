import WinIoring.Pipe.Safety

/-!
# Tearing a server down

What `Drop for Server` has established by the time it frees a slot, and what it
leaks when it has not.
-/

namespace WinIoring.Pipe

open WinIoring.Runtime (Waker)

variable {s s' : Sys} {c : ConnectId} {act : Action}

/-- Whose wait has been released. -/
def Pc.waitReleased : Pc → Option ConnectId
  | .blocking c | .returned c => some c
  | _ => none

/-- Whose terminal status is there or on its way. -/
def Pc.collectable : Pc → Option ConnectId
  | .cancelled c .located | .releasing c | .blocking c | .returned c => some c
  | _ => none

theorem Pc.tearing_of_collectable {pc : Pc} (h : pc.collectable = some c) : pc.tearing = some c := by
  cases pc with
  | cancelled c outcome =>
    cases outcome with
    | located => exact h
    | _ => cases h
  | releasing | blocking | returned => exact h
  | _ => cases h

theorem Pc.tearing_of_waitReleased {pc : Pc} (h : pc.waitReleased = some c) : pc.tearing = some c := by
  cases pc with
  | blocking | returned => exact h
  | _ => cases h

/-- How far the teardown has come, by the code's position. -/
structure Torn (s : Sys) : Prop where
  armed : ∀ c, s.accept = .accepting c → s.pc.waitReleased = none →
    (s.connects c).event.registration = .live
  released : ∀ c, s.pc.waitReleased = some c → (s.connects c).event.registration = .released
  collectable : ∀ c, s.pc.collectable = some c →
    .cancelled c .located ∈ s.log ∨ (s.connects c).completed = true

-- ---------------------------------------------------------------------------
-- What a move leaves alone
-- ---------------------------------------------------------------------------

theorem Sys.afterCollect_log (s : Sys) (r : Except Error Bool) (caller : Caller) :
    ∃ es, (s.afterCollect r caller).log = es ++ s.log := by
  match caller, r with
  | .accept, _ => exact ⟨[_], rfl⟩
  | .poll _, .ok true | .poll _, .error _ => exact ⟨[_], rfl⟩
  | .poll _, .ok false => exact ⟨[], rfl⟩

/-- The record grows. -/
theorem Move.log (hm : Move s act s') : ∃ es, s'.log = es ++ s.log := by
  cases hm with
  | @collected caller c event a =>
    obtain ⟨es, hes⟩ := Sys.afterCollect_log ({ (s.observe c).closeSlot c event with
      accept := .connected }.emit (.collected c (s.connects c).getOverlappedResult)) (.ok true) caller
    exact ⟨es ++ [.collected c (s.connects c).getOverlappedResult], by
      rw [hes]
      simp [Sys.closeSlot, Sys.observe]⟩
  | @uncollected caller c => exact Sys.afterCollect_log ..
  | @failed caller c => exact Sys.afterCollect_log ..
  | collectedNothing => exact Sys.afterCollect_log ..
  | joined | pended | refused => exact ⟨[_, _], rfl⟩
  | polledFree => exact ⟨[_, _], rfl⟩
  | completed | woke | readied | rejoined | unarmed | settled | parked | found | polledConnected |
    disconnected | rewoken | cancelled => exact ⟨[_], rfl⟩
  | _ => exact ⟨[], rfl⟩

/-- Only a teardown's release changes the registration of a slot that stays. -/
theorem Move.registration (hm : Move s act s') (hw : Wf s) (haccept : s.accept = .accepting c)
    (hstays : s'.accept = .accepting c) :
    (s'.pc = .blocking c ∧ (s'.connects c).event.registration = .released) ∨
      (s'.connects c).event.registration = (s.connects c).event.registration := by
  have hupdate : ∀ {c' : ConnectId} {k : Connect},
      k.event.registration = (s.connects c').event.registration →
      (Function.update s.connects c' k c).event.registration = (s.connects c).event.registration := by
    intro c' k hk
    rw [Function.update_apply]
    split
    · rename_i hc
      rw [hk, hc]
    · rfl
  have hfree : ¬ (s.accept = .fresh ∨ s.accept = .idle) := by
    rintro (hfree | hfree) <;> cases haccept.symm.trans hfree
  cases hm with
  | dispatched hevent =>
    exact .inr (hupdate (ArmedEvent.frame_step (a := .dispatch) hevent rfl).1)
  | calledBack hevent =>
    exact .inr (hupdate (ArmedEvent.frame_step (a := .callback) hevent rfl).1)
  | @woke c w event hevent =>
    exact .inr (hupdate (ArmedEvent.frame_step (a := .wake w) hevent rfl).1)
  | joined hsubmits => exact absurd hsubmits.free hfree
  | pended hsubmits => exact absurd hsubmits.free hfree
  | refused hsubmits => exact absurd hsubmits.free hfree
  | completed | signalled | resumed | parked | found | tearing | reparked | rewoken | permitted =>
    exact .inr (hupdate rfl)
  | @collected caller => cases caller <;> cases hstays
  | uncollected | failed =>
    rw [Sys.afterCollect_connects]
    exact .inr (hupdate rfl)
  | collectedNothing =>
    rw [Sys.afterCollect_connects]
    exact .inr rfl
  | uncancelled | unreleased | freed | unfinished => cases hstays
  | @released c' event a hpc hrelease =>
    obtain ⟨hslot, -⟩ := hw.tearing c' (hpc ▸ rfl)
    obtain rfl := AcceptState.accepting.inj (haccept.symm.trans hslot)
    refine .inl ⟨rfl, ?_⟩
    simp [Sys.setEvent, (ArmedEvent.releaseRegistration_registration hrelease).1]
  | _ => exact .inr rfl

-- ---------------------------------------------------------------------------
-- Each step keeps the teardown's ground
-- ---------------------------------------------------------------------------

namespace Torn

theorem new : Torn .new := ⟨nofun, nofun, nofun⟩

/-- The slot stays, and what the code's new position needs is there. -/
theorem keep (h : Torn s) (hw : Wf s) (hm : Move s act s') (haccept : s'.accept = s.accept)
    (hwait : s'.pc.waitReleased = s.pc.waitReleased)
    (hcollect : ∀ c, s'.pc.collectable = some c → s.pc.collectable = some c ∨
      .cancelled c .located ∈ s'.log ∨ (s.connects c).completed = true) : Torn s' := by
  have hslot : ∀ c, s.pc.waitReleased = some c → s.accept = .accepting c :=
    fun c hc => (hw.tearing c (Pc.tearing_of_waitReleased hc)).1
  refine ⟨fun c hc hnone => ?_, fun c hc => ?_, fun c hc => ?_⟩
  · have hold := haccept.symm.trans hc
    rcases hm.registration hw hold hc with ⟨hpc, -⟩ | hsame
    · rw [hpc] at hnone
      cases hnone
    · rw [hsame]
      exact h.armed c hold (hwait.symm.trans hnone)
  · have hold := hwait.symm.trans hc
    rcases hm.registration hw (hslot c hold) (haccept.trans (hslot c hold)) with ⟨-, hr⟩ | hsame
    · exact hr
    · rw [hsame]
      exact h.released c hold
  · obtain ⟨es, hlog⟩ := hm.log
    have hdone : (s.connects c).completed = true → (s'.connects c).completed = true := by
      obtain ⟨hslot', -⟩ := (hw.move hm).tearing c (Pc.tearing_of_collectable hc)
      have hplaced := hw.placed c
      exact (hm.evolves hw (hplaced.bounded (hplaced.slot (haccept.symm.trans hslot')).1)).completed
    rcases hcollect c hc with hold | hlocated | hd
    · rcases h.collectable c hold with hlocated | hd
      · exact .inl (hlog ▸ List.mem_append_right es hlocated)
      · exact .inr (hdone hd)
    · exact .inl hlocated
    · exact .inr (hdone hd)

theorem empty (haccept : ∀ c, s.accept ≠ .accepting c) (hwait : s.pc.waitReleased = none)
    (hcollect : s.pc.collectable = none) : Torn s where
  armed c hc := absurd hc (haccept c)
  released c hc := by rw [hwait] at hc; cases hc
  collectable c hc := by rw [hcollect] at hc; cases hc

theorem move (h : Torn s) (hw : Wf s) (hm : Move s act s') : Torn s' := by
  have hstill : s'.accept = s.accept → s'.pc = s.pc → Torn s' :=
    fun haccept hpc => h.keep hw hm haccept (congrArg _ hpc) fun c hc => .inl (hpc ▸ hc)
  have hturn : ∀ {pc pc'}, s.pc = pc → s'.pc = pc' → s'.accept = s.accept →
      pc.waitReleased = none → pc'.waitReleased = none → pc'.collectable = none → Torn s' := by
    intro pc pc' hpc hpc' haccept hw₁ hw₂ hnone
    refine h.keep hw hm haccept ?_ fun c hc => ?_
    · rw [hpc, hpc', hw₁, hw₂]
    · rw [hpc', hnone] at hc
      cases hc
  have hfree : ∀ {a}, s.Submits a → ∀ c, s.accept ≠ .accepting c := by
    intro a h c haccept
    rcases h.free with hfree | hfree <;> cases haccept.symm.trans hfree
  have hidle : s.callable = true → s.pc = .idle := fun hcall => (Sys.callable_iff.mp hcall).1
  have hm' := hm
  cases hm with
  | readied hcall | rejoined hcall | unarmed hcall =>
    exact hturn (hidle hcall) rfl rfl rfl rfl rfl
  | resumed hcall => exact hturn (hidle hcall) rfl rfl rfl rfl rfl
  | joined => exact .empty (by rintro _ ⟨⟩) rfl rfl
  | refused hsubmits => exact .empty (hfree hsubmits) rfl rfl
  | @pended a hsubmits =>
    refine ⟨fun c hc _ => ?_, (by rintro _ ⟨⟩), (by rintro _ ⟨⟩)⟩
    obtain rfl := AcceptState.accepting.inj hc
    simp [Sys.returnAccept, Sys.issue, Connect.new, ArmedEvent.new]
  | settled hpc | found hpc | polledConnected hpc | polledFree hpc =>
    exact hturn hpc rfl rfl rfl rfl rfl
  | disconnected hcall =>
    have hpc := hidle hcall
    exact .empty (by rintro _ ⟨⟩) (congrArg Pc.waitReleased hpc) (congrArg Pc.collectable hpc)
  | dropped hcall haccept => exact .empty haccept rfl rfl
  | @tearing c hcall haccept =>
    refine h.keep hw hm' rfl ?_ fun c' hc => .inr ?_
    · rw [hidle hcall]
      dsimp only
      split <;> rfl
    · dsimp only at hc
      split at hc
      · rename_i hdone
        obtain rfl := Option.some.inj hc
        exact .inr hdone
      · cases hc
  | @collected caller => cases caller <;> exact .empty (by rintro _ ⟨⟩) rfl rfl
  | @uncollected caller c a hpc | @failed caller c hr a hpc =>
    cases caller <;> exact hturn hpc rfl rfl rfl rfl rfl
  | @collectedNothing caller a hpc => cases caller <;> exact hturn hpc rfl rfl rfl rfl rfl
  | reparked hpc | rewoken hpc | reparkedNothing hpc => exact hturn hpc rfl rfl rfl rfl rfl
  | @cancelled c outcome a hpc =>
    refine h.keep hw hm' rfl (congrArg Pc.waitReleased hpc).symm fun c' hc => .inr (.inl ?_)
    cases outcome with
    | located =>
      obtain rfl := Option.some.inj hc
      exact List.mem_cons_self
    | _ => cases hc
  | @permitted c outcome a hpc haction =>
    refine h.keep hw hm' rfl (congrArg Pc.waitReleased hpc).symm fun c' hc => ?_
    obtain rfl := Option.some.inj hc
    cases outcome with
    | located => exact .inl (congrArg Pc.collectable hpc)
    | notFound =>
      cases hdone : (s.connects c).completed with
      | true => exact .inr (.inr rfl)
      | false =>
        rw [hdone] at haction
        cases haction
    | failed => cases haction
  | @released c event a hpc hrelease =>
    refine ⟨fun _ _ => (by rintro ⟨⟩), fun c' hc => ?_, fun c' hc => ?_⟩
    · obtain rfl := Option.some.inj hc
      simp [Sys.setEvent, (ArmedEvent.releaseRegistration_registration hrelease).1]
    · obtain rfl := Option.some.inj hc
      refine (h.collectable c (congrArg Pc.collectable hpc)).imp id fun hdone => ?_
      simpa [Sys.setEvent, Connect.completed] using hdone
  | returned hpc =>
    exact h.keep hw hm' rfl (congrArg Pc.waitReleased hpc).symm
      fun c' hc => .inl ((congrArg Pc.collectable hpc).trans hc)
  | uncancelled | unreleased | freed | unfinished => exact .empty (by rintro _ ⟨⟩) rfl rfl
  | _ => exact hstill rfl rfl

end Torn

theorem torn_of_reachable (hr : machine.Reachable s) : Torn s :=
  hr.invariant (fun _ h => h ▸ Torn.new) fun _ _ _ hr h _ hs =>
    h.move (wf_of_reachable hr) (step_move hs)

-- ---------------------------------------------------------------------------
-- Freed, or leaked
-- ---------------------------------------------------------------------------

/-- Every event of the server has the history of an armed event. -/
theorem event_of_reachable (hr : machine.Reachable s) (c : ConnectId) :
    ArmedEvent.machine.Reachable (s.connects c).event := by
  have hevolves : ∀ {k k' : Connect}, k.Evolves k' → ArmedEvent.machine.Reachable k.event →
      ArmedEvent.machine.Reachable k'.event := by
    intro k k' he h
    rcases he.event with hsame | ⟨a, hstep⟩
    · rw [hsame]
      exact h
    · exact h.next hstep
  refine hr.invariant (I := fun s => ∀ c, ArmedEvent.machine.Reachable (s.connects c).event)
    (fun _ h c => h ▸ .init rfl) (fun s s' act hr h _ hs => ?_) c
  rcases (step_move hs).connects (wf_of_reachable hr) with hsame | ⟨c, k, hupdate, hk⟩ | ⟨k, hupdate, hk⟩
  · rw [hsame]
    exact h
  · rw [hupdate]
    exact (Function.forall_update_iff s.connects fun _ k => ArmedEvent.machine.Reachable k.event).mpr
      ⟨hevolves hk (h c), fun c _ => h c⟩
  · rw [hupdate]
    exact (Function.forall_update_iff s.connects fun _ k => ArmedEvent.machine.Reachable k.event).mpr
      ⟨hevolves hk (.init rfl), fun c _ => h c⟩

/-- The slot is freed with no callback left, its event's count reclaimed and its
handle closed once each. -/
structure Frees (s s' : Sys) (c : ConnectId) : Prop where
  overlapped : (s'.connects c).overlapped = .freed
  event : (s'.connects c).event.dropped = true
  quiet : (s.connects c).event.running = false
  reclaimed : (s'.connects c).event.trace.count .reclaim = 1
  closed : (s'.connects c).event.trace.count .close = 1
  file : s'.leakedFiles = s.leakedFiles

/-- The slot is leaked whole, and a reference to the file with it. -/
structure Leaks (s s' : Sys) (c : ConnectId) : Prop where
  overlapped : (s'.connects c).overlapped = .leaked
  event : (s'.connects c).event.dropped = false
  reclaimed : (s'.connects c).event.trace.count .reclaim = 0
  closed : (s'.connects c).event.trace.count .close = 0
  file : s'.leakedFiles = s.leakedFiles + 1

/-- The slot has all it had. -/
structure Holds (s s' : Sys) (c : ConnectId) : Prop where
  tearing : s'.pc.tearing = some c
  overlapped : (s'.connects c).overlapped = .owned
  event : (s'.connects c).event.dropped = false
  file : s'.leakedFiles = s.leakedFiles

/-- What a step of a teardown comes to: it goes on, or it ends with the slot freed,
the wait being released and the status terminal, or with the slot leaked. -/
inductive Tears (s s' : Sys) (c : ConnectId) : Prop
  | goesOn (h : Holds s s' c)
  | frees (hpc : s'.pc = .dropped) (hreleased : (s.connects c).event.registration = .released)
      (hdone : (s.connects c).completed = true) (h : Frees s s' c)
  | leaks (hpc : s'.pc = .dropped)
      (hearly : ¬ ((s.connects c).event.registration = .released ∧ (s.connects c).completed = true))
      (h : Leaks s s' c)

theorem Leaks.of_event (h : (s'.connects c).event.Accounted)
    (hevent : (s'.connects c).event.dropped = false) (hoverlapped : (s'.connects c).overlapped = .leaked)
    (hfile : s'.leakedFiles = s.leakedFiles + 1) : Leaks s s' c where
  overlapped := hoverlapped
  event := hevent
  reclaimed := by rw [h.reclaimed, hevent]; simp
  closed := by rw [h.closed, hevent]; simp
  file := hfile

theorem Move.tears (hm : Move s act s') (hw : Wf s) (ht : Torn s)
    (hevents : ∀ c, (s.connects c).event.Accounted) (hevents' : ∀ c, (s'.connects c).event.Accounted)
    (hc : s.pc.tearing = some c) : Tears s s' c := by
  obtain ⟨haccept, -⟩ := hw.tearing c hc
  obtain ⟨-, -, hheld⟩ := (hw.placed c).slot haccept
  have hgoesOn : s'.pc.tearing = some c → s'.leakedFiles = s.leakedFiles → Tears s s' c := by
    intro htearing hfile
    obtain ⟨haccept', -⟩ := (hw.move hm).tearing c htearing
    obtain ⟨-, howned, hheld'⟩ := ((hw.move hm).placed c).slot haccept'
    exact .goesOn ⟨htearing, howned, hheld', hfile⟩
  have hpcs : ∀ {pc}, s.pc = pc → pc.tearing = none → Tears s s' c := by
    intro pc hpc hnone
    rw [hpc, hnone] at hc
    cases hc
  have hcall : s.callable = true → Tears s s' c := fun hcall => hpcs (Sys.callable_iff.mp hcall).1 rfl
  cases hm with
  | completed | signalled | dispatched | calledBack | woke | clientGone => exact hgoesOn hc rfl
  | readied h | rejoined h | resumed h | unarmed h => exact hcall h
  | disconnected h | declined h | dropped h | tearing h => exact hcall h
  | joined hsubmits | pended hsubmits | refused hsubmits => exact hcall hsubmits.callable
  | settled hpc | parked hpc | found hpc | abandoned hpc => exact hpcs hpc rfl
  | polledConnected hpc | polledFree hpc => exact hpcs hpc rfl
  | collected hpc | uncollected hpc | failed hpc | collectedNothing hpc => exact hpcs hpc rfl
  | reparked hpc | rewoken hpc | reparkedNothing hpc => exact hpcs hpc rfl
  | cancelled hpc | permitted hpc | released hpc | returned hpc =>
    rw [hpc] at hc
    exact hgoesOn hc rfl
  | @uncancelled c' outcome a hpc =>
    obtain rfl : c' = c := by rw [hpc] at hc; exact Option.some.inj hc
    have hlive := ht.armed c' haccept (congrArg Pc.waitReleased hpc)
    refine .leaks rfl (fun h => ?_) (.of_event (hevents' c') ?_ ?_ rfl)
    · cases hlive.symm.trans h.1
    · simpa [Sys.leakSlot, Sys.observe] using hheld
    · simp [Sys.leakSlot]
  | @unreleased c' release event a hpc hr hrelease =>
    obtain rfl : c' = c := by rw [hpc] at hc; exact Option.some.inj hc
    have hlive := ht.armed c' haccept (congrArg Pc.waitReleased hpc)
    refine .leaks rfl (fun h => ?_) (.of_event (hevents' c') ?_ ?_ rfl)
    · cases hlive.symm.trans h.1
    · simpa [Sys.leakSlot, Sys.setEvent, ArmedEvent.dropped_releaseRegistration hrelease] using hheld
    · simp [Sys.leakSlot]
  | @freed c' event a hpc hdone hdrop =>
    obtain rfl : c' = c := by rw [hpc] at hc; exact Option.some.inj hc
    have hreleased := ht.released c' (congrArg Pc.waitReleased hpc)
    have hevent : event.registration = .released ∧ event.dropped = true := by
      obtain ⟨e₁, r, hrelease, hcases⟩ := ArmedEvent.drop_cases hdrop
      obtain ⟨hr, -⟩ := ArmedEvent.releaseRegistration_registration hrelease
      rcases ArmedEvent.releaseRegistration_cases hrelease with
        ⟨-, hsame, -⟩ | ⟨hlive, -⟩ | ⟨hlive, -⟩
      · rcases hcases with ⟨hfailed, -⟩ | ⟨hr', rfl⟩
        · cases hreleased.symm.trans (hsame.symm.trans hfailed)
        · exact ⟨hr.trans hr', rfl⟩
      · cases hreleased.symm.trans hlive
      · cases hreleased.symm.trans hlive
    have hconnect : ({ (s.observe c').closeSlot c' event with
        accept := .idle, pc := .dropped } : Sys).connects c' = { s.connects c' with
          observed := (s.connects c').observed || (s.connects c').completed
          overlapped := .freed
          event } := by
      simp [Sys.closeSlot, Sys.observe]
    have haccounted := hevents' c'
    rw [hconnect] at haccounted
    refine .frees rfl hreleased hdone
      ⟨by rw [hconnect], by rw [hconnect]; exact hevent.2, (hevents c').quiet hreleased, ?_, ?_, rfl⟩
    · rw [hconnect, haccounted.reclaimed]
      simp [hevent]
    · rw [hconnect, haccounted.closed]
      simp [hevent]
  | @unfinished c' a hpc hpending =>
    obtain rfl : c' = c := by rw [hpc] at hc; exact Option.some.inj hc
    refine .leaks rfl (fun h => ?_) (.of_event (hevents' c') ?_ ?_ rfl)
    · cases hpending.symm.trans h.2
    · simpa [Sys.leakSlot, Sys.observe] using hheld
    · simp [Sys.leakSlot]

/-- Once the server is gone, the slots stay as it left them. -/
theorem Move.ended (hm : Move s act s') (hpc : s.pc = .dropped) (c : ConnectId) :
    s'.pc = .dropped ∧ s'.leakedFiles = s.leakedFiles ∧
      (s'.connects c).overlapped = (s.connects c).overlapped ∧
      (s'.connects c).event.dropped = (s.connects c).event.dropped := by
  have hupdate : ∀ {c' : ConnectId} {k : Connect}, k.overlapped = (s.connects c').overlapped →
      k.event.dropped = (s.connects c').event.dropped →
      (Function.update s.connects c' k c).overlapped = (s.connects c).overlapped ∧
        (Function.update s.connects c' k c).event.dropped = (s.connects c).event.dropped := by
    intro c' k hoverlapped hdropped
    rw [Function.update_apply]
    split
    · rename_i hc
      rw [hc]
      exact ⟨hoverlapped, hdropped⟩
    · exact ⟨rfl, rfl⟩
  have hpcs : ∀ {pc}, s.pc = pc → pc ≠ .dropped → False := fun h hne => hne (h.symm.trans hpc)
  have hcall : s.callable = true → False := fun h => hpcs (Sys.callable_iff.mp h).1 nofun
  cases hm with
  | completed | signalled => exact ⟨hpc, rfl, hupdate rfl rfl⟩
  | dispatched h =>
    exact ⟨hpc, rfl, hupdate rfl (ArmedEvent.frame_step (a := .dispatch) h rfl).2.1⟩
  | calledBack h =>
    exact ⟨hpc, rfl, hupdate rfl (ArmedEvent.frame_step (a := .callback) h rfl).2.1⟩
  | @woke c w event h =>
    exact ⟨hpc, rfl, hupdate rfl (ArmedEvent.frame_step (a := .wake w) h rfl).2.1⟩
  | clientGone => exact ⟨hpc, rfl, rfl, rfl⟩
  | readied h | rejoined h | resumed h | unarmed h => exact (hcall h).elim
  | disconnected h | declined h | dropped h | tearing h => exact (hcall h).elim
  | joined h | pended h | refused h => exact (hcall h.callable).elim
  | settled h | parked h | found h | abandoned h => exact (hpcs h nofun).elim
  | polledConnected h | polledFree h => exact (hpcs h nofun).elim
  | collected h | uncollected h | failed h | collectedNothing h => exact (hpcs h nofun).elim
  | reparked h | rewoken h | reparkedNothing h => exact (hpcs h nofun).elim
  | cancelled h | permitted h | uncancelled h | released h => exact (hpcs h nofun).elim
  | unreleased h | returned h | freed h | unfinished h => exact (hpcs h nofun).elim

/-- What holds of `Drop for Server` at every state, and of every step from there. -/
structure TeardownSafe (s : Sys) : Prop where
  /-- A server dropped with a connect in its slot tears it down. -/
  begins : ∀ s' c, s.accept = .accepting c → s.step .dropServer = some s' → s'.pc.tearing = some c
  /-- However the platform comes between, each step of that frees the slot safely,
  leaks it whole, or leaves it alone. -/
  tears : ∀ act s' c, s.pc.tearing = some c → s.step act = some s' → Tears s s' c
  /-- The collect that blocks is entered with the wait released, and the operation
  located or completed. -/
  blocks : ∀ c, s.pc = .blocking c → (s.connects c).event.registration = .released ∧
    (.cancelled c .located ∈ s.log ∨ (s.connects c).completed = true)
  /-- What was leaked stays leaked, and what was freed is not touched again. -/
  ended : ∀ act s' c, s.pc = .dropped → s.step act = some s' →
    s'.pc = .dropped ∧ s'.leakedFiles = s.leakedFiles ∧
      (s'.connects c).overlapped = (s.connects c).overlapped ∧
      (s'.connects c).event.dropped = (s.connects c).event.dropped
  /-- Every event's teardown is accounted for. -/
  events : ∀ c, (s.connects c).event.Accounted

/-- A server is dropped while it accepts, and the connect finishes in the collect
that blocks. -/
def droppedServer : List Action :=
  [.accept .willing, .dropFuture, .dropServer, .advance .willing, .advance .willing, .advance .willing,
    .complete 0 (.error (toHResult 995)), .advance .willing]

end WinIoring.Pipe
