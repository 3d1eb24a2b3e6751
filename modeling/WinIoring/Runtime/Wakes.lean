import WinIoring.Runtime.Deeds

/-!
# Waking what was taken

Resolving an operation takes the waker its future left, and the end of teardown
takes those of the waiters. None is woken under the borrow: the driver carries
them until it has let go of it. Here every waker it has taken is accounted for.
-/

namespace WinIoring.Runtime

open Slab

variable {ws : WordSize} {s s' : Sys ws} {w w' : World ws}

-- ---------------------------------------------------------------------------
-- What is taken
-- ---------------------------------------------------------------------------

/-- The waker an event takes from a result slot. -/
def Event.takenWaker : Event ws → Option Waker
  | .filled _ _ waker _ => waker
  | _ => none

/-- The wakers taken from result slots, in the order they were taken. -/
def World.takenWakers (w : World ws) : List Waker := w.trace.reverse.filterMap Event.takenWaker

namespace World

theorem takenWakers_of_trace (h : w'.trace = w.trace) : w'.takenWakers = w.takenWakers := by
  rw [takenWakers, h, takenWakers]

theorem takenWakers_cons {e : Event ws} (h : w'.trace = e :: w.trace) :
    w'.takenWakers = w.takenWakers ++ e.takenWaker.toList := by
  rw [takenWakers, h, List.reverse_cons, List.filterMap_append, takenWakers]
  cases he : e.takenWaker <;> simp [he]

/-- Code that resolves nothing takes nothing. -/
theorem takenWakers_grows {P : Event ws → Prop} (h : w.Grows P w') (hP : ∀ e, P e → e.takenWaker = none) :
    w'.takenWakers = w.takenWakers := by
  obtain ⟨es, hlog, hes⟩ := h
  have hnone : (es.filter Event.traced).reverse.filterMap Event.takenWaker = [] :=
    List.filterMap_eq_nil_iff.mpr fun e he => hP e (hes e (List.mem_of_mem_filter (List.mem_reverse.mp he)))
  rw [takenWakers, trace, hlog, List.filter_append, List.reverse_append, List.filterMap_append, hnone,
    List.append_nil]
  rfl

theorem takenWakers_resolveCompletion (w : World ws) (p : OpPayload) (cqe : Cqe ws) :
    (w.resolveCompletion p cqe).1.takenWakers = w.takenWakers ++ (w.resolveCompletion p cqe).2.toList := by
  have hwaker : (w.resolveCompletion p cqe).2 = (w.results p.slot).waker := by
    simp only [resolveCompletion, fill, results_raiseTransfer, results_settleRegistration]
  rw [takenWakers_cons (w.trace_resolveCompletion p cqe), hwaker]
  rfl

theorem takenWakers_resolveAllAbandoned (w : World ws) (ps : List OpPayload) :
    (w.resolveAllAbandoned ps).1.takenWakers = w.takenWakers ++ (w.resolveAllAbandoned ps).2 := by
  suffices ∀ (ps : List OpPayload) (acc : World ws × List Waker), acc.1.takenWakers = w.takenWakers ++ acc.2 →
      let done := ps.foldl (fun acc payload =>
        ((acc.1.resolveAbandoned payload).1, acc.2 ++ (acc.1.resolveAbandoned payload).2.toList)) acc
      done.1.takenWakers = w.takenWakers ++ done.2 from this ps (w, []) (List.append_nil _).symm
  intro ps
  induction ps with
  | nil => exact fun _ h => h
  | cons p ps ih =>
    intro acc h
    refine ih _ ?_
    dsimp only
    rw [takenWakers_cons (acc.1.trace_resolveAbandoned p), h, List.append_assoc]
    rfl

theorem takenWakers_release (w : World ws) : w.release.1.takenWakers ++ w.inner.shutdownWaiters.map (·.2) =
    w.takenWakers ++ w.release.2 := by
  rw [takenWakers_of_trace w.trace_release, takenWakers_resolveAllAbandoned, List.append_assoc]
  simp only [release, inner_resolveAllAbandoned]
  rfl

end World

-- ---------------------------------------------------------------------------
-- What is owed
-- ---------------------------------------------------------------------------

/-- What the driver's code has woken, and the wakers of the waiters teardown took. -/
structure Calls where
  woken : List Waker
  waiters : List Waker

def Sys.noteCalls (s : Sys ws) (a : Action ws) (s' : Sys ws) (calls : Calls) : Calls where
  woken := calls.woken ++ s.wakes a
  waiters := calls.waiters ++
    if s'.world.inner.tornDown && !s.world.inner.tornDown then s.world.inner.shutdownWaiters.map (·.2) else []

/-- The system with a record of what has been woken. -/
def callMachine (ws : WordSize) : Machine (Sys ws × Calls) (Action ws) :=
  (systemMachine ws).watch { woken := [], waiters := [] } Sys.noteCalls

/-- Everything the driver has had to wake. -/
def Sys.due (s : Sys ws) (calls : Calls) : List Waker := s.world.takenWakers ++ calls.waiters

theorem Sys.wakes_prefix (s : Sys ws) (a : Action ws) : s.wakes a <+: s.pc.pending := by
  unfold Sys.wakes
  split
  · split
    · rename_i hpc
      rw [hpc]
      exact ⟨_, rfl⟩
    · exact List.nil_prefix
  · exact List.nil_prefix

/-- What has been woken and what is carried make up what was due. -/
structure Settles (s : Sys ws) (calls : Calls) : Prop where
  waiters : s.world.inner.tornDown = false → calls.waiters = []
  torn : s.world.inner.tornDown = true → ∃ wakers done, Woken wakers s.pc done
  due : s.pc ≠ .halted → s.due calls = calls.woken ++ s.pc.pending
  halted : calls.woken <+: s.due calls

theorem idleWakers_none (e : Event ws) (he : e.idle = true) : e.takenWaker = none := by
  cases e <;> first | rfl | cases he

theorem droppedWakers_none {u : Bool} (e : Event ws) (he : e.dropsBuffer u) : e.takenWaker = none := by
  obtain ⟨b, rfl⟩ := he
  rfl

namespace Settles

variable {calls : Calls}

/-- A step that takes nothing. -/
theorem carry (h : Settles s calls) (hnot : s.pc ≠ .halted)
    (htaken : s'.world.takenWakers = s.world.takenWakers)
    (htorn : s'.world.inner.tornDown = s.world.inner.tornDown) (hwoken : s.world.inner.tornDown = true →
      ∃ wakers done, Woken wakers s'.pc done) (hcarries : Carries s a s') :
    Settles s' (s.noteCalls a s' calls) := by
  have hwaiters : (s.noteCalls a s' calls).waiters = calls.waiters := by
    simp only [Sys.noteCalls, htorn]
    cases s.world.inner.tornDown <;> simp
  have hdue : s'.due (s.noteCalls a s' calls) = s.due calls := by rw [Sys.due, htaken, hwaiters, Sys.due]
  have hall := h.due hnot
  refine ⟨fun hopen => ?_, fun hclosed => hwoken (htorn ▸ hclosed), fun hnot' => ?_, ?_⟩
  · rw [hwaiters]
    exact h.waiters (htorn ▸ hopen)
  · cases hcarries with
    | on _ hpending =>
      rw [hdue, hall, hpending]
      exact (List.append_assoc ..).symm
    | stopped _ hpc => exact absurd hpc hnot'
  · rw [hdue]
    rw [hall]
    exact List.prefix_append_right_inj _ |>.mpr (s.wakes_prefix a)

/-- A step that takes wakers, and carries them with those it carries already. -/
theorem take (h : Settles s calls) (taken : List Waker) (hnot : s.pc ≠ .halted) (hopen : s.world.inner.tornDown = false)
    (hwakes : s.wakes a = []) (hdue : s'.due (s.noteCalls a s' calls) = s.due calls ++ taken)
    (hpending : s'.pc.pending = s.pc.pending ++ taken)
    (hwoken : s'.world.inner.tornDown = true → ∃ wakers done, Woken wakers s'.pc done) :
    Settles s' (s.noteCalls a s' calls) := by
  have hcalls : (s.noteCalls a s' calls).woken = calls.woken := by
    simp only [Sys.noteCalls, hwakes, List.append_nil]
  have hall : s'.due (s.noteCalls a s' calls) = (s.noteCalls a s' calls).woken ++ s'.pc.pending := by
    rw [hdue, h.due hnot, hpending, hcalls, List.append_assoc]
  refine ⟨fun hopen' => ?_, hwoken, fun _ => hall, ?_⟩
  · simp only [Sys.noteCalls, hopen', h.waiters hopen, Bool.false_and, List.nil_append]
    rfl
  · rw [hall]
    exact List.prefix_append ..

theorem tornDown_of_waiting (h : w'.waiting = w.waiting) : w'.inner.tornDown = w.inner.tornDown :=
  congrArg (fun waiting => waiting.2.2) h

theorem step (hb : Books s) (h : Settles s calls) (hs : s.step a = some s') :
    Settles s' (s.noteCalls a s' calls) := by
  have hnot : s.pc ≠ .halted := by
    intro hpc
    simp [Sys.step, hpc] at hs
  have hwoken : s.world.inner.tornDown = true → ∃ wakers done, Woken wakers s'.pc done := by
    intro htorn
    obtain ⟨wakers, done, hwoken⟩ := h.torn htorn
    exact ⟨wakers, _, hwoken.step hb htorn hs⟩
  have hnone : ∀ {P : Event ws → Prop}, s.world.Grows P s'.world → (∀ e, P e → e.takenWaker = none) →
      s'.world.takenWakers = s.world.takenWakers := World.takenWakers_grows
  cases step_deed hb.noneDescribed hs with
  | idled hworld _ hcarries =>
    exact h.carry hnot (hnone hworld.log idleWakers_none) (tornDown_of_waiting hworld.inner.waiting) hwoken hcarries
  | accepted hacc hlog _ hwaiting =>
    refine h.carry hnot (hnone hlog ?_) (tornDown_of_waiting hwaiting) hwoken (.stay hacc.pc rfl)
    rintro e (he | ⟨t, p, files, rfl⟩)
    · exact idleWakers_none e he
    · rfl
  | @polled σ _ waker =>
    refine h.carry hnot (hnone (s.world.grows_pollPending σ waker s.held) ?_) rfl hwoken (.stay rfl rfl)
    rintro e (⟨waker, -, rfl⟩ | rfl)
    · rfl
    · rfl
  | delivered =>
    refine h.carry hnot ?_ ?_ hwoken (.stay (Sys.receive_pc ..) rfl)
    · rw [Sys.receive_world]
      exact World.takenWakers_grows (P := fun e => e.takenWaker = none)
        ⟨[_], World.log_deliver .., List.forall_mem_singleton.mpr rfl⟩ fun _ he => he
    · rw [Sys.receive_world, World.inner_deliver]
  | @forgotten σ _ _ _ w detached _ hidles hworld _ _ _ hpc =>
    have hforgets : s'.world.takenWakers = w.takenWakers := by
      rw [hworld]
      refine (World.takenWakers_grows (World.grows_dropFutureRef ..) droppedWakers_none).trans ?_
      exact World.takenWakers_grows (P := fun e => e.takenWaker = none)
        (.emit w (e := .futureDropped σ detached) rfl) fun _ he => he
    have hinner : s'.world.inner = w.inner := by
      rw [hworld, World.inner_dropFutureRef]
      rfl
    refine h.carry hnot (hforgets.trans (World.takenWakers_grows hidles.log idleWakers_none)) ?_ hwoken
      (.stay hpc rfl)
    rw [hinner]
    exact tornDown_of_waiting hidles.inner.waiting
  | checkedOut _ hclaim => exact h.carry hnot rfl rfl hwoken (.stay rfl rfl)
  | @filled i hd len hhandle =>
    refine h.carry hnot (World.takenWakers_grows (P := fun e => e.takenWaker = none) ?_ fun _ he => he) rfl hwoken
      (.stay rfl rfl)
    exact ⟨[.copied hd.registry hd.index len], rfl, List.forall_mem_singleton.mpr rfl⟩
  | handleDropped =>
    refine h.carry hnot (hnone (World.grows_dropHandle ..) droppedWakers_none) ?_ hwoken (.stay rfl rfl)
    rw [World.inner_dropHandle]
  | collectionCloned => exact h.carry hnot rfl rfl hwoken (.stay rfl rfl)
  | collectionDropped =>
    refine h.carry hnot (hnone (World.grows_dropRegistryRef ..) droppedWakers_none) ?_ hwoken (.stay rfl rfl)
    rw [World.inner_dropRegistryRef]
  | waited _ hworld _ hcarries =>
    refine h.carry hnot (hnone hworld.log ?_) ?_ hwoken hcarries
    · rintro e ⟨_, _, -, rfl⟩
      rfl
    · obtain ⟨_, _, hinner⟩ := hworld.inner
      rw [hinner]
  | @resolved task loop wakers cqe rest op answers w hpc hring hkind hcell hw =>
    have hopen : s.world.inner.tornDown = false := hb.tornDown.trans (hb.open_of_completions hring)
    have htorn : (w.resolveCompletion op.payload cqe).1.inner.tornDown = false := by
      rw [World.tornDown_resolveCompletion, hw]
      exact hopen
    have htaken : s.world.takenWakers = w.takenWakers := by
      rw [hw]
      rfl
    refine h.take (w.resolveCompletion op.payload cqe).2.toList hnot hopen (by rw [Sys.wakes, hpc]) ?_ ?_ ?_
    · simp only [Sys.due, Sys.noteCalls, Sys.driverStep, htorn, hopen, World.takenWakers_resolveCompletion, htaken,
        h.waiters hopen, Bool.false_and, Bool.false_eq_true, if_false, List.append_nil]
    · rw [hpc]
      rfl
    · intro hclosed
      cases htorn.symm.trans hclosed
  | @released task next answers w hpc hsealed hw =>
    have hopen : s.world.inner.tornDown = false := by
      by_contra htorn
      obtain ⟨wakers, done, hdone⟩ := h.torn (Bool.eq_true_of_not_eq_false htorn)
      rw [hpc] at hdone hsealed
      cases hdone <;> cases hsealed
    have htaken : w.release.1.takenWakers ++ s.world.inner.shutdownWaiters.map (·.2) =
        s.world.takenWakers ++ w.release.2 := by
      have hrelease := w.takenWakers_release
      rw [hw] at hrelease ⊢
      exact hrelease
    have htorn : w.release.1.inner.tornDown = true := congrArg DriverInner.tornDown w.release_inner
    refine h.take w.release.2 hnot hopen (by rw [Sys.wakes, hpc]) ?_ ?_ ?_
    · simp only [Sys.due, Sys.noteCalls, Sys.driverStep, World.setInner_inner, DriverInner.takeReports, htorn, hopen,
        h.waiters hopen, Bool.not_false, Bool.and_self, if_true, List.nil_append, List.append_nil]
      exact htaken
    · rw [hpc]
      rfl
    · exact fun _ => ⟨w.release.2, [], .released rfl⟩

theorem of_reachable {p : Sys ws × Calls} (hr : (callMachine ws).Reachable p) : Settles p.1 p.2 := by
  refine hr.invariant_watch (fun s hs => ?_) fun s calls a s' hr h _ hs => h.step (books_of_reachable hr) hs
  have htaken : s.world.takenWakers = [] := by simp [World.takenWakers, World.trace, hs.log]
  refine ⟨fun _ => rfl, fun htorn => ?_, fun _ => ?_, List.nil_prefix⟩
  · rw [hs.inner] at htorn
    cases htorn
  · rw [Sys.due, htaken, hs.pc]
    rfl

end Settles

/-- In every run the wakers the driver has woken, and those it carries to wake
once it lets go of its borrow, are those it has taken from result slots, and at
the end of teardown from the waiters: the same ones, in the order it took them.
Unless the code was stopped for good none is lost, and wherever it carries none
each has been woken exactly once. -/
theorem wakes_what_it_takes (hr : (callMachine ws).Reachable (s, calls)) :
    (s.pc ≠ .halted → s.due calls = calls.woken ++ s.pc.pending) ∧ calls.woken <+: s.due calls ∧
    (s.world.inner.tornDown = false → s.due calls = s.world.takenWakers) ∧
    ∀ a s', s.step a = some s' → ∀ w ∈ s.wakes a, s'.world.log = .wake w false :: s.world.log := by
  have h := Settles.of_reachable hr
  refine ⟨h.due, h.halted, fun hopen => ?_, fun a s' hs w hw => log_of_wakes hs hw⟩
  rw [Sys.due, h.waiters hopen, List.append_nil]

/-- A read resolved ahead of a drain that somebody waits for, to its end. -/
def drainAwaited : List (Action .w64) :=
  let e : Sqe .w64 := ⟨.read (.raw 3) (.raw 4096) 512 0, 2 ^ 17⟩
  [.start (.read 3 (.owned ⟨4096, 512, 0⟩) 512 0) .willing, .poll 0 9, .pollShutdown none 5,
    .escalate .graceful, .pollDrive 7 .willing, .execute e ⟨0, 512⟩, .report e ⟨0, 512⟩,
    .advance .willing, .advance .willing, .advance .willing, .advance .willing, .advance .willing,
    .advance .willing, .advance .willing, .advance .willing, .advance .willing]

/-- Its future's waker and the waiter's. -/
theorem wakes_what_it_takes_drained : ∃ (s : Sys .w64) (calls : Calls), s.pc = .idle ∧
    s.world.inner.tornDown = true ∧ s.due calls = [9, 5] ∧ calls.woken = [9, 5] := by
  obtain ⟨s, calls, hrun, hpc, htorn, htaken, hwaiters⟩ : ∃ s calls,
      (callMachine .w64).run (.new, { woken := [], waiters := [] }) drainAwaited = some (s, calls) ∧
      s.pc = .idle ∧ s.world.inner.tornDown = true ∧ s.world.takenWakers = [9] ∧ calls.waiters = [5] :=
    ⟨_, _, rfl, rfl, rfl, rfl, rfl⟩
  have hdue : s.due calls = [9, 5] := by rw [Sys.due, htaken, hwaiters, List.singleton_append]
  have hreach : (callMachine .w64).Reachable (s, calls) :=
    Machine.Reachable.run (s := (Sys.new, { woken := [], waiters := [] })) (.init ⟨Sys.new_initial, rfl⟩) hrun
  obtain ⟨hall, -⟩ := wakes_what_it_takes hreach
  refine ⟨s, calls, hpc, htorn, hdue, ?_⟩
  have hwoken := hall (by rw [hpc]; rintro ⟨⟩)
  rw [hdue, hpc] at hwoken
  exact (hwoken.trans (List.append_nil _)).symm

end WinIoring.Runtime
