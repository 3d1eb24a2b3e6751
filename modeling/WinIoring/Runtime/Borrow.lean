import WinIoring.Runtime.Deeds

/-!
# Under the borrow

Caller code can call back into the driver, which panics if the driver's borrow is
held. The driver wakes and reports with its borrow released; what it may still do
under it is drop what it lets go of.
-/

namespace WinIoring.Runtime

open Slab

variable {ws : WordSize} {s s' : Sys ws} {w w' : World ws}

-- ---------------------------------------------------------------------------
-- What is dropped
-- ---------------------------------------------------------------------------

/-- A drop under the borrow. -/
inductive Event.DropsUnder : Event ws → Prop
  | buffer : DropsUnder (.dropBuffer b true)
  | waker {w : Waker} : DropsUnder (.dropWaker w true)

/-- The caller code a step may run under the borrow. -/
inductive RunsUnder (s : Sys ws) : Action ws → Event ws → Prop
  /-- The caller's own drops, from code that runs under the borrow already. -/
  | nested (hheld : s.borrow ≠ .free) (hback : s.reentered = true) (h : e.DropsUnder) : RunsUnder s a e
  /-- The waker an entry on the list of waiters held. -/
  | evicted {id : Nat} {waker : Waker}
    (ha : (∃ waiter waker, a = .pollShutdown waiter waker) ∨ ∃ id, a = .dropShutdown id)
      (hentry : (id, waker) ∈ s.world.inner.shutdownWaiters) : RunsUnder s a (.dropWaker waker true)
  /-- What a completion brings back for a future that is gone. -/
  | unawaited (hpc : s.pc = .reaping task loop wakers)
      (hring : s.world.inner.ring.completions = cqe :: rest) (hkind : cqe.token.kind = .operation)
      (hcell : s.world.inner.slab.cell cqe.token.key = some (.live op))
      (hgone : s.futures op.payload.slot = none) : RunsUnder s (.advance answers) (.dropBuffer b true)
  /-- What the end of teardown lets go of. -/
  | closed (hsealed : s.pc.sealed = true) (hkept : s.world.inner.driverWaker = none) :
    RunsUnder s (.advance answers) (.dropBuffer b true)

theorem RunsUnder.dropsUnder (h : RunsUnder s a e) : e.DropsUnder := by
  cases h with
  | nested _ _ h => exact h
  | evicted => exact .waker
  | unawaited => exact .buffer
  | closed => exact .buffer

namespace World

theorem grows_dropRegistrations (w : World ws) (rs : List RegId) :
    w.Grows (Event.dropsBuffer true) (w.dropRegistrations rs) := by
  induction rs generalizing w with
  | nil => exact .refl _ w
  | cons r rs ih => exact (w.grows_dropRegistryRef r true).trans (ih _)

/-- What the end of teardown logs. -/
def Releases (w : World ws) (e : Event ws) : Prop :=
  (∃ σ completed waker, e = .filled σ completed waker .abandoned) ∨ e.dropsBuffer true ∨
    ∃ waker, w.inner.driverWaker = some waker ∧ e = .dropWaker waker true

theorem grows_release (w : World ws) : w.Grows w.Releases w.release.1 := by
  let drained := w.setInner { w.inner with slab := w.inner.slab.drain.1 }
  have hresolved : w.Grows w.Releases (drained.resolveAllAbandoned w.inner.slab.drain.2).1 := by
    refine resolveAllAbandoned_induction (P := w.Grows w.Releases) _ drained (.of_log rfl) fun w' p _ h => ?_
    refine h.trans ((w'.grows_fill p _ .abandoned).mono fun e he => ?_)
    rcases he with rfl | ⟨he, -⟩
    · exact .inl ⟨_, _, _, rfl⟩
    · exact .inr (.inl he)
  let dropped := (drained.resolveAllAbandoned w.inner.slab.drain.2).1.dropRegistrations
    ((drained.resolveAllAbandoned w.inner.slab.drain.2).1.inner.bufferRegistration.toList ++
      (drained.resolveAllAbandoned w.inner.slab.drain.2).1.inner.retiredBufferRegistrations)
  have hdropped : w.Grows w.Releases dropped :=
    hresolved.trans ((grows_dropRegistrations _ _).mono fun e he => .inr (.inl he))
  have hslot : dropped.inner.driverWaker = w.inner.driverWaker := by
    rw [inner_dropRegistrations, inner_resolveAllAbandoned]
    rfl
  have hemitted : dropped.Grows w.Releases
      (dropped.emitAll (dropped.inner.driverWaker.toList.map (.dropWaker · true))) := by
    refine .emitAll _ (List.forall_mem_map.mpr fun waker hwaker => .inr (.inr ⟨waker, ?_, rfl⟩))
    exact hslot ▸ Option.mem_toList.mp hwaker
  exact .congr (hdropped.trans hemitted) rfl

end World

-- ---------------------------------------------------------------------------
-- The parked driver's waker
-- ---------------------------------------------------------------------------

/-- The driver's own waker is stored only while it parks. -/
def Unparked (s : Sys ws) : Prop :=
  s.world.inner.driverWaker ≠ none → s.pc.parking = true ∨ s.pc = .halted

namespace Unparked

theorem rests (h : Unparked s) (hr : Rests s s') : Unparked s' := by
  intro hne
  have hsame : s'.world.inner.driverWaker = s.world.inner.driverWaker := by
    rcases hr.slot with ⟨hsame, -⟩ | ⟨hnone, -⟩
    · exact hsame
    · exact absurd hnone hne
  rcases hr.pc with hpc | hpc
  · rw [hpc]
    exact h (hsame ▸ hne)
  · exact .inr hpc

theorem of_none (h : s.world.inner.driverWaker = none) : Unparked s := fun hne => absurd h hne

/-- The driver's code keeps the slot as it is, away from the park. -/
theorem keep (h : Unparked s) (hpc : s.pc.parking = false) (hlive : s.pc ≠ .halted)
    (hwaker : s'.world.inner.driverWaker = s.world.inner.driverWaker) : Unparked s' := by
  refine of_none (hwaker.trans (Decidable.byContradiction fun hne => ?_))
  rcases h hne with hparking | hhalted
  · cases hpc.symm.trans hparking
  · exact hlive hhalted

theorem slot_eq (h : w'.wakers = w.wakers) : w'.inner.driverWaker = w.inner.driverWaker := congrArg Prod.snd h

theorem parkPoll (s : Sys ws) (waker : Waker) : Unparked (s.parkPoll waker) := by
  unfold Sys.parkPoll
  dsimp only
  split
  · exact of_none rfl
  · exact fun _ => .inl rfl

theorem beginDrain (hnone : NoneDescribed s.world.inner.slab) (h : Unparked s) (hpc : s.pc.parking = false)
    (hlive : s.pc ≠ .halted) (task : Task) (steps : Nat) (a : Answers ws) : Unparked (s.beginDrain task steps a) := by
  unfold Sys.beginDrain
  split
  · exact h.keep hpc hlive rfl
  · exact h.keep hpc hlive (slot_eq (World.wakers_drainBegin hnone a))

theorem closing (h : Unparked s) (hpc : s.pc.parking = false) (hlive : s.pc ≠ .halted) (task : Task)
    (a : Answers ws) : Unparked (s.closing task a) := by
  unfold Sys.closing World.closeAndRelease
  cases World.closeLoop s.world.inner.ring a.closeFails closeAttempts with
  | none => exact h.keep hpc hlive rfl
  | some ring =>
    have hinner := World.release_inner (s.world.setInner { s.world.inner with ring })
    exact of_none (congrArg DriverInner.driverWaker hinner)

theorem drives (hnone : NoneDescribed s.world.inner.slab) (h : Unparked s) (hd : Drives s s' a) : Unparked s' := by
  cases hd with
  | @advance a hs =>
    have hkeep : _ → _ → _ → Unparked s' := h.keep
    unfold Sys.advance at hs
    split at hs
    · rename_i task loop wakers hpc
      replace hkeep := hkeep (by rw [hpc]; rfl) (by rw [hpc]; rintro ⟨⟩)
      have hreap := slot_eq (s.world.wakers_reapOne a.pop)
      split at hs
      · rename_i hresult
        obtain rfl := Option.some.inj hs
        exact hkeep ((congrArg (·.1.inner.driverWaker) hresult).symm.trans hreap)
      · rename_i world hresult
        obtain rfl := Option.some.inj hs
        refine hkeep (Eq.trans ?_ ((congrArg (·.1.inner.driverWaker) hresult).symm.trans hreap))
        cases loop with
        | pass => rfl
        | drain steps => exact congrArg Prod.snd (world.inner.wakers_reportSlowDrain _)
    · rename_i hpc
      obtain rfl := Option.some.inj hs
      exact hkeep (by rw [hpc]; rfl) (by rw [hpc]; rintro ⟨⟩) rfl
    · rename_i hpc
      obtain rfl := Option.some.inj hs
      refine hkeep (by rw [hpc]; rfl) (by rw [hpc]; rintro ⟨⟩) ?_
      simp only [Sys.freeStep]
      split
      · rfl
      · rfl
    · rename_i task next hpc
      obtain rfl := Option.some.inj hs
      have hparking : s.pc.parking = false := by rw [hpc]; rfl
      have hlive : s.pc ≠ .halted := by rw [hpc]; rintro ⟨⟩
      cases next with
      | decide shuttingDown retryOwed =>
        cases task with
        | drop => exact beginDrain hnone h hparking hlive .drop 0 a
        | drive w =>
          simp only [Sys.resume]
          split
          · exact beginDrain hnone h hparking hlive (.drive w) 0 a
          split
          · exact h.keep hparking hlive rfl
          · exact parkPoll s w
      | drained steps outcome =>
        cases outcome with
        | progressing =>
          cases task with
          | drop => exact beginDrain hnone h hparking hlive .drop steps a
          | drive w => exact h.keep hparking hlive rfl
        | quiescent => exact h.closing hparking hlive task a
        | unsubmittableResidue => exact h.closing hparking hlive task a
      | finished => cases task <;> exact h.keep hparking hlive rfl
    · rename_i w hpc
      obtain rfl := Option.some.inj hs
      unfold Sys.pollSignalled
      dsimp only
      split
      · exact of_none rfl
      · exact fun _ => .inl rfl
    · obtain rfl := Option.some.inj hs
      exact of_none (congrArg Prod.snd (s.dropPark.world.inner.wakers_submitPending a))
    · rename_i hpc
      obtain rfl := Option.some.inj hs
      exact hkeep (by rw [hpc]; rfl) (by rw [hpc]; rintro ⟨⟩) rfl
    · cases hs
  | @pollDrive w a hs =>
    unfold Sys.pollDrive at hs
    split at hs
    · rename_i hpc
      obtain rfl := Option.some.inj hs
      exact h.keep (by rw [hpc]; rfl) (by rw [hpc]; rintro ⟨⟩)
        (congrArg Prod.snd (s.world.inner.wakers_submitPending a))
    · rename_i hpc
      obtain rfl := Option.some.inj hs
      exact h.keep (by rw [hpc]; rfl) (by rw [hpc]; rintro ⟨⟩)
        (congrArg Prod.snd (s.world.inner.wakers_submitPending a))
    · rename_i steps hpc
      obtain rfl := Option.some.inj hs
      exact beginDrain hnone h (by rw [hpc]; rfl) (by rw [hpc]; rintro ⟨⟩) (.drive w) steps a
    · obtain rfl := Option.some.inj hs
      exact parkPoll s w
    · cases hs
  | dropDrive hs =>
    unfold Sys.dropDrive at hs
    split at hs
    · rename_i hpc
      obtain rfl := Option.some.inj hs
      exact h.keep (by rw [hpc]; rfl) (by rw [hpc]; rintro ⟨⟩) rfl
    · rename_i hpc
      obtain rfl := Option.some.inj hs
      exact h.keep (by rw [hpc]; rfl) (by rw [hpc]; rintro ⟨⟩) rfl
    · obtain rfl := Option.some.inj hs
      exact of_none rfl
    · cases hs
  | @dropDriver a hs =>
    unfold Sys.dropDriver at hs
    split at hs
    · rename_i hpc
      have hparking : s.pc.parking = false := by rw [hpc]; rfl
      have hlive : s.pc ≠ .halted := by rw [hpc]; rintro ⟨⟩
      split at hs
      · obtain rfl := Option.some.inj hs
        exact h.keep hparking hlive rfl
      · obtain rfl := Option.some.inj hs
        let raised : Sys ws := { s with world := s.world.setInner { s.world.inner with
          shutdown := s.world.inner.shutdown.max .immediate } }
        exact beginDrain (s := raised) hnone h hparking hlive .drop 0 a
    · cases hs

theorem of_reachable (hr : (systemMachine ws).Reachable s) : Unparked s := by
  refine hr.invariant (fun s hs => of_none (by rw [hs.inner]; rfl)) fun s a s' hr h _ hs => ?_
  rcases step_rests hs with hdrives | hrests
  · exact h.drives (books_of_reachable hr).noneDescribed hdrives
  · exact h.rests hrests

end Unparked

-- ---------------------------------------------------------------------------
-- What runs under the borrow
-- ---------------------------------------------------------------------------

theorem callerRuns_of_step {a : Action ws} (ha : (∃ σ waker, a = .poll σ waker) ∨ (∃ σ refusal, a = .dropFuture σ refusal) ∨
    (∃ i, a = .dropHandle i) ∨ ∃ i, a = .dropCollection i) (hs : s.step a = some s') : s.callerRuns = true := by
  unfold Sys.step at hs
  split at hs
  · cases hs
  rcases ha with ⟨σ, waker, rfl⟩ | ⟨σ, refusal, rfl⟩ | ⟨i, rfl⟩ | ⟨i, rfl⟩
  all_goals
    dsimp only at hs
    split at hs
    · assumption
    · cases hs

/-- A drop of the application's under the borrow is nested in code that runs
under it. -/
theorem nested_of_held (hruns : s.callerRuns = true) (hheld : s.held = true) :
    s.borrow ≠ .free ∧ s.reentered = true := by
  have hborrow : s.borrow ≠ .free := by simpa [Sys.held] using hheld
  exact ⟨hborrow, (of_decide_eq_true hruns).resolve_left hborrow⟩

theorem RunsUnder.of_drop (hruns : s.callerRuns = true) (h : e.dropsBuffer s.held) (hu : e.underBorrow = true) :
    RunsUnder s a e := by
  obtain ⟨b, rfl⟩ := h
  have hheld : s.held = true := hu
  obtain ⟨hborrow, hback⟩ := nested_of_held hruns hheld
  exact hheld ▸ .nested hborrow hback .buffer

theorem RunsUnder.of_idle (h : e.idle = true) (hu : e.underBorrow = true) : RunsUnder s a e := by
  cases e <;> simp_all [Event.idle, Event.underBorrow]

/-- Everything a step runs under the borrow is one of these. -/
theorem grows_step (hr : (systemMachine ws).Reachable s) (hs : s.step a = some s') :
    s.world.Grows (fun e => e.underBorrow = true → RunsUnder s a e) s'.world := by
  have hb := books_of_reachable hr
  cases step_deed hb.noneDescribed hs with
  | idled hworld => exact hworld.log.mono fun e he => .of_idle he
  | accepted _ hlog =>
    refine hlog.mono fun e he hu => ?_
    rcases he with hevent | ⟨t, p, files, rfl⟩
    · exact .of_idle hevent hu
    · cases hu
  | @polled σ _ waker =>
    refine (s.world.grows_pollPending σ waker s.held).mono fun e he hu => ?_
    rcases he with ⟨old, -, rfl⟩ | rfl
    · have hheld : s.held = true := hu
      obtain ⟨hborrow, hback⟩ := nested_of_held (callerRuns_of_step (.inl ⟨_, _, rfl⟩) hs) hheld
      exact hheld ▸ .nested hborrow hback .waker
    · cases hu
  | @delivered σ future completed =>
    rw [Sys.receive_world]
    refine ⟨[_], World.log_deliver .., List.forall_mem_singleton.mpr ?_⟩
    rintro ⟨⟩
  | @forgotten σ _ _ _ w detached _ hidles hworld =>
    have hruns := callerRuns_of_step (.inr (.inl ⟨_, _, rfl⟩)) hs
    rw [hworld]
    refine .trans ((hidles.log.mono fun e he => .of_idle he).trans (.emit w (e := .futureDropped σ detached) ?_)) ?_
    · rintro ⟨⟩
    · exact (World.grows_dropFutureRef _ σ s.held).mono fun e he => .of_drop hruns he
  | checkedOut => exact .of_log rfl
  | @filled i hd len hhandle =>
    refine ⟨[.copied hd.registry hd.index len], rfl, List.forall_mem_singleton.mpr ?_⟩
    rintro ⟨⟩
  | handleDropped =>
    have hruns := callerRuns_of_step (.inr (.inr (.inl ⟨_, rfl⟩))) hs
    exact (World.grows_dropHandle ..).mono fun e he => .of_drop hruns he
  | collectionCloned => exact .of_log rfl
  | collectionDropped =>
    have hruns := callerRuns_of_step (.inr (.inr (.inr ⟨_, rfl⟩))) hs
    exact (World.grows_dropRegistryRef ..).mono fun e he => .of_drop hruns he
  | waited ha hworld =>
    refine hworld.log.mono ?_
    rintro e ⟨id, waker, hentry, rfl⟩ -
    exact .evicted ha hentry
  | @resolved task loop wakers cqe rest op answers w hpc hring hkind hcell hw =>
    have hslots := (kept_slotted _).reachable hr
    have hlog : w.log = s.world.log := by
      rw [hw]
      rfl
    refine (World.Grows.of_log hlog).trans ((w.grows_resolveCompletion op.payload cqe).mono ?_)
    rintro e (rfl | ⟨⟨b, rfl⟩, hgone⟩) hu
    · cases hu
    · refine .unawaited hpc hring hkind hcell ?_
      have hmem : op.payload ∈ s.payloads := OpSlab.mem_payloads.mpr ⟨_, OpSlab.payloadAt_of_cell hcell⟩
      rw [hw, World.setInner_results, hslots.awaited _ (hslots.bounded _ hmem)] at hgone
      exact Option.not_isSome_iff_eq_none.mp (Bool.eq_false_iff.mp hgone)
  | @released task next answers w hpc hsealed hw =>
    have hkept : s.world.inner.driverWaker = none := by
      refine Decidable.byContradiction fun hne => ?_
      rcases Unparked.of_reachable hr hne with hparking | hhalted
      · rw [hpc] at hparking
        cases hparking
      · rw [hpc] at hhalted
        cases hhalted
    have hlog : w.log = s.world.log := by
      rw [hw]
      rfl
    refine .congr ((World.Grows.of_log hlog).trans (w.grows_release.mono ?_)) rfl
    rintro e (⟨σ, completed, waker, rfl⟩ | ⟨b, rfl⟩ | ⟨waker, hwaker, rfl⟩) hu
    · cases hu
    · exact .closed hsealed hkept
    · rw [hw] at hwaker
      cases hkept.symm.trans hwaker

/-- A read whose future was dropped, reported while a pass reaps. -/
def readForgotten : List (Action .w64) :=
  let e : Sqe .w64 := ⟨.read (.raw 3) (.raw 4096) 512 0, 2 ^ 17⟩
  [.start (.read 3 (.owned ⟨4096, 512, 0⟩) 512 0) .willing, .dropFuture 0 none, .pollDrive 7 .willing,
    .execute e ⟨0, 512⟩, .report e ⟨0, 512⟩]

end WinIoring.Runtime
