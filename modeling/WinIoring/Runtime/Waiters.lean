import WinIoring.Machine.Watch
import WinIoring.Runtime.Promotion

/-!
# Waiting for the end of teardown

The driver keeps one waker for each `ShutdownComplete` that has been polled,
until teardown takes them all to be woken.
-/

namespace WinIoring.Runtime

open Slab

variable {ws : WordSize} {s s' : Sys ws}

-- ---------------------------------------------------------------------------
-- Code that is no business of the waiters
-- ---------------------------------------------------------------------------

namespace DriverInner

variable {d : DriverInner ws}

/-- The waiters, the next of their ids, and whether there is still something to
wait for. -/
def waiting (d : DriverInner ws) : List (Nat × Waker) × Nat × Bool :=
  (d.shutdownWaiters, d.nextWaiterId, d.tornDown)

/-- What belongs to whoever waits: the waiters, and the waker of the parked
driver. -/
def wakers (d : DriverInner ws) : (List (Nat × Waker) × Nat × Bool) × Option Waker :=
  (d.waiting, d.driverWaker)

theorem wakers_issueCancel (d : DriverInner ws) (t : Token ws) (refusal : Option HResult) :
    (d.issueCancel t refusal).wakers = d.wakers := by
  unfold issueCancel
  split
  · rfl
  split
  · rfl
  split
  · rfl
  split
  · rfl
  split
  · rfl
  dsimp only
  split
  · rfl
  · rfl

theorem wakers_issueCancels (d : DriverInner ws) (ts : List (Token ws))
    (refusal : Token ws → Option HResult) : (d.issueCancels ts refusal).wakers = d.wakers :=
  issueCancels_induction (P := fun d' => d'.wakers = d.wakers)
    (fun d' t refusal h => (d'.wakers_issueCancel t refusal).trans h) rfl ts refusal

theorem wakers_requestCancel (d : DriverInner ws) (t : Token ws) (refusal : Option HResult) :
    (d.requestCancel t refusal).wakers = d.wakers := by
  unfold requestCancel
  split
  · rfl
  split
  · exact d.wakers_issueCancel t refusal
  · split
    · rfl
    · rfl
  · rfl

theorem wakers_submitPending (d : DriverInner ws) (a : Answers ws) :
    (d.submitPending a).wakers = d.wakers := by
  unfold submitPending
  split
  · rfl
  split
  · exact (wakers_issueCancels ..).trans (wakers_issueCancels ..)
  · simp only [noteSubmitFailure]
    split
    · rfl
    · rfl

theorem wakers_reportSlowDrain (d : DriverInner ws) (steps : Nat) :
    (d.reportSlowDrain steps).wakers = d.wakers := by
  unfold reportSlowDrain
  split
  · rfl
  split
  · rfl
  · rfl

end DriverInner

namespace World

variable {w : World ws}

def waiting (w : World ws) : List (Nat × Waker) × Nat × Bool := w.inner.waiting

def wakers (w : World ws) : (List (Nat × Waker) × Nat × Bool) × Option Waker := w.inner.wakers

theorem waiting_congr {w' : World ws} (h : w'.inner = w.inner) : w'.waiting = w.waiting :=
  congrArg DriverInner.waiting h

theorem wakers_resolveCompletion (w : World ws) (p : OpPayload) (cqe : Cqe ws) :
    (w.resolveCompletion p cqe).1.wakers = w.wakers := by
  obtain ⟨_, _, _, _, _, h⟩ := w.resolveCompletion_books p cqe
  rw [wakers, h]
  rfl

theorem wakers_reapOne (w : World ws) (failure : Option HResult) :
    (w.reapOne failure).1.wakers = w.wakers := by
  unfold reapOne
  split
  · rfl
  · rfl
  dsimp only
  split
  · rfl
  split
  · rfl
  · exact wakers_resolveCompletion ..

theorem wakers_drainBegin (hnone : NoneDescribed w.inner.slab) (a : Answers ws) :
    (w.drainBegin a).1.wakers = w.wakers := by
  have hunqueued : w.resolveUnqueued = (w, []) := by
    simp [resolveUnqueued, described_eq_nil hnone]
  have hbefore : (w.beforeWait a).inner.wakers = w.inner.wakers := by
    simp only [beforeWait, hunqueued, setInner_inner]
    split
    · exact (DriverInner.wakers_issueCancels ..).trans (w.inner.wakers_submitPending a)
    · exact w.inner.wakers_submitPending a
  rw [drainBegin_eq]
  dsimp only
  split
  · exact hbefore
  · exact hbefore

theorem waiting_start {accept : DriverInner ws → DriverInner ws} {recovery : Recovery}
    (haccept : ∀ d, (accept d).waiting = d.waiting) :
    (w.start checks payload place build accept recovery).1.waiting = w.waiting := by
  unfold start
  split
  · exact waiting_congr (by simp)
  split
  · exact waiting_congr (by simp)
  dsimp only
  split
  · rw [waiting, inner_dropGuard]
    rfl
  · exact haccept _

theorem waiting_sequential (w : World ws) (file : FileId) (buffer : Buffer) (a : StartAnswers)
    {issue : World ws → Nat → World ws × Except (Rejection Error) (Token ws)}
    (hissue : ∀ w offset, (issue w offset).1.waiting = w.waiting) :
    (w.sequential file buffer a issue).1.waiting = w.waiting := by
  have hcheck : (w.checkHasFileOffset file a).1.waiting = w.waiting := by
    unfold checkHasFileOffset
    dsimp only
    split
    · rfl
    · rfl
  unfold sequential
  split
  · rename_i hresult
    rw [hresult] at hcheck
    exact hcheck
  · rename_i hresult
    rw [hresult] at hcheck
    dsimp only
    split
    · exact hcheck
    · split
      · rename_i hresult
        refine (congrArg (·.1.waiting) hresult).symm.trans ((hissue _ _).trans ?_)
        exact hcheck
      · rename_i hresult
        refine (congrArg (·.1.waiting) hresult).symm.trans ((hissue _ _).trans ?_)
        exact hcheck

theorem waiting_detachFuture (w : World ws) (t : Token ws) (refusal : Option HResult) :
    (w.detachFuture t refusal).waiting = w.waiting := by
  unfold detachFuture
  split
  · split
    · simp only [dropPayload, waiting, inner_dropGuard, inner_dropOptional, inner_dropSlotRef]
      rfl
    · rfl
  · rfl
  · exact congrArg Prod.fst (DriverInner.wakers_requestCancel ..)
  · rfl

end World

-- ---------------------------------------------------------------------------
-- Steps that are no business of the waiters
-- ---------------------------------------------------------------------------

theorem Sys.receive_waiters (s : Sys ws) (boxed : Option Boxed) : (s.receive boxed).waiters = s.waiters := by
  obtain ⟨_, _, h⟩ := s.receive_eq boxed
  rw [h]

/-- A step that leaves the waiters alone, and the code where it stands. -/
structure Aside (s s' : Sys ws) : Prop where
  waiting : s'.world.waiting = s.world.waiting
  waiters : s'.waiters = s.waiters
  pc : s'.pc = s.pc ∨ s'.pc = .halted

namespace Aside

theorem refl (s : Sys ws) : Aside s s := ⟨rfl, rfl, .inl rfl⟩

theorem halt (s : Sys ws) : Aside s s.halt := ⟨rfl, rfl, .inr rfl⟩

theorem call (s : Sys ws) {k : World ws → World ws} (hk : (k s.world).waiting = s.world.waiting) :
    Aside s (s.call k) := by
  unfold Sys.call
  split
  · exact ⟨hk, rfl, .inl rfl⟩
  · exact halt s

theorem start (h : s.start r a = some s') : Aside s s' := by
  unfold Sys.start at h
  obtain ⟨⟨⟨world, result⟩, handles⟩, hissue, heq⟩ := Option.map_eq_some_iff.mp h
  have hworld : world.waiting = s.world.waiting := by
    have hfile : ∀ {r : World ws × Except (Rejection Error) (Token ws)} {result},
        Sys.onFile r = (world, result) → world = r.1 := fun h => (congrArg Prod.fst h).symm
    unfold Sys.issue at hissue
    cases r with
    | read file arg len offset =>
      obtain ⟨b, -, heq⟩ := Option.map_eq_some_iff.mp hissue
      rw [hfile (Prod.mk.inj heq).1]
      exact World.waiting_start fun _ => rfl
    | write file arg len offset =>
      obtain ⟨b, -, heq⟩ := Option.map_eq_some_iff.mp hissue
      rw [hfile (Prod.mk.inj heq).1]
      exact World.waiting_start fun _ => rfl
    | flush file =>
      rw [hfile (Prod.mk.inj (Option.some.inj hissue)).1]
      exact World.waiting_start fun _ => rfl
    | seqRead file arg len =>
      obtain ⟨b, -, heq⟩ := Option.map_eq_some_iff.mp hissue
      refine (congrArg (fun r => r.1.waiting) (Prod.mk.inj heq).1).symm.trans ?_
      exact World.waiting_sequential _ _ _ _ fun _ _ => World.waiting_start fun _ => rfl
    | seqWrite file arg len =>
      obtain ⟨b, -, heq⟩ := Option.map_eq_some_iff.mp hissue
      refine (congrArg (fun r => r.1.waiting) (Prod.mk.inj heq).1).symm.trans ?_
      exact World.waiting_sequential _ _ _ _ fun _ _ => World.waiting_start fun _ => rfl
    | registeredOp target i bufferOffset len fileOffset isWrite =>
      obtain ⟨b, -, heq⟩ := Option.map_eq_some_iff.mp hissue
      rw [hfile (Prod.mk.inj heq).1]
      exact World.waiting_start fun _ => rfl
    | registerBuffers buffers =>
      rw [hfile (Prod.mk.inj (Option.some.inj hissue)).1]
      exact World.waiting_start fun _ => rfl
    | registerFiles files =>
      rw [hfile (Prod.mk.inj (Option.some.inj hissue)).1]
      exact World.waiting_start fun _ => rfl
  cases result with
  | error e => exact heq ▸ ⟨hworld, rfl, .inl rfl⟩
  | ok t => exact heq ▸ ⟨hworld, rfl, .inl rfl⟩

theorem poll (h : s.poll σ w = some s') : Aside s s' := by
  obtain ⟨future, -, rfl⟩ := Option.map_eq_some_iff.mp h
  split
  · exact ⟨rfl, rfl, .inl rfl⟩
  · refine ⟨World.waiting_congr ?_, ?_, .inl ?_⟩
    · rw [Sys.receive_world, World.inner_deliver]
    · exact Sys.receive_waiters ..
    · exact Sys.receive_pc ..

theorem dropFuture (h : s.dropFuture σ refusal = some s') : Aside s s' := by
  obtain ⟨future, -, rfl⟩ := Option.map_eq_some_iff.mp h
  dsimp only
  split
  · obtain ⟨hwaiting, hwaiters, hpc⟩ := call { s with futures := Function.update s.futures σ none }
      (k := fun w => ((w.detachFuture future.token refusal).emit (.futureDropped σ true)).dropFutureRef σ false)
      ((World.waiting_congr (World.inner_dropFutureRef ..)).trans (World.waiting_detachFuture ..))
    exact ⟨hwaiting, hwaiters, hpc⟩
  · exact ⟨World.waiting_congr (World.inner_dropFutureRef ..), rfl, .inl rfl⟩

theorem checkOut (h : s.checkOut collection index = some s') : Aside s s' := by
  obtain ⟨r, -, rfl⟩ := Option.map_eq_some_iff.mp h
  have hworld : (s.world.checkOut r index).1.waiting = s.world.waiting := by
    unfold World.checkOut
    split
    · rfl
    split
    · rfl
    split
    · rfl
    split
    · rfl
    · rfl
  split
  · split
    · rename_i hresult
      exact ⟨(congrArg (·.1.waiting) hresult).symm.trans hworld, rfl, .inl rfl⟩
    · rename_i hresult
      exact ⟨(congrArg (·.1.waiting) hresult).symm.trans hworld, rfl, .inl rfl⟩
  · exact halt s

/-- An application's action that neither drives nor waits. -/
theorem application (h : s.applicationStep a = some s')
    (hdrive : ∀ w a', a ≠ .pollDrive w a') (hdrop : a ≠ .dropDrive) (hdriver : ∀ a', a ≠ .dropDriver a')
    (hpoll : ∀ waiter w, a ≠ .pollShutdown waiter w) (hgone : ∀ id, a ≠ .dropShutdown id) : Aside s s' := by
  unfold Sys.applicationStep at h
  split at h
  · split at h
    · exact start h
    · exact Option.some.inj h ▸ halt s
  · split at h
    · exact Option.some.inj h ▸ call s (congrArg Prod.fst (DriverInner.wakers_requestCancel ..))
    · cases h
  · exact poll h
  · exact dropFuture h
  · refine Option.some.inj h ▸ call s ?_
    unfold World.escalate
    split
    · rfl
    · rfl
  · exact checkOut h
  · obtain ⟨_, -, rfl⟩ := Option.map_eq_some_iff.mp h
    split
    · exact refl s
    · exact ⟨rfl, rfl, .inl rfl⟩
  · obtain ⟨_, -, rfl⟩ := Option.map_eq_some_iff.mp h
    exact ⟨World.waiting_congr (World.inner_dropHandle ..), rfl, .inl rfl⟩
  · obtain ⟨_, -, rfl⟩ := Option.map_eq_some_iff.mp h
    exact ⟨rfl, rfl, .inl rfl⟩
  · obtain ⟨_, -, rfl⟩ := Option.map_eq_some_iff.mp h
    exact ⟨World.waiting_congr (World.inner_dropRegistryRef ..), rfl, .inl rfl⟩
  · exact Option.some.inj h ▸ ⟨rfl, rfl, .inl rfl⟩
  · exact absurd rfl (hpoll _ _)
  · exact absurd rfl (hgone _)
  · exact absurd rfl (hdrive _ _)
  · exact absurd rfl hdrop
  · exact absurd rfl (hdriver _)
  · cases h

end Aside

-- ---------------------------------------------------------------------------
-- The driver's own steps
-- ---------------------------------------------------------------------------

/-- A step of the driver that leaves the waiters alone. -/
structure Spared (s s' : Sys ws) : Prop where
  waiting : s'.world.waiting = s.world.waiting
  waiters : s'.waiters = s.waiters

/-- The end of teardown: every waiter's waker is taken to be woken. -/
structure Closed (s s' : Sys ws) (task : Task) (resolved : List Waker) (reports : List Error) : Prop where
  pc : s'.pc = .released task (resolved ++ s.world.inner.shutdownWaiters.map (·.2)) reports
  shutdownWaiters : s'.world.inner.shutdownWaiters = []
  tornDown : s'.world.inner.tornDown = true
  waiters : s'.waiters = s.waiters

/-- What a step does to the waiters, if it is not one of their own. -/
def Shelters (s s' : Sys ws) : Prop :=
  Spared s s' ∨ ∃ task resolved reports, Closed s s' task resolved reports

theorem Aside.spared (h : Aside s s') : Spared s s' := ⟨h.waiting, h.waiters⟩

theorem spared_beginPass (s : Sys ws) (w : Waker) (a : Answers ws) : Spared s (s.beginPass w a) :=
  ⟨congrArg Prod.fst (DriverInner.wakers_submitPending ..), rfl⟩

theorem spared_beginDrain (hnone : NoneDescribed s.world.inner.slab) (task : Task) (steps : Nat)
    (a : Answers ws) : Spared s (s.beginDrain task steps a) := by
  unfold Sys.beginDrain
  split
  · exact ⟨rfl, rfl⟩
  · exact ⟨congrArg Prod.fst (World.wakers_drainBegin hnone a), rfl⟩

theorem spared_endReaping (s : Sys ws) (task : Task) (loop : Loop) (wakers : List Waker) :
    Spared s (s.endReaping task loop wakers) := by
  cases loop with
  | pass => exact ⟨rfl, rfl⟩
  | drain steps => exact ⟨congrArg Prod.fst (DriverInner.wakers_reportSlowDrain s.world.inner _), rfl⟩

theorem spared_parkPoll (s : Sys ws) (w : Waker) : Spared s (s.parkPoll w) := by
  unfold Sys.parkPoll
  dsimp only
  split
  · exact ⟨rfl, rfl⟩
  · exact ⟨rfl, rfl⟩

/-- Teardown takes the waiters' wakers after those of what it resolves. -/
theorem World.wakers_release (w : World ws) :
    ∃ resolved, w.release.2 = resolved ++ w.inner.shutdownWaiters.map (·.2) := by
  simp only [World.release, World.inner_resolveAllAbandoned]
  exact ⟨_, rfl⟩

theorem shelters_closing (s : Sys ws) (task : Task) (a : Answers ws) : Shelters s (s.closing task a) := by
  unfold Sys.closing World.closeAndRelease
  cases World.closeLoop s.world.inner.ring a.closeFails closeAttempts with
  | none => exact .inl ⟨rfl, rfl⟩
  | some ring =>
    have hinner := World.release_inner (s.world.setInner { s.world.inner with ring })
    obtain ⟨resolved, hwakers⟩ := World.wakers_release (s.world.setInner { s.world.inner with ring })
    refine .inr ⟨task, resolved, _, congrArg (Pc.released task · _) hwakers, ?_, ?_, rfl⟩
    · exact congrArg DriverInner.shutdownWaiters hinner
    · exact congrArg DriverInner.tornDown hinner

theorem shelters_resume (hnone : NoneDescribed s.world.inner.slab) (task : Task) (a : Answers ws)
    (next : Resume) : Shelters s (s.resume task a next) := by
  cases next with
  | decide shuttingDown retryOwed =>
    cases task with
    | drop =>
      simp only [Sys.resume]
      exact .inl (spared_beginDrain hnone ..)
    | drive w =>
      simp only [Sys.resume]
      split
      · exact .inl (spared_beginDrain hnone ..)
      split
      · exact .inl ⟨rfl, rfl⟩
      · exact .inl (spared_parkPoll s w)
  | drained steps outcome =>
    cases outcome with
    | progressing =>
      cases task with
      | drop =>
        simp only [Sys.resume]
        exact .inl (spared_beginDrain hnone ..)
      | drive w => exact .inl ⟨rfl, rfl⟩
    | quiescent => exact shelters_closing s task a
    | unsubmittableResidue => exact shelters_closing s task a
  | finished =>
    cases task with
    | drop => exact .inl ⟨rfl, rfl⟩
    | drive w => exact .inl ⟨rfl, rfl⟩

theorem shelters_advance (hnone : NoneDescribed s.world.inner.slab) (h : s.advance a = some s') :
    Shelters s s' := by
  unfold Sys.advance at h
  split at h
  · have hreap := congrArg Prod.fst (s.world.wakers_reapOne a.pop)
    split at h
    · rename_i hresult
      obtain rfl := Option.some.inj h
      exact .inl ⟨(congrArg (·.1.waiting) hresult).symm.trans hreap, rfl⟩
    · rename_i world hresult
      obtain rfl := Option.some.inj h
      obtain ⟨hwaiting, hwaiters⟩ := spared_endReaping { s with world } _ _ _
      exact .inl ⟨hwaiting.trans ((congrArg (·.1.waiting) hresult).symm.trans hreap), hwaiters⟩
  · obtain rfl := Option.some.inj h
    exact .inl ⟨rfl, rfl⟩
  · obtain rfl := Option.some.inj h
    refine .inl ⟨?_, rfl⟩
    simp only [Sys.freeStep]
    split
    · rfl
    · rfl
  · exact Option.some.inj h ▸ shelters_resume hnone ..
  · obtain rfl := Option.some.inj h
    refine .inl ?_
    unfold Sys.pollSignalled
    dsimp only
    split
    · exact ⟨rfl, rfl⟩
    · exact ⟨rfl, rfl⟩
  · obtain rfl := Option.some.inj h
    obtain ⟨hwaiting, hwaiters⟩ := spared_beginPass s.dropPark _ a
    exact .inl ⟨hwaiting, hwaiters⟩
  · obtain rfl := Option.some.inj h
    exact .inl ⟨rfl, rfl⟩
  · cases h

/-- Every step but the waiters' own leaves them alone or ends teardown. -/
theorem step_shelters (hnone : NoneDescribed s.world.inner.slab) (h : s.step a = some s')
    (hpoll : ∀ waiter w, a ≠ .pollShutdown waiter w) (hgone : ∀ id, a ≠ .dropShutdown id) :
    Shelters s s' := by
  unfold Sys.step at h
  split at h
  · cases h
  split at h
  · obtain ⟨_, -, rfl⟩ := Option.map_eq_some_iff.mp h
    exact .inl ⟨rfl, rfl⟩
  · obtain ⟨_, -, rfl⟩ := Option.map_eq_some_iff.mp h
    exact .inl ⟨rfl, rfl⟩
  · unfold Sys.callback at h
    split at h
    · exact Option.some.inj h ▸ .inl ⟨rfl, rfl⟩
    · cases h
  · unfold Sys.poolWake at h
    split at h
    · cases h
    · exact Option.some.inj h ▸ .inl ⟨rfl, rfl⟩
  · split at h
    · cases h
    · exact shelters_advance hnone h
  · split at h
    · exact Option.some.inj h ▸ .inl ⟨rfl, rfl⟩
    · cases h
  split at h
  · by_cases hdrive : ∃ w a', a = .pollDrive w a'
    · obtain ⟨w, a', rfl⟩ := hdrive
      simp only [Sys.applicationStep] at h
      split at h
      · unfold Sys.pollDrive at h
        split at h
        · exact Option.some.inj h ▸ .inl (spared_beginPass s w a')
        · exact Option.some.inj h ▸ .inl (spared_beginPass s w a')
        · exact Option.some.inj h ▸ .inl (spared_beginDrain hnone ..)
        · exact Option.some.inj h ▸ .inl (spared_parkPoll s w)
        · cases h
      · cases h
    by_cases hdrop : a = .dropDrive
    · subst hdrop
      simp only [Sys.applicationStep] at h
      split at h
      · unfold Sys.dropDrive at h
        split at h
        · exact Option.some.inj h ▸ .inl ⟨rfl, rfl⟩
        · exact Option.some.inj h ▸ .inl ⟨rfl, rfl⟩
        · exact Option.some.inj h ▸ .inl ⟨rfl, rfl⟩
        · cases h
      · cases h
    by_cases hdriver : ∃ a', a = .dropDriver a'
    · obtain ⟨a', rfl⟩ := hdriver
      simp only [Sys.applicationStep] at h
      split at h
      · unfold Sys.dropDriver at h
        split at h
        · split at h
          · exact Option.some.inj h ▸ .inl ⟨rfl, rfl⟩
          · obtain rfl := Option.some.inj h
            obtain ⟨hwaiting, hwaiters⟩ := spared_beginDrain (s := { s with
              world := s.world.setInner { s.world.inner with
                shutdown := s.world.inner.shutdown.max .immediate } }) hnone .drop 0 a'
            exact .inl ⟨hwaiting, hwaiters⟩
        · cases h
      · cases h
    · refine .inl (Aside.application h ?_ hdrop ?_ hpoll hgone).spared
      · rintro w a' rfl
        exact hdrive ⟨w, a', rfl⟩
      · rintro a' rfl
        exact hdriver ⟨a', rfl⟩
  · cases h

-- ---------------------------------------------------------------------------
-- One entry for each waiter
-- ---------------------------------------------------------------------------

/-- The wakers of the `ShutdownComplete` futures' latest polls before the end of
teardown, under the ids the driver gives them. -/
abbrev Polled := Nat → Option Waker

/-- A poll that finds the driver free and teardown unfinished is recorded. -/
def Sys.notePoll (s : Sys ws) (a : Action ws) (_ : Sys ws) (polled : Polled) : Polled :=
  match a with
  | .pollShutdown waiter w =>
    if s.borrow = .free ∧ s.world.inner.tornDown = false then
      Function.update polled (waiter.getD s.world.inner.nextWaiterId) (some w)
    else
      polled
  | _ => polled

/-- The system beside a record of the polls of its waiters. -/
def waiterMachine (ws : WordSize) : Machine (Sys ws × Polled) (Action ws) :=
  (systemMachine ws).watch (fun _ => none) Sys.notePoll

/-- No waiter is dropped from inside a call of the driver. -/
def DropsFreely (p : Sys ws × Polled) : Action ws → Prop
  | .dropShutdown _ => p.1.borrow = .free
  | _ => True

/-- The driver's list is the live waiters that have been polled, each once and
with the waker of its latest poll. -/
structure Entered (d : DriverInner ws) (waiters : List Nat) (polled : Polled) : Prop where
  nodup : (d.shutdownWaiters.map Prod.fst).Nodup
  mem_iff : ∀ id w, (id, w) ∈ d.shutdownWaiters ↔ id ∈ waiters ∧ polled id = some w
  waiters_nodup : waiters.Nodup
  waiters_lt : ∀ id ∈ waiters, id < d.nextWaiterId
  polled_ne : ∀ id ∈ waiters, polled id ≠ none

namespace Entered

variable {d d' : DriverInner ws} {waiters : List Nat} {polled : Polled} {id : Nat} {w : Waker}

theorem congr (h : Entered d waiters polled) (hd : d'.waiting = d.waiting) : Entered d' waiters polled := by
  simp only [DriverInner.waiting, Prod.mk.injEq] at hd
  obtain ⟨hlist, hnext, -⟩ := hd
  exact ⟨hlist ▸ h.nodup, hlist ▸ h.mem_iff, h.waiters_nodup, hnext ▸ h.waiters_lt, h.polled_ne⟩

/-- A first poll enters the waiter under a new id. -/
theorem first (h : Entered d waiters polled) (hnext : d'.nextWaiterId = d.nextWaiterId + 1)
    (hlist : d'.shutdownWaiters = d.shutdownWaiters ++ [(d.nextWaiterId, w)]) :
    Entered d' (waiters ++ [d.nextWaiterId]) (Function.update polled d.nextWaiterId (some w)) := by
  have hne : ∀ id ∈ waiters, id ≠ d.nextWaiterId := fun id hid => Nat.ne_of_lt (h.waiters_lt id hid)
  have hfresh : d.nextWaiterId ∉ d.shutdownWaiters.map Prod.fst := by
    intro hmem
    obtain ⟨⟨id', w'⟩, hentry, hid⟩ := List.mem_map.mp hmem
    exact hne id' ((h.mem_iff id' w').mp hentry).1 hid
  constructor
  · rw [hlist, List.map_append]
    refine h.nodup.append (by simp) (List.disjoint_right.mpr fun id' hid' => ?_)
    rwa [List.mem_singleton.mp hid']
  · intro id w'
    simp only [hlist, List.mem_append, List.mem_singleton, Prod.mk.injEq, h.mem_iff, Function.update_apply]
    by_cases hid : id = d.nextWaiterId
    · subst hid
      have hnot : d.nextWaiterId ∉ waiters := fun hmem => hne _ hmem rfl
      simp [hnot, eq_comm]
    · simp [hid]
  · refine h.waiters_nodup.append (by simp) (List.disjoint_right.mpr fun id' hid' hmem => ?_)
    exact hne id' hmem (List.mem_singleton.mp hid')
  · intro id hid
    rw [hnext]
    rcases List.mem_append.mp hid with hid | hid
    · exact Nat.lt_succ_of_lt (h.waiters_lt id hid)
    · rw [List.mem_singleton.mp hid]
      exact Nat.lt_succ_self _
  · intro id hid
    rw [Function.update_apply]
    split
    · nofun
    · rename_i hne'
      exact h.polled_ne id ((List.mem_append.mp hid).resolve_right fun h => hne' (List.mem_singleton.mp h))

/-- Polled again, a waiter's entry is replaced. -/
theorem again (h : Entered d waiters polled) (hid : id ∈ waiters) (hnext : d'.nextWaiterId = d.nextWaiterId)
    (hlist : d'.shutdownWaiters =
      d.shutdownWaiters.map fun entry => if entry.1 = id then (id, w) else entry) :
    Entered d' waiters (Function.update polled id (some w)) := by
  have hids : d'.shutdownWaiters.map Prod.fst = d.shutdownWaiters.map Prod.fst := by
    rw [hlist, List.map_map]
    refine List.map_congr_left fun entry _ => ?_
    simp only [Function.comp_apply]
    split
    · exact Eq.symm ‹_›
    · rfl
  obtain ⟨w₀, hw₀⟩ := Option.ne_none_iff_exists'.mp (h.polled_ne id hid)
  refine ⟨hids ▸ h.nodup, fun id' w' => ?_, h.waiters_nodup, hnext ▸ h.waiters_lt, fun id' hid' => ?_⟩
  · rw [hlist, List.mem_map, Function.update_apply]
    constructor
    · rintro ⟨⟨id₁, w₁⟩, hmem, heq⟩
      by_cases hid₁ : id₁ = id
      · rw [if_pos hid₁] at heq
        obtain ⟨rfl, rfl⟩ := Prod.mk.inj heq
        exact ⟨hid, by simp⟩
      · rw [if_neg hid₁] at heq
        obtain ⟨rfl, rfl⟩ := Prod.mk.inj heq
        rw [if_neg hid₁]
        exact (h.mem_iff id₁ w₁).mp hmem
    · rintro ⟨hmem, heq⟩
      by_cases hid' : id' = id
      · subst hid'
        rw [if_pos rfl] at heq
        obtain rfl := Option.some.inj heq
        exact ⟨(id', w₀), (h.mem_iff id' w₀).mpr ⟨hmem, hw₀⟩, by simp⟩
      · rw [if_neg hid'] at heq
        exact ⟨(id', w'), (h.mem_iff id' w').mpr ⟨hmem, heq⟩, by simp [hid']⟩
  · rw [Function.update_apply]
    split
    · nofun
    · exact h.polled_ne id' hid'

/-- A drop takes the waiter's own entry out. -/
theorem drop (h : Entered d waiters polled) (hnext : d'.nextWaiterId = d.nextWaiterId)
    (hlist : d'.shutdownWaiters = d.shutdownWaiters.filter fun entry => entry.1 ≠ id) :
    Entered d' (waiters.erase id) polled where
  nodup := by
    rw [hlist]
    exact h.nodup.sublist (List.filter_sublist.map _)
  mem_iff id' w' := by
    rw [hlist, List.mem_filter, h.mem_iff, h.waiters_nodup.mem_erase_iff]
    simp [and_comm, and_assoc]
  waiters_nodup := h.waiters_nodup.erase id
  waiters_lt id' hid' := by
    rw [hnext]
    exact h.waiters_lt id' (List.mem_of_mem_erase hid')
  polled_ne id' hid' := h.polled_ne id' (List.mem_of_mem_erase hid')

end Entered

/-- What the waiters' own steps come to. -/
theorem step_pollShutdown (h : s.step (.pollShutdown waiter w) = some s') :
    s' = s.halt ∧ s.borrow ≠ .free ∨ s.borrow = .free ∧ (s.world.inner.tornDown = true ∧ s' = s ∨
      s.world.inner.tornDown = false ∧
        (waiter = none ∧ s' = { s with
            world := (s.world.pollShutdownFirst w).1
            waiters := s.waiters ++ [s.world.inner.nextWaiterId] } ∨
          ∃ id, waiter = some id ∧ id ∈ s.waiters ∧ s' = s.call (·.pollShutdownAgain id w))) := by
  unfold Sys.step at h
  split at h
  · cases h
  dsimp only at h
  split at h
  · simp only [Sys.applicationStep, Sys.pollShutdown] at h
    split at h
    · rename_i hheld
      exact .inl ⟨(Option.some.inj h).symm, hheld⟩
    rename_i hfree
    have hfree := not_not.mp hfree
    split at h
    · rename_i htorn
      exact .inr ⟨hfree, .inl ⟨htorn, (Option.some.inj h).symm⟩⟩
    rename_i htorn
    have htorn := Bool.eq_false_iff.mpr htorn
    split at h
    · exact .inr ⟨hfree, .inr ⟨htorn, .inl ⟨rfl, (Option.some.inj h).symm⟩⟩⟩
    · rename_i id
      split at h
      · exact .inr ⟨hfree, .inr ⟨htorn, .inr ⟨id, rfl, ‹_›, (Option.some.inj h).symm⟩⟩⟩
      · cases h
  · cases h

theorem step_dropShutdown {id : Nat} (h : s.step (.dropShutdown id) = some s') :
    s.borrow ≠ .free ∧ s' = { s with waiters := s.waiters.erase id } ∨
      s.borrow = .free ∧ s' = ({ s with waiters := s.waiters.erase id } : Sys ws).call (·.dropShutdown id) := by
  unfold Sys.step at h
  split at h
  · cases h
  dsimp only at h
  split at h
  · simp only [Sys.applicationStep, Sys.dropShutdown] at h
    split at h
    · split at h
      · exact .inr ⟨‹_›, (Option.some.inj h).symm⟩
      · exact .inl ⟨‹_›, (Option.some.inj h).symm⟩
    · cases h
  · cases h

theorem World.inner_dropShutdown (w : World ws) (id : Nat) : (w.dropShutdown id).inner = { w.inner with
    shutdownWaiters := w.inner.shutdownWaiters.filter fun entry => entry.1 ≠ id } := by
  have hfilter : (w.inner.shutdownWaiters.filter fun entry => entry.1 ≠ id) =
      (w.inner.shutdownWaiters.partition (·.1 = id)).2 := by
    rw [List.partition_eq_filter_filter]
    exact List.filter_congr fun entry _ => by simp
  rw [hfilter]
  rfl

/-- The waiters' own steps do not end teardown. -/
theorem tornDown_of_waiter (hs : s.step a = some s')
    (ha : (∃ waiter w, a = .pollShutdown waiter w) ∨ ∃ id, a = .dropShutdown id) :
    s'.world.inner.tornDown = s.world.inner.tornDown := by
  rcases ha with ⟨waiter, w, rfl⟩ | ⟨id, rfl⟩
  · rcases step_pollShutdown hs with
      ⟨rfl, -⟩ | ⟨hfree, ⟨-, rfl⟩ | ⟨-, ⟨-, rfl⟩ | ⟨id, -, -, rfl⟩⟩⟩
    · rfl
    · rfl
    · rfl
    · rw [Sys.call, if_pos hfree]
      rfl
  · rcases step_dropShutdown hs with ⟨-, rfl⟩ | ⟨hfree, rfl⟩
    · rfl
    · simp only [Sys.call, hfree, if_true, World.inner_dropShutdown]

/-- What holds of the waiters at every point of a run. -/
structure Waited (s : Sys ws) (polled : Polled) : Prop where
  entered : s.world.inner.tornDown = false → Entered s.world.inner s.waiters polled
  emptied : s.world.inner.tornDown = true → s.world.inner.shutdownWaiters = []

theorem Waited.of_waiting (h : Waited s polled) (hs : Spared s s') : Waited s' polled := by
  have hwaiting := hs.waiting
  simp only [World.waiting, DriverInner.waiting, Prod.mk.injEq] at hwaiting
  obtain ⟨hlist, -, htorn⟩ := hwaiting
  constructor
  · intro hnot
    rw [hs.waiters]
    exact (h.entered (htorn ▸ hnot)).congr hs.waiting
  · intro hgone
    rw [hlist]
    exact h.emptied (htorn ▸ hgone)

theorem Waited.step (hb : Books s) (h : Waited s polled) (hok : DropsFreely (s, polled) a)
    (hs : s.step a = some s') : Waited s' (s.notePoll a s' polled) := by
  by_cases hpoll : ∃ waiter w, a = .pollShutdown waiter w
  · obtain ⟨waiter, w, rfl⟩ := hpoll
    rcases step_pollShutdown hs with
      ⟨rfl, hheld⟩ | ⟨hfree, ⟨htorn, rfl⟩ | ⟨htorn, ⟨rfl, rfl⟩ | ⟨id, rfl, hid, rfl⟩⟩⟩
    · rw [Sys.notePoll, if_neg fun hfree => hheld hfree.1]
      exact ⟨h.entered, h.emptied⟩
    · rw [Sys.notePoll, if_neg fun hnot => by simp [htorn] at hnot]
      exact h
    · rw [Sys.notePoll, if_pos ⟨hfree, htorn⟩]
      exact ⟨fun _ => (h.entered htorn).first rfl rfl, fun hgone => absurd (htorn.symm.trans hgone) (by rintro ⟨⟩)⟩
    · rw [Sys.notePoll, if_pos ⟨hfree, htorn⟩]
      have hentered := h.entered htorn
      obtain ⟨w₀, hw₀⟩ := Option.ne_none_iff_exists'.mp (hentered.polled_ne id hid)
      have hmem := (hentered.mem_iff id w₀).mpr ⟨hid, hw₀⟩
      obtain ⟨entry, hfound⟩ : ∃ entry, s.world.inner.shutdownWaiters.find? (·.1 = id) = some entry := by
        refine Option.isSome_iff_exists.mp (List.find?_isSome.mpr ⟨_, hmem, by simp⟩)
      simp only [Sys.call, if_pos hfree, Option.getD_some]
      refine ⟨fun _ => hentered.again hid rfl ?_, fun hgone => absurd (htorn.symm.trans hgone) (by rintro ⟨⟩)⟩
      simp only [World.pollShutdownAgain, hfound]
      rfl
  by_cases hdrop : ∃ id, a = .dropShutdown id
  · obtain ⟨id, rfl⟩ := hdrop
    obtain ⟨hheld, -⟩ | ⟨hfree, rfl⟩ := step_dropShutdown hs
    · exact absurd hok hheld
    simp only [Sys.call, hfree, if_true]
    constructor
    · intro htorn
      simp only [World.inner_dropShutdown] at htorn ⊢
      exact (h.entered htorn).drop rfl rfl
    · intro htorn
      simp only [World.inner_dropShutdown] at htorn ⊢
      rw [h.emptied htorn]
      rfl
  have hsame : s.notePoll a s' polled = polled := by
    unfold Sys.notePoll
    split
    · exact absurd ⟨_, _, rfl⟩ hpoll
    · rfl
  rw [hsame]
  rcases step_shelters hb.noneDescribed hs (fun waiter w heq => hpoll ⟨waiter, w, heq⟩)
    (fun id heq => hdrop ⟨id, heq⟩) with hspared | ⟨task, resolved, reports, hclosed⟩
  · exact h.of_waiting hspared
  · exact ⟨fun hnot => absurd (hclosed.tornDown.symm.trans hnot) (by rintro ⟨⟩), fun _ => hclosed.shutdownWaiters⟩

theorem waited_of_reachable (h : (waiterMachine ws).ReachableBy DropsFreely p) : Waited p.1 p.2 := by
  refine h.invariant_watch (fun s hs => ?_) fun s polled a s' hr hi hok hs =>
    hi.step (books_of_reachable hr) hok hs
  constructor
  · intro _
    rw [hs.inner, hs.waiters]
    exact ⟨List.nodup_nil, by simp [DriverInner.new], List.nodup_nil, by simp, by simp⟩
  · intro htorn
    rw [hs.inner] at htorn
    cases htorn

-- ---------------------------------------------------------------------------
-- Every waiter is woken once
-- ---------------------------------------------------------------------------

/-- The waker the driver's code wakes in a step, its borrow released. -/
def Sys.wakes (s : Sys ws) : Action ws → List Waker
  | .advance _ =>
    match s.pc with
    | .calling _ (w :: _) _ _ => [w]
    | _ => []
  | _ => []

theorem log_of_wakes (hs : s.step a = some s') (hw : w ∈ s.wakes a) :
    s'.world.log = .wake w false :: s.world.log := by
  unfold Sys.wakes at hw
  split at hw
  · split at hw
    · rename_i task w' rest reports next hpc
      obtain rfl := List.mem_singleton.mp hw
      simp only [Sys.step, hpc, Sys.advance] at hs
      split at hs
      · cases hs
      · obtain rfl := Option.some.inj hs
        rfl
    · cases hw
  · cases hw

/-- Where the code can stand after teardown, with these of the wakers it took
woken so far. A panic of the application's is the one way it stops before it has
woken them all. -/
inductive Woken (wakers : List Waker) : Pc → List Waker → Prop
  | released (h : wakers = done ++ pending) : Woken wakers (.released task pending reports) done
  | calling (h : wakers = done ++ pending) : Woken wakers (.calling task pending reports .finished) done
  | idle : Woken wakers .idle wakers
  | dropped : Woken wakers .dropped wakers
  | reaping : Woken wakers (.reaping (.drive w) .pass []) wakers
  | deciding : Woken wakers (.calling (.drive w) [] reports (.decide true retryOwed)) wakers
  | halted (h : done <+: wakers) : Woken wakers .halted done

namespace Woken

variable {wakers done : List Waker} {pc : Pc}

theorem isPrefix (h : Woken wakers pc done) : done <+: wakers := by
  cases h with
  | released h => exact h ▸ List.prefix_append ..
  | calling h => exact h ▸ List.prefix_append ..
  | halted h => exact h
  | _ => exact List.prefix_refl _

/-- Code other than the driver's stays where it is or halts. -/
theorem stay (h : Woken wakers pc done) {pc' : Pc} (hpc : pc' = pc ∨ pc' = .halted) :
    Woken wakers pc' (done ++ []) := by
  rw [List.append_nil]
  rcases hpc with rfl | rfl
  · exact h
  · exact .halted h.isPrefix

end Woken

theorem pc_call (s : Sys ws) (k : World ws → World ws) : (s.call k).pc = s.pc ∨ (s.call k).pc = .halted := by
  unfold Sys.call
  split
  · exact .inl rfl
  · exact .inr rfl

/-- A step of the driver's own code. -/
inductive Drives (s s' : Sys ws) : Action ws → Prop
  | advance (h : s.advance a = some s') : Drives s s' (.advance a)
  | pollDrive (h : s.pollDrive w a = some s') : Drives s s' (.pollDrive w a)
  | dropDrive (h : s.dropDrive = some s') : Drives s s' .dropDrive
  | dropDriver (h : s.dropDriver a = some s') : Drives s s' (.dropDriver a)

/-- Any other step wakes nobody, and leaves the driver's code where it stands or
halts it. -/
theorem step_drives (hs : s.step a = some s') :
    Drives s s' a ∨ s.wakes a = [] ∧ (s'.pc = s.pc ∨ s'.pc = .halted) := by
  by_cases hpoll : ∃ waiter w, a = .pollShutdown waiter w
  · obtain ⟨waiter, w, rfl⟩ := hpoll
    refine .inr ⟨rfl, ?_⟩
    rcases step_pollShutdown hs with ⟨rfl, -⟩ | ⟨-, ⟨-, rfl⟩ | ⟨-, ⟨-, rfl⟩ | ⟨id, -, -, rfl⟩⟩⟩
    · exact .inr rfl
    · exact .inl rfl
    · exact .inl rfl
    · exact pc_call s _
  by_cases hgone : ∃ id, a = .dropShutdown id
  · obtain ⟨id, rfl⟩ := hgone
    refine .inr ⟨rfl, ?_⟩
    rcases step_dropShutdown hs with ⟨-, rfl⟩ | ⟨-, rfl⟩
    · exact .inl rfl
    · exact pc_call { s with waiters := s.waiters.erase id } _
  unfold Sys.step at hs
  split at hs
  · cases hs
  split at hs
  · obtain ⟨_, -, rfl⟩ := Option.map_eq_some_iff.mp hs
    exact .inr ⟨rfl, .inl rfl⟩
  · obtain ⟨_, -, rfl⟩ := Option.map_eq_some_iff.mp hs
    exact .inr ⟨rfl, .inl rfl⟩
  · unfold Sys.callback at hs
    split at hs
    · exact Option.some.inj hs ▸ .inr ⟨rfl, .inl rfl⟩
    · cases hs
  · unfold Sys.poolWake at hs
    split at hs
    · cases hs
    · exact Option.some.inj hs ▸ .inr ⟨rfl, .inl rfl⟩
  · split at hs
    · cases hs
    · exact .inl (.advance hs)
  · split at hs
    · exact Option.some.inj hs ▸ .inr ⟨rfl, .inl rfl⟩
    · cases hs
  split at hs
  · by_cases hdrive : ∃ w a', a = .pollDrive w a'
    · obtain ⟨w, a', rfl⟩ := hdrive
      simp only [Sys.applicationStep] at hs
      split at hs
      · exact .inl (.pollDrive hs)
      · cases hs
    by_cases hdrop : a = .dropDrive
    · subst hdrop
      simp only [Sys.applicationStep] at hs
      split at hs
      · exact .inl (.dropDrive hs)
      · cases hs
    by_cases hdriver : ∃ a', a = .dropDriver a'
    · obtain ⟨a', rfl⟩ := hdriver
      simp only [Sys.applicationStep] at hs
      split at hs
      · exact .inl (.dropDriver hs)
      · cases hs
    refine .inr ⟨?_, (Aside.application hs ?_ hdrop ?_ ?_ ?_).pc⟩
    · unfold Sys.wakes
      split
      · simp [Sys.applicationStep] at hs
      · rfl
    · rintro w a' rfl
      exact hdrive ⟨w, a', rfl⟩
    · rintro a' rfl
      exact hdriver ⟨a', rfl⟩
    · rintro waiter w rfl
      exact hpoll ⟨waiter, w, rfl⟩
    · rintro id rfl
      exact hgone ⟨id, rfl⟩
  · cases hs

theorem World.reapOne_of_closed (w : World ws) (hclosed : w.inner.ring.closed = true)
    (failure : Option HResult) :
    w.reapOne failure = (w.setInner (w.inner.report (.ring .ringClosed)), none) := by
  simp [reapOne, IoRing.popCompletion, IoRing.ensureOpen, hclosed]

/-- What the driver's code does after teardown. -/
theorem Woken.advance (hb : Books s) (htorn : s.world.inner.tornDown = true) (h : Woken wakers s.pc done)
    (hs : s.advance a = some s') : Woken wakers s'.pc (done ++ s.wakes (.advance a)) := by
  generalize hpc : s.pc = pc at h
  unfold Sys.advance at hs
  unfold Sys.wakes
  rw [hpc] at hs ⊢
  cases h with
  | released h =>
    obtain rfl := Option.some.inj hs
    exact (List.append_nil done).symm ▸ .calling h
  | @calling done pending task reports h =>
    cases pending with
    | cons w rest =>
      obtain rfl := Option.some.inj hs
      exact .calling (by rw [h, List.append_assoc]; rfl)
    | nil =>
      rw [List.append_nil] at h ⊢
      cases reports with
      | cons e rest =>
        obtain rfl := Option.some.inj hs
        exact .calling (by rw [h, List.append_nil])
      | nil =>
        obtain rfl := Option.some.inj hs
        cases task with
        | drop => exact h ▸ .dropped
        | drive w => exact h ▸ .idle
  | idle => cases hs
  | dropped => cases hs
  | halted => cases hs
  | @reaping w =>
    rw [World.reapOne_of_closed s.world (hb.tornDown ▸ htorn)] at hs
    obtain rfl := Option.some.inj hs
    have hmode : s.world.inner.shutdown ≠ .running := hb.shutdown (.inl htorn)
    simp only [Sys.endReaping, Sys.freeStep, List.append_nil, DriverInner.takeReports, DriverInner.report,
      World.setInner_inner, decide_eq_true hmode]
    exact .deciding
  | @deciding w reports retryOwed =>
    rw [List.append_nil]
    cases reports with
    | cons e rest =>
      obtain rfl := Option.some.inj hs
      exact .deciding
    | nil =>
      obtain rfl := Option.some.inj hs
      simp only [Sys.resume, if_true, Sys.beginDrain, htorn]
      exact .idle

theorem Woken.step (hb : Books s) (htorn : s.world.inner.tornDown = true) (h : Woken wakers s.pc done)
    (hs : s.step a = some s') : Woken wakers s'.pc (done ++ s.wakes a) := by
  rcases step_drives hs with hdrives | ⟨hwakes, hpc⟩
  · clear hs
    cases hdrives with
    | advance hs => exact h.advance hb htorn hs
    | @pollDrive w a hs =>
      -- Only an idle driver can be polled after teardown.
      rw [show s.wakes (.pollDrive w a) = [] from rfl, List.append_nil]
      generalize hpc : s.pc = pc at h
      unfold Sys.pollDrive at hs
      rw [hpc] at hs
      cases h with
      | idle =>
        obtain rfl := Option.some.inj hs
        exact .reaping
      | _ => cases hs
    | dropDrive hs =>
      unfold Sys.dropDrive at hs
      generalize hpc : s.pc = pc at h hs
      cases h <;> cases hs
    | @dropDriver a hs =>
      rw [show s.wakes (.dropDriver a) = [] from rfl, List.append_nil]
      generalize hpc : s.pc = pc at h
      unfold Sys.dropDriver at hs
      rw [hpc] at hs
      cases h with
      | idle =>
        simp only [htorn, if_true] at hs
        obtain rfl := Option.some.inj hs
        exact .dropped
      | _ => cases hs
  · rw [hwakes]
    exact h.stay hpc

def dropsFreely (p : Sys ws × Polled) : Action ws → Bool
  | .dropShutdown _ => p.1.borrow = .free
  | _ => true

theorem DropsFreely.of_check (p : Sys ws × Polled) (a : Action ws) (h : dropsFreely p a) : DropsFreely p a := by
  cases a with
  | dropShutdown id => exact of_decide_eq_true (p := p.1.borrow = .free) h
  | _ => trivial

end WinIoring.Runtime
