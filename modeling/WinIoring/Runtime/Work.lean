import WinIoring.Machine.Along
import WinIoring.Runtime.Deeds

/-!
# Work

What the driver's own code has before it: completions to reap, operations and
waiters to let go of, wakers to wake and reports to deliver, and the passes a nudge
or a signal still asks for. Each of its steps uses some of that up, and nothing but
what others do to it brings more in.
-/

namespace WinIoring.Runtime

open Slab

variable {ws : WordSize} {s s' t : Sys ws} {w w' : World ws} {d d' : DriverInner ws}

-- ---------------------------------------------------------------------------
-- What calls leave on the desk
-- ---------------------------------------------------------------------------

namespace DriverInner

/-- The reports not yet taken and the completions not yet reaped. -/
def desk (d : DriverInner ws) : List Error × List (Cqe ws) := (d.deferredReports, d.ring.completions)

theorem desk_issueCancel (d : DriverInner ws) (t : Token ws) (refusal : Option HResult) :
    (d.issueCancel t refusal).desk = d.desk := by
  have hcompletions := (Owes.issueCancel d t refusal).completions
  refine Prod.ext ?_ hcompletions
  unfold issueCancel
  split
  · rfl
  split
  · rfl
  split
  · rfl
  split
  · rfl
  split
  · rfl
  dsimp only
  split
  · rfl
  · rfl

theorem desk_issueCancels (d : DriverInner ws) (ts : List (Token ws)) (refusal : Token ws → Option HResult) :
    (d.issueCancels ts refusal).desk = d.desk :=
  issueCancels_induction (P := fun d' => d'.desk = d.desk)
    (fun d' t refusal h => (d'.desk_issueCancel t refusal).trans h) rfl ts refusal

theorem desk_requestCancel (d : DriverInner ws) (t : Token ws) (refusal : Option HResult) :
    (d.requestCancel t refusal).desk = d.desk := by
  unfold requestCancel
  split
  · rfl
  split
  · exact d.desk_issueCancel t refusal
  · split
    · rfl
    · rfl
  · rfl

end DriverInner

namespace World

def desk (w : World ws) : List Error × List (Cqe ws) := w.inner.desk

theorem desk_congr (h : w'.inner = w.inner) : w'.desk = w.desk := congrArg DriverInner.desk h

theorem desk_start {accept : DriverInner ws → DriverInner ws} {recovery : Recovery}
    (haccept : ∀ d, (accept d).desk = d.desk)
    (hbuild : ∀ ring u, (build ring u).1.completions = ring.completions) :
    (w.start checks payload place build accept recovery).1.desk = w.desk := by
  unfold start
  split
  · exact desk_congr (by simp)
  split
  · exact desk_congr (by simp)
  rename_i slab t _
  have hcompletions := hbuild w.inner.ring t.asUserData
  dsimp only
  split
  · rw [desk, inner_dropGuard]
    rfl
  · rename_i ring _ hresult
    rw [hresult] at hcompletions
    exact (haccept _).trans (congrArg (Prod.mk _) hcompletions)

theorem desk_sequential (w : World ws) (file : FileId) (buffer : Buffer) (a : StartAnswers)
    {issue : World ws → Nat → World ws × Except (Rejection Error) (Token ws)}
    (hissue : ∀ w offset, (issue w offset).1.desk = w.desk) :
    (w.sequential file buffer a issue).1.desk = w.desk := by
  have hcheck : (w.checkHasFileOffset file a).1.desk = w.desk := by
    unfold checkHasFileOffset
    dsimp only
    split
    · rfl
    · rfl
  unfold sequential
  split
  · rename_i hresult
    rw [hresult] at hcheck
    exact hcheck
  · rename_i hresult
    rw [hresult] at hcheck
    dsimp only
    split
    · exact hcheck
    · split
      · rename_i hresult
        refine (congrArg (·.1.desk) hresult).symm.trans ((hissue _ _).trans ?_)
        exact hcheck
      · rename_i hresult
        refine (congrArg (·.1.desk) hresult).symm.trans ((hissue _ _).trans ?_)
        exact hcheck

theorem desk_detachFuture (w : World ws) (t : Token ws) (refusal : Option HResult) :
    (w.detachFuture t refusal).desk = w.desk := by
  unfold detachFuture
  split
  · split
    · simp only [dropPayload, desk, inner_dropGuard, inner_dropOptional, inner_dropSlotRef]
      rfl
    · rfl
  · rfl
  · exact DriverInner.desk_requestCancel ..
  · rfl

end World

namespace Sys

theorem desk_call (s : Sys ws) {k : World ws → World ws} (hk : (k s.world).desk = s.world.desk) :
    (s.call k).world.desk = s.world.desk := by
  unfold call
  split
  · exact hk
  · rfl

theorem desk_start (h : s.start r a = some s') : s'.world.desk = s.world.desk := by
  obtain ⟨⟨⟨world, result⟩, handles⟩, hissue, heq⟩ := Option.map_eq_some_iff.mp h
  have hworld : world.desk = s.world.desk := by
    unfold issue at hissue
    cases r with
    | read | write =>
      obtain ⟨b, -, heq⟩ := Option.map_eq_some_iff.mp hissue
      refine (congrArg (·.1.desk) (Prod.mk.inj heq).1).symm.trans ?_
      exact World.desk_start (fun _ => rfl) fun _ _ => World.completions_build ..
    | seqRead | seqWrite =>
      obtain ⟨b, -, heq⟩ := Option.map_eq_some_iff.mp hissue
      refine (congrArg (·.1.desk) (Prod.mk.inj heq).1).symm.trans ?_
      refine World.desk_sequential _ _ _ _ fun _ _ => ?_
      exact World.desk_start (fun _ => rfl) fun _ _ => World.completions_build ..
    | registeredOp =>
      obtain ⟨b, -, heq⟩ := Option.map_eq_some_iff.mp hissue
      refine (congrArg (·.1.desk) (Prod.mk.inj heq).1).symm.trans ?_
      refine World.desk_start (fun _ => rfl) fun _ _ => ?_
      dsimp only
      split
      · exact World.completions_build ..
      · exact World.completions_build ..
    | flush | registerBuffers | registerFiles =>
      refine (congrArg (·.1.desk) (Prod.mk.inj (Option.some.inj hissue)).1).symm.trans ?_
      exact World.desk_start (fun _ => rfl) fun _ _ => World.completions_build ..
  cases result with
  | error e => exact heq ▸ hworld
  | ok t => exact heq ▸ hworld

/-- Only the driver and the platform touch what is on the desk. -/
theorem desk_application (h : s.applicationStep a = some s') (hdrive : ∀ w a', a ≠ .pollDrive w a')
    (hdrop : a ≠ .dropDrive) (hdriver : ∀ a', a ≠ .dropDriver a') : s'.world.desk = s.world.desk := by
  unfold applicationStep at h
  split at h
  · split at h
    · exact desk_start h
    · exact Option.some.inj h ▸ rfl
  · split at h
    · exact Option.some.inj h ▸ desk_call s (DriverInner.desk_requestCancel ..)
    · cases h
  · obtain ⟨future, -, rfl⟩ := Option.map_eq_some_iff.mp h
    split
    · rfl
    · exact World.desk_congr (by simp)
  · obtain ⟨future, -, rfl⟩ := Option.map_eq_some_iff.mp h
    dsimp only
    split
    · refine desk_call _ ((World.desk_congr (World.inner_dropFutureRef ..)).trans ?_)
      exact World.desk_detachFuture ..
    · exact World.desk_congr (World.inner_dropFutureRef ..)
  · refine Option.some.inj h ▸ desk_call s ?_
    unfold World.escalate
    split
    · rfl
    · rfl
  · obtain ⟨r, -, rfl⟩ := Option.map_eq_some_iff.mp h
    split
    · rcases Moves.checkOut_cases s.world r _ with ⟨e, hresult⟩ | ⟨registry, hd, -, -, -, -, -, hresult⟩
      · rw [hresult]
      · rw [hresult]
        rfl
    · rfl
  · obtain ⟨_, -, rfl⟩ := Option.map_eq_some_iff.mp h
    split
    · rfl
    · rfl
  · obtain ⟨_, -, rfl⟩ := Option.map_eq_some_iff.mp h
    exact World.desk_congr (World.inner_dropHandle ..)
  · obtain ⟨_, -, rfl⟩ := Option.map_eq_some_iff.mp h
    rfl
  · obtain ⟨_, -, rfl⟩ := Option.map_eq_some_iff.mp h
    exact World.desk_congr (World.inner_dropRegistryRef ..)
  · exact Option.some.inj h ▸ rfl
  · unfold pollShutdown at h
    split at h
    · exact Option.some.inj h ▸ rfl
    split at h
    · exact Option.some.inj h ▸ rfl
    split at h
    · exact Option.some.inj h ▸ rfl
    · split at h
      · exact Option.some.inj h ▸ desk_call s rfl
      · cases h
  · unfold dropShutdown at h
    split at h
    · dsimp only at h
      split at h
      · refine Option.some.inj h ▸ desk_call _ ?_
        rfl
      · exact Option.some.inj h ▸ rfl
    · cases h
  · exact absurd rfl (hdrive _ _)
  · exact absurd rfl hdrop
  · exact absurd rfl (hdriver _)
  · cases h

end Sys

/-- Nobody else's step touches the desk, but a report that adds a completion. -/
theorem desk_step (hs : s.step a = some s') : Drives s s' a ∨ s'.world.desk = s.world.desk ∨
    ∃ e outcome cqe, a = .report e outcome ∧ s'.world.desk = (s.world.desk.1, s.world.desk.2 ++ [cqe]) := by
  unfold Sys.step at hs
  split at hs
  · cases hs
  split at hs
  · obtain ⟨ring, hring, rfl⟩ := Option.map_eq_some_iff.mp hs
    exact .inr (.inl (congrArg (Prod.mk _) (IoRing.execute_some hring).completions))
  · rename_i e outcome
    obtain ⟨ring, hring, rfl⟩ := Option.map_eq_some_iff.mp hs
    refine .inr (.inr ⟨e, outcome, { userData := e.userData, outcome }, rfl, ?_⟩)
    exact congrArg (Prod.mk _) (IoRing.report_some hring).completions
  · unfold Sys.callback at hs
    split at hs
    · exact Option.some.inj hs ▸ .inr (.inl rfl)
    · cases hs
  · unfold Sys.poolWake at hs
    split at hs
    · cases hs
    · exact Option.some.inj hs ▸ .inr (.inl rfl)
  · split at hs
    · cases hs
    · exact .inl (.advance hs)
  · split at hs
    · exact Option.some.inj hs ▸ .inr (.inl rfl)
    · cases hs
  split at hs
  · by_cases hdrive : ∃ w a', a = .pollDrive w a'
    · obtain ⟨w, a', rfl⟩ := hdrive
      simp only [Sys.applicationStep] at hs
      split at hs
      · exact .inl (.pollDrive hs)
      · cases hs
    by_cases hdrop : a = .dropDrive
    · subst hdrop
      simp only [Sys.applicationStep] at hs
      split at hs
      · exact .inl (.dropDrive hs)
      · cases hs
    by_cases hdriver : ∃ a', a = .dropDriver a'
    · obtain ⟨a', rfl⟩ := hdriver
      simp only [Sys.applicationStep] at hs
      split at hs
      · exact .inl (.dropDriver hs)
      · cases hs
    refine .inr (.inl (Sys.desk_application hs ?_ hdrop ?_))
    · rintro w a' rfl
      exact hdrive ⟨w, a', rfl⟩
    · rintro a' rfl
      exact hdriver ⟨a', rfl⟩
  · cases hs

-- ---------------------------------------------------------------------------
-- The backlog
-- ---------------------------------------------------------------------------

/-- What a pass has to see to: reports, completions, operations to resolve and
waiters to wake. -/
def World.backlog (w : World ws) : Nat :=
  w.inner.deferredReports.length + w.inner.ring.completions.length + w.inner.slab.payloads.length +
    w.inner.shutdownWaiters.length

namespace World

theorem backlog_congr (h : w'.inner = w.inner) : w'.backlog = w.backlog := by rw [backlog, backlog, h]

theorem backlog_le (hreports : w'.inner.deferredReports.length ≤ w.inner.deferredReports.length + k)
    (hcompletions : w'.inner.ring.completions = w.inner.ring.completions)
    (hidles : w.inner.Idles w'.inner) : w'.backlog ≤ w.backlog + k := by
  have hpayloads := (OpSlab.payloads_same hidles.payloadAt).length_eq
  have hwaiters := congrArg Prod.fst hidles.waiting
  dsimp only [DriverInner.waiting] at hwaiters
  rw [backlog, backlog, hcompletions, hpayloads, hwaiters]
  omega

theorem backlog_desk (hdesk : w'.desk = w.desk) (hidles : w.inner.Idles w'.inner) : w'.backlog ≤ w.backlog := by
  obtain ⟨hreports, hcompletions⟩ := Prod.mk.inj hdesk
  exact backlog_le (k := 0) (Nat.le_of_eq (congrArg List.length hreports)) hcompletions hidles

theorem waiters_pollShutdownAgain (w : World ws) (id : Nat) (waker : Waker) :
    (w.pollShutdownAgain id waker).inner.shutdownWaiters.length ≤ w.inner.shutdownWaiters.length + 1 := by
  simp only [pollShutdownAgain, emitAll_inner, setInner_inner]
  split
  · simp
  · simp

end World

theorem waiters_step (ha : (∃ waiter waker, a = .pollShutdown waiter waker) ∨ ∃ id, a = .dropShutdown id)
    (hs : s.step a = some s') :
    s'.world.inner.shutdownWaiters.length ≤ s.world.inner.shutdownWaiters.length + 1 := by
  rcases ha with ⟨waiter, waker, rfl⟩ | ⟨id, rfl⟩
  · rcases step_pollShutdown hs with ⟨rfl, -⟩ | ⟨hfree, ⟨-, rfl⟩ | ⟨-, ⟨-, rfl⟩ | ⟨id, -, -, rfl⟩⟩⟩
    · exact Nat.le_succ _
    · exact Nat.le_succ _
    · simp [World.pollShutdownFirst]
    · simp only [Sys.call, hfree, if_true]
      exact s.world.waiters_pollShutdownAgain id waker
  · rcases step_dropShutdown hs with ⟨-, rfl⟩ | ⟨hfree, rfl⟩
    · exact Nat.le_succ _
    · simp only [Sys.call, hfree, if_true, World.inner_dropShutdown]
      exact Nat.le_succ_of_le (List.length_filter_le ..)

theorem Drives.of_advance (hs : s.step (.advance answers) = some s') : Drives s s' (.advance answers) := by
  unfold Sys.step at hs
  split at hs
  · cases hs
  dsimp only at hs
  split at hs
  · cases hs
  · exact .advance hs

/-- Whatever else happens leaves the driver one thing more to see to, at most. -/
theorem backlog_step (hnone : NoneDescribed s.world.inner.slab) (hs : s.step a = some s')
    (hother : ¬ Drives s s' a) : s'.world.backlog ≤ s.world.backlog + 1 := by
  have hdesk := (desk_step hs).resolve_left hother
  have hsame : s'.world.desk = s.world.desk ∨ ∃ e outcome, a = .report e outcome :=
    hdesk.imp_right fun ⟨e, outcome, _, ha, _⟩ => ⟨e, outcome, ha⟩
  have hinner : s'.world.inner = s.world.inner → s'.world.backlog ≤ s.world.backlog + 1 :=
    fun h => Nat.le_succ_of_le (Nat.le_of_eq (World.backlog_congr h))
  cases step_deed hnone hs with
  | idled hworld _ _ =>
    rcases hdesk with hdesk | ⟨_, _, cqe, -, hdesk⟩
    · exact Nat.le_succ_of_le (World.backlog_desk hdesk hworld.inner)
    · obtain ⟨hreports, hcompletions⟩ := Prod.mk.inj hdesk
      have hpayloads := (OpSlab.payloads_same hworld.inner.payloadAt).length_eq
      have hwaiters := congrArg Prod.fst hworld.inner.waiting
      dsimp only [DriverInner.waiting, World.desk, DriverInner.desk] at hwaiters hreports hcompletions
      rw [World.backlog, World.backlog, hreports, hcompletions, hpayloads, hwaiters, List.length_append]
      simp only [List.length_singleton]
      omega
  | accepted hacc _ _ hwaiting =>
    obtain ⟨hreports, hcompletions⟩ := Prod.mk.inj (hsame.resolve_right (by rintro ⟨_, _, ⟨⟩⟩))
    have hpayloads := hacc.payloads.length_eq
    have hwaiters := congrArg Prod.fst hwaiting
    dsimp only [World.waiting, DriverInner.waiting, Sys.payloads] at hwaiters hpayloads
    rw [World.backlog, World.backlog, hreports, hcompletions, hpayloads, hwaiters, List.length_cons]
    omega
  | polled _ _ => exact hinner rfl
  | delivered _ _ => exact hinner (by simp)
  | @forgotten σ future refusal _ w detached _ hidles hworld _ _ _ _ =>
    have hinner : s'.world.inner = w.inner := by rw [hworld, World.inner_dropFutureRef, World.emit_inner]
    refine Nat.le_succ_of_le (World.backlog_desk (hsame.resolve_right (by rintro ⟨_, _, ⟨⟩⟩)) ?_)
    exact hinner ▸ hidles.inner
  | checkedOut _ _ => exact hinner rfl
  | filled _ => exact hinner rfl
  | handleDropped _ => exact hinner (by simp)
  | collectionCloned _ => exact hinner rfl
  | collectionDropped _ => exact hinner (by simp)
  | waited ha hworld _ _ =>
    obtain ⟨waiters, nextWaiterId, hwaits⟩ := hworld.inner
    have hlength := waiters_step ha hs
    rw [World.backlog, World.backlog]
    simp only [hwaits] at hlength ⊢
    omega
  | resolved _ _ _ _ _ => exact absurd (Drives.of_advance hs) hother
  | released _ _ _ => exact absurd (Drives.of_advance hs) hother

-- ---------------------------------------------------------------------------
-- What the driver's code still owes
-- ---------------------------------------------------------------------------

namespace Pc

/-- The calls the code is on its way to make. -/
def calls : Pc → Nat
  | .reaping _ _ wakers => wakers.length
  | .calling _ wakers reports _ | .released _ wakers reports => wakers.length + reports.length
  | _ => 0

/-- The steps to the end of the poll, calls and reaping apart, if nothing asks for
another pass. -/
def steps : Pc → Nat
  | .arming _ => 1
  | .disarming _ => 12
  | .reaping _ .pass _ => 10
  | .reaping _ (.drain _) _ => 6
  | .calling _ _ _ (.decide ..) => 8
  | .calling _ _ _ (.drained ..) => 3
  | .calling _ _ _ .finished => 1
  | .released .. => 2
  | _ => 0

/-- Whether the code may yet come to park. -/
def mayPark (pendingSubmit : Bool) : Pc → Bool
  | .reaping (.drive _) .pass _ => !pendingSubmit
  | .calling (.drive _) _ _ (.decide false false) => true
  | .arming _ | .disarming _ => true
  | _ => false

end Pc

namespace Sys

/-- The steps a nudge and a signal ask for. -/
def asked (s : Sys ws) : Nat :=
  (if s.world.inner.nudged then 5 else 0) + (if s.event.signalled then 12 else 0)

/-- What is asked of code that may yet come to park. -/
def prompts (s : Sys ws) : Nat := if s.pc.mayPark s.world.inner.pendingSubmit then s.asked else 0

/-- The steps the driver's own code still has before it. -/
def debt (s : Sys ws) : Nat := s.pc.steps + s.pc.calls + s.prompts + s.world.backlog

theorem asked_le (s : Sys ws) : s.asked ≤ 17 := by
  unfold asked
  split <;> split <;> omega

theorem prompts_le (s : Sys ws) : s.prompts ≤ s.asked := by
  unfold prompts
  split
  · exact Nat.le_refl _
  · exact Nat.zero_le _

end Sys

-- ---------------------------------------------------------------------------
-- Stretches of the driver's code
-- ---------------------------------------------------------------------------

theorem completions_submit (r : IoRing ws) (n : Nat) (a : SubmitAnswer ws) :
    (r.submit n a).1.completions = r.completions := by
  rcases r.submit_waiting n a with hsame | ⟨-, taken, hsub⟩
  · rw [hsame]
  · exact hsub.completions

namespace DriverInner

/-- A failed submission leaves a report, and nothing else does. -/
theorem desk_submitPending (d : DriverInner ws) (a : Answers ws) :
    (d.submitPending a).deferredReports.length ≤ d.deferredReports.length + 1 ∧
    (d.submitPending a).ring.completions = d.ring.completions := by
  unfold submitPending
  split
  · exact ⟨Nat.le_succ _, rfl⟩
  have hcompletions := completions_submit d.ring 0 { failure := a.submit, taken := fun _ => false }
  split
  · rename_i ring entries hsubmit
    rw [hsubmit] at hcompletions
    let submitted := { d with
      ring
      submissions := d.submissions + 1
      submittedEntries := d.submittedEntries + entries
      pendingSubmit := false
      submitFailures := 0
      slab := d.slab.promoteBuiltToSubmitted
      deferredCancels := [] }
    have hdesk :
        (({ submitted with deferredCancels := d.deferredCancels }).cancelAbandoned a).desk = submitted.desk :=
      (desk_issueCancels ..).trans (desk_issueCancels ..)
    obtain ⟨hreports, hring⟩ := Prod.mk.inj hdesk
    exact ⟨Nat.le_succ_of_le (Nat.le_of_eq (congrArg List.length hreports)), hring.trans hcompletions⟩
  · rename_i ring e hsubmit
    rw [hsubmit] at hcompletions
    simp only [noteSubmitFailure, report]
    split
    · exact ⟨Nat.le_of_eq List.length_append, hcompletions⟩
    · exact ⟨Nat.le_succ _, hcompletions⟩

/-- A cancellation nudges by leaving an entry to submit. -/
theorem nudged_issueCancel {b : Bool} (h : d.nudged = true → b = true ∨ d.pendingSubmit = true) (t : Token ws)
    (refusal : Option HResult) : (d.issueCancel t refusal).nudged = true →
      b = true ∨ (d.issueCancel t refusal).pendingSubmit = true := by
  unfold issueCancel
  split
  · exact h
  split
  · exact h
  split
  · exact h
  split
  · exact h
  split
  · exact h
  dsimp only
  split
  · exact h
  · exact fun _ => .inr rfl

/-- A pass does not ask for another but by leaving an entry to submit. -/
theorem nudged_submitPending (d : DriverInner ws) (a : Answers ws) : (d.submitPending a).nudged = true →
    d.nudged = true ∨ (d.submitPending a).pendingSubmit = true := by
  unfold submitPending
  split
  · exact .inl
  split
  · refine issueCancels_induction (P := fun d' => d'.nudged = true → d.nudged = true ∨ d'.pendingSubmit = true)
      (fun d' t refusal h => nudged_issueCancel h t refusal) ?_ _ _
    refine issueCancels_induction (P := fun d' => d'.nudged = true → d.nudged = true ∨ d'.pendingSubmit = true)
      (fun d' t refusal h => nudged_issueCancel h t refusal) ?_ _ _
    exact .inl
  · simp only [noteSubmitFailure]
    split
    · exact .inl
    · exact .inl

end DriverInner

theorem DriverInner.reportSlowDrain_eq (d : DriverInner ws) (steps : Nat) :
    ∃ reports, d.reportSlowDrain steps = { d with deferredReports := reports } ∧
      reports.length ≤ d.deferredReports.length + 1 := by
  unfold reportSlowDrain
  split
  · exact ⟨_, rfl, Nat.le_succ _⟩
  split
  · exact ⟨_, rfl, Nat.le_succ _⟩
  · exact ⟨_, rfl, Nat.le_of_eq List.length_append⟩

theorem World.desk_drainBegin (hnone : NoneDescribed w.inner.slab) (a : Answers ws) :
    (w.drainBegin a).1.inner.deferredReports.length ≤ w.inner.deferredReports.length + 1 ∧
    (w.drainBegin a).1.inner.ring.completions = w.inner.ring.completions := by
  have hunqueued : w.resolveUnqueued = (w, []) := by
    simp [World.resolveUnqueued, described_eq_nil hnone]
  simp only [World.drainBegin, hunqueued, World.setInner_inner]
  have hsubmit := w.inner.desk_submitPending a
  generalize w.inner.submitPending a = d at hsubmit
  have hdesk : (if d.shutdown.rank ≥ ShutdownMode.immediate.rank then
      d.issueCancels d.slab.submittedUncancelled a.drainCancel
    else
      d).desk = d.desk := by
    split
    · exact DriverInner.desk_issueCancels ..
    · rfl
  generalize (if d.shutdown.rank ≥ ShutdownMode.immediate.rank then
    d.issueCancels d.slab.submittedUncancelled a.drainCancel else d) = d' at hdesk
  obtain ⟨hreports, hcompletions⟩ := Prod.mk.inj hdesk
  rw [← hreports, ← hcompletions] at hsubmit
  split
  · exact ⟨hsubmit.1, (completions_submit ..).trans hsubmit.2⟩
  · exact hsubmit

/-- Teardown wakes at most the future of each operation and each waiter. -/
theorem World.length_release (w : World ws) :
    w.release.2.length ≤ w.inner.slab.payloads.length + w.inner.shutdownWaiters.length := by
  have hall : ∀ (ps : List OpPayload) (acc : World ws × List Waker), (ps.foldl (fun acc payload =>
      ((acc.1.resolveAbandoned payload).1, acc.2 ++ (acc.1.resolveAbandoned payload).2.toList)) acc).2.length ≤
        acc.2.length + ps.length := by
    intro ps
    induction ps with
    | nil => exact fun acc => Nat.le_refl _
    | cons p ps ih =>
      intro acc
      have hone : (acc.1.resolveAbandoned p).2.toList.length ≤ 1 := by
        cases (acc.1.resolveAbandoned p).2 <;> simp
      have hle := ih ((acc.1.resolveAbandoned p).1, acc.2 ++ (acc.1.resolveAbandoned p).2.toList)
      simp only [List.foldl_cons, List.length_append, List.length_cons] at hle ⊢
      omega
  have hresolved := hall w.inner.slab.payloads (w.setInner { w.inner with slab := w.inner.slab.drain.1 }, [])
  rw [← OpSlab.drain_eq_payloads] at hresolved ⊢
  simp only [World.release, inner_resolveAllAbandoned, List.length_append, List.length_map, World.setInner_inner]
  exact Nat.add_le_add_right (hresolved.trans (Nat.le_of_eq (Nat.zero_add _))) _

namespace Sys

theorem beginPass_debt (s : Sys ws) (w : Waker) (a : Answers ws) :
    (s.beginPass w a).debt ≤ 11 + s.asked + s.world.backlog := by
  obtain ⟨hreports, hcompletions⟩ := s.world.inner.desk_submitPending a
  have hbacklog : (s.beginPass w a).world.backlog ≤ s.world.backlog + 1 :=
    World.backlog_le hreports hcompletions (DriverInner.Idles.submitPending s.world.inner a)
  have hprompts : (s.beginPass w a).prompts ≤ s.asked := by
    have hnudged := s.world.inner.nudged_submitPending a
    simp only [prompts, asked, beginPass, driverStep, Pc.mayPark, World.setInner_inner]
    generalize s.world.inner.submitPending a = d at hnudged
    cases hpending : d.pendingSubmit with
    | true => exact Nat.zero_le _
    | false =>
      rw [hpending] at hnudged
      cases hd : d.nudged with
      | true =>
        simp only [Bool.not_false, if_true, (hnudged hd).resolve_right (by rintro ⟨⟩)]
        exact Nat.le_refl _
      | false =>
        simp only [Bool.not_false, if_true]
        exact Nat.add_le_add_right (Nat.zero_le _) _
  have hsteps : (s.beginPass w a).pc.steps + (s.beginPass w a).pc.calls = 10 := rfl
  rw [debt]
  omega

theorem beginDrain_debt (hnone : NoneDescribed s.world.inner.slab) (task : Task) (steps : Nat) (a : Answers ws) :
    (s.beginDrain task steps a).debt ≤ 7 + s.world.backlog := by
  have hdebt : (s.driverStep (s.world.drainBegin a).1 (.reaping task (.drain steps) [])).debt =
      6 + (s.world.drainBegin a).1.backlog := by cases task <;> rfl
  have hwakers : (s.world.drainBegin a).2 = [] := by
    simp [World.drainBegin, World.resolveUnqueued, described_eq_nil hnone]
  obtain ⟨hreports, hcompletions⟩ := s.world.desk_drainBegin hnone a
  have hbacklog := World.backlog_le hreports hcompletions (World.Idles.drainBegin hnone a).inner
  unfold beginDrain
  split
  · rw [debt]
    exact Nat.add_le_add (Nat.zero_le _) (Nat.le_refl _)
  · dsimp only
    rw [hwakers, hdebt]
    omega

/-- What a stretch of reaping leaves to do once it ends. -/
theorem endReaping_debt (s : Sys ws) (task : Task) (loop : Loop) (wakers : List Waker) :
    (s.endReaping task loop wakers).debt + 2 ≤ ({ s with pc := .reaping task loop wakers } : Sys ws).debt := by
  cases loop with
  | pass =>
    have hprompts : (s.endReaping task .pass wakers).prompts ≤
        ({ s with pc := .reaping task .pass wakers } : Sys ws).prompts := by
      cases task with
      | drop => exact Nat.zero_le _
      | drive w =>
        simp only [prompts, endReaping, freeStep, World.setInner_inner, DriverInner.takeReports]
        by_cases hshutdown : s.world.inner.shutdown = .running
        · cases hpending : s.world.inner.pendingSubmit with
          | true => simp [Pc.mayPark]
          | false => simp [Pc.mayPark, hshutdown, asked]
        · simp [Pc.mayPark, hshutdown]
    simp only [debt, World.backlog] at hprompts ⊢
    simp only [endReaping, freeStep, World.setInner_inner, DriverInner.takeReports, Pc.steps, Pc.calls,
      List.length_nil] at hprompts ⊢
    omega
  | drain steps =>
    obtain ⟨reports, heq, hreports⟩ := s.world.inner.reportSlowDrain_eq (min (steps + 1) u32Max)
    have hprompts : (s.endReaping task (.drain steps) wakers).prompts = 0 := by cases task <;> rfl
    rw [debt, hprompts, debt]
    simp only [World.backlog, endReaping, freeStep, World.setInner_inner, DriverInner.takeReports, Pc.steps, Pc.calls,
      List.length_nil, heq]
    omega

theorem parkPoll_debt (s : Sys ws) (w : Waker) : 1 + (s.parkPoll w).debt ≤ 8 + s.asked + s.world.backlog := by
  cases hnudged : s.world.inner.nudged with
  | true =>
    have hdebt : (s.parkPoll w).debt = 12 + (0 + if s.event.signalled then 12 else 0) + s.world.backlog := by
      unfold parkPoll
      dsimp only
      rw [if_pos hnudged]
      rfl
    rw [hdebt, asked, hnudged]
    simp only [if_true]
    omega
  | false =>
    have hdebt : (s.parkPoll w).debt = 1 + s.asked + s.world.backlog := by
      unfold parkPoll
      dsimp only
      rw [if_neg (by simp [hnudged])]
      rfl
    rw [hdebt]
    omega

theorem pollSignalled_debt (s : Sys ws) (w : Waker) :
    1 + (s.pollSignalled w).debt ≤ 1 + s.asked + s.world.backlog := by
  cases hsignalled : s.event.signalled with
  | true =>
    have hdebt : (s.pollSignalled w).debt = 12 + (if s.world.inner.nudged then 5 else 0) + s.world.backlog := by
      unfold pollSignalled
      dsimp only
      rw [if_pos hsignalled]
      rfl
    rw [hdebt, asked, hsignalled]
    simp only [if_true]
    omega
  | false =>
    have hdebt : (s.pollSignalled w).debt = s.world.backlog := by
      unfold pollSignalled
      dsimp only
      rw [if_neg (by simp [hsignalled])]
      exact Nat.zero_add _
    rw [hdebt]
    omega

theorem closing_debt (s : Sys ws) (task : Task) (a : Answers ws) :
    (s.closing task a).debt ≤ 2 + s.world.backlog := by
  unfold closing World.closeAndRelease
  cases hclose : World.closeLoop s.world.inner.ring a.closeFails closeAttempts with
  | none =>
    rw [debt]
    exact Nat.add_le_add (Nat.zero_le _) (Nat.le_refl _)
  | some ring =>
    obtain rfl := Moves.closeLoop_eq hclose
    let closed := s.world.setInner { s.world.inner with ring := { s.world.inner.ring with closed := true } }
    have hwakers : closed.release.2.length ≤
        s.world.inner.slab.payloads.length + s.world.inner.shutdownWaiters.length :=
      closed.length_release
    have hinner := closed.release_inner
    have hdebt : (s.driverStep (closed.release.1.setInner closed.release.1.inner.takeReports.1)
        (.released task closed.release.2 closed.release.1.inner.takeReports.2)).debt =
          2 + (closed.release.2.length + s.world.inner.deferredReports.length) +
            s.world.inner.ring.completions.length := by
      have hprompts : (s.driverStep (closed.release.1.setInner closed.release.1.inner.takeReports.1)
          (.released task closed.release.2 closed.release.1.inner.takeReports.2)).prompts = 0 := rfl
      rw [debt, hprompts]
      simp only [driverStep, World.backlog, World.setInner_inner, DriverInner.takeReports, hinner,
        OpSlab.payloads_drain, Pc.steps, Pc.calls, List.length_nil, Nat.add_zero, Nat.zero_add]
      rfl
    refine hdebt.trans_le ?_
    rw [World.backlog]
    omega

/-- A turn of the reaping loop ends it, or uses a completion up. -/
theorem reapOne_pays (w : World ws) (failure : Option HResult) :
    (w.reapOne failure).1.inner.nudged = w.inner.nudged ∧
    (w.reapOne failure).1.inner.pendingSubmit = w.inner.pendingSubmit ∧
    match (w.reapOne failure).2 with
    | none => (w.reapOne failure).1.backlog ≤ w.backlog + 1
    | some more => 1 + more.length + (w.reapOne failure).1.backlog ≤ w.backlog := by
  unfold World.reapOne
  split
  · refine ⟨rfl, rfl, ?_⟩
    simp only [World.backlog, World.setInner_inner, DriverInner.report, List.length_append, List.length_singleton]
    omega
  · exact ⟨rfl, rfl, Nat.le_succ _⟩
  rename_i ring cqe hpop
  obtain ⟨rest, hcompletions, rfl⟩ := IoRing.pop_some hpop
  dsimp only
  split
  · refine ⟨rfl, rfl, ?_⟩
    have hpayloads := (OpSlab.payloads_same (OpSlab.payloadAt_completeCancel w.inner.slab
      (Token.fromUserData cqe.userData))).length_eq
    simp only [World.backlog, World.setInner_inner, hcompletions, hpayloads, List.length_cons, List.length_nil]
    omega
  rename_i hkind
  replace hkind : cqe.token.kind = .operation := by
    cases hk : cqe.token.kind with
    | operation => rfl
    | cancel => exact absurd hk hkind
  split
  · refine ⟨rfl, rfl, ?_⟩
    simp only [World.backlog, World.setInner_inner, hcompletions, List.length_cons, List.length_nil]
    omega
  · rename_i slab payload hcomplete
    obtain ⟨op, hcell, rfl⟩ := OpSlab.complete_some hcomplete
    have hslab : slab = (w.inner.slab.complete cqe.token).1 := (congrArg Prod.fst hcomplete).symm
    have hperm := (OpSlab.payloads_remove hkind (OpSlab.payloadAt_of_cell hcell)
      (OpSlab.payloadAt_complete hkind hcell)).length_eq
    rw [← hslab, List.length_cons] at hperm
    let taken := w.setInner { w.inner with slab, ring := { w.inner.ring with completions := rest } }
    obtain ⟨_, _, _, _, _, hinner⟩ := taken.resolveCompletion_books op.payload cqe
    have hwaker : (taken.resolveCompletion op.payload cqe).2.toList.length ≤ 1 := by
      cases (taken.resolveCompletion op.payload cqe).2 <;> simp
    have hnudged : (taken.resolveCompletion op.payload cqe).1.inner.nudged = w.inner.nudged := by
      rw [hinner]
      rfl
    have hpending : (taken.resolveCompletion op.payload cqe).1.inner.pendingSubmit = w.inner.pendingSubmit := by
      rw [hinner]
      rfl
    refine ⟨hnudged, hpending, ?_⟩
    dsimp only
    have hbacklog : (taken.resolveCompletion op.payload cqe).1.backlog = taken.backlog := by
      rw [World.backlog, hinner]
      rfl
    rw [hbacklog]
    simp only [World.backlog, taken, World.setInner_inner, hcompletions, hperm, List.length_cons] at hwaker ⊢
    omega

-- ---------------------------------------------------------------------------
-- Every step pays
-- ---------------------------------------------------------------------------

theorem debt_of_pc {p : Pc} (hpc : s.pc = p) : s.debt = p.steps + p.calls +
    (if p.mayPark s.world.inner.pendingSubmit then s.asked else 0) + s.world.backlog := by
  subst hpc
  rfl

theorem debt_of_mayPark {p : Pc} (hpc : s.pc = p) (hpark : p.mayPark s.world.inner.pendingSubmit = true) :
    s.debt = p.steps + p.calls + s.asked + s.world.backlog := by
  rw [debt_of_pc hpc, if_pos hpark]

theorem le_debt {p : Pc} (hpc : s.pc = p) : p.steps + p.calls + s.world.backlog ≤ s.debt := by
  rw [debt_of_pc hpc]
  omega

/-- Whether the code is about to take another turn of the loop in `Drop`, which
waits for the platform and not for itself. -/
def turns (s : Sys ws) : Bool :=
  match s.pc with
  | .calling .drop [] [] (.drained _ .progressing) => true
  | _ => false

theorem yieldNow_debt (s : Sys ws) (w : Waker) (steps : Nat) :
    (s.yieldNow w .yieldedPass).debt = s.world.backlog ∧
    (s.yieldNow w (.yieldedDrain steps)).debt = s.world.backlog := ⟨Nat.zero_add _, Nat.zero_add _⟩

theorem resume_pays (hnone : NoneDescribed s.world.inner.slab) (hpc : s.pc = .calling task [] [] next)
    (hturn : s.turns = false) (a : Answers ws) : 1 + (s.resume task a next).debt ≤ s.debt := by
  have hle := le_debt hpc
  cases next with
  | decide shuttingDown retryOwed =>
    dsimp only [Pc.steps, Pc.calls, List.length_nil] at hle
    have hdrain := beginDrain_debt hnone task 0 a
    cases task with
    | drop =>
      dsimp only [resume]
      omega
    | drive w =>
      dsimp only [resume]
      cases shuttingDown with
      | true =>
        rw [if_pos rfl]
        omega
      | false =>
        cases retryOwed with
        | true =>
          rw [if_neg (by simp), if_pos rfl, (s.yieldNow_debt w 0).1]
          omega
        | false =>
          have hparks := s.parkPoll_debt w
          have hdebt := debt_of_mayPark hpc rfl
          dsimp only [Pc.steps, Pc.calls, List.length_nil] at hdebt
          rw [if_neg (by simp), if_neg (by simp)]
          omega
  | drained steps outcome =>
    dsimp only [Pc.steps, Pc.calls, List.length_nil] at hle
    have hclosing := s.closing_debt task a
    cases outcome with
    | progressing =>
      cases task with
      | drop =>
        rw [turns, hpc] at hturn
        cases hturn
      | drive w =>
        dsimp only [resume]
        rw [(s.yieldNow_debt w steps).2]
        omega
    | quiescent | unsubmittableResidue =>
      dsimp only [resume]
      omega
  | finished =>
    dsimp only [Pc.steps, Pc.calls, List.length_nil] at hle
    have hends : (s.resume task a .finished).debt = s.world.backlog := by
      cases task with
      | drop => exact Nat.zero_add _
      | drive w => exact Nat.zero_add _
    omega

/-- A waker woken or a report delivered is one call less. -/
theorem calling_pays (hpc : s.pc = .calling task wakers reports next) (hinner : w'.inner = s.world.inner)
    (hcalls : 1 + (wakers'.length + reports'.length) = wakers.length + reports.length) :
    1 + (s.freeStep w' (.calling task wakers' reports' next)).debt ≤ s.debt := by
  have hsteps : (Pc.calling task wakers' reports' next).steps = (Pc.calling task wakers reports next).steps := by
    cases next <;> rfl
  have hpark (b : Bool) : (Pc.calling task wakers' reports' next).mayPark b =
      (Pc.calling task wakers reports next).mayPark b := by
    cases task <;> rcases next with ⟨_ | _, _ | _⟩ | _ | _ <;> rfl
  have hasked : (s.freeStep w' (.calling task wakers' reports' next)).asked = s.asked := by
    rw [asked, asked, freeStep, hinner]
  have hbacklog : (s.freeStep w' (.calling task wakers' reports' next)).world.backlog = s.world.backlog :=
    World.backlog_congr hinner
  rw [debt_of_pc hpc, debt_of_pc (p := .calling task wakers' reports' next) rfl, hsteps, hpark, hasked, hbacklog]
  simp only [freeStep, hinner, Pc.calls]
  omega

/-- A step of the driver's own code pays for itself out of what it owes, but for a
turn of the loop in `Drop`. -/
theorem advance_pays (hnone : NoneDescribed s.world.inner.slab) (h : s.advance a = some s')
    (hturn : s.turns = false) : 1 + s'.debt ≤ s.debt := by
  unfold advance at h
  split at h
  · rename_i task loop wakers hpc
    obtain ⟨hnudged, hpending, hpays⟩ := reapOne_pays s.world a.pop
    have hdebt := debt_of_pc hpc
    split at h
    · rename_i world more hreap
      obtain rfl := Option.some.inj h
      rw [hreap] at hnudged hpending hpays
      dsimp only at hnudged hpending hpays
      have hsteps : (Pc.reaping task loop (wakers ++ more)).steps = (Pc.reaping task loop wakers).steps := by
        cases loop <;> rfl
      have hpark (b : Bool) : (Pc.reaping task loop (wakers ++ more)).mayPark b =
          (Pc.reaping task loop wakers).mayPark b := by
        cases task <;> cases loop <;> rfl
      have hasked : (s.driverStep world (.reaping task loop (wakers ++ more))).asked = s.asked := by
        rw [asked, asked, driverStep, hnudged]
      rw [debt_of_pc (p := .reaping task loop (wakers ++ more)) rfl, hsteps, hpark, hasked]
      simp only [driverStep, hpending, Pc.calls, List.length_append] at hdebt ⊢
      omega
    · rename_i world hreap
      obtain rfl := Option.some.inj h
      rw [hreap] at hnudged hpending hpays
      dsimp only at hnudged hpending hpays
      have hends := ({ s with world } : Sys ws).endReaping_debt task loop wakers
      rw [debt_of_pc (s := { s with world, pc := .reaping task loop wakers }) rfl] at hends
      simp only [asked, hnudged, hpending] at hends hdebt
      omega
  · rename_i task w rest reports next hpc
    obtain rfl := Option.some.inj h
    exact calling_pays hpc rfl (by simp only [List.length_cons]; omega)
  · rename_i task e rest next hpc
    obtain rfl := Option.some.inj h
    refine calling_pays hpc ?_ (by simp only [List.length_nil, List.length_cons]; omega)
    split
    · rfl
    · rfl
  · rename_i task next hpc
    exact Option.some.inj h ▸ resume_pays hnone hpc hturn a
  · rename_i w hpc
    obtain rfl := Option.some.inj h
    have hdebt := debt_of_mayPark hpc rfl
    have hpolls := s.pollSignalled_debt w
    dsimp only [Pc.steps, Pc.calls] at hdebt
    omega
  · rename_i w hpc
    obtain rfl := Option.some.inj h
    have hdebt := debt_of_mayPark hpc rfl
    have hpass := s.dropPark.beginPass_debt w a
    have hasked : s.dropPark.asked = s.asked := rfl
    have hbacklog : s.dropPark.world.backlog = s.world.backlog := rfl
    dsimp only [Pc.steps, Pc.calls] at hdebt
    omega
  · rename_i task wakers reports hpc
    obtain rfl := Option.some.inj h
    have hle := le_debt hpc
    have hdebt : (s.freeStep s.world (.calling task wakers reports .finished)).debt =
        1 + (wakers.length + reports.length) + s.world.backlog := by
      cases task <;> rfl
    dsimp only [Pc.steps, Pc.calls] at hle
    omega
  · cases h

-- ---------------------------------------------------------------------------
-- What brings more in
-- ---------------------------------------------------------------------------

/-- A step of the driver's own code. -/
def worked (_ : Sys ws) : Action ws → Nat
  | .advance _ => 1
  | _ => 0

/-- A step that may bring the driver's code more to do: anybody else's, and a turn of
the loop in `Drop`. -/
def fed (s : Sys ws) : Action ws → Nat
  | .advance _ => if s.turns then 1 else 0
  | _ => 1

theorem fed_of_ne (ha : ∀ answers, a ≠ .advance answers) : s.worked a = 0 ∧ s.fed a = 1 := by
  cases a with
  | advance answers => exact absurd rfl (ha answers)
  | _ => exact ⟨rfl, rfl⟩

theorem turn_debt (hnone : NoneDescribed s.world.inner.slab) (h : s.advance a = some s') (hturn : s.turns = true) :
    1 + s'.debt ≤ s.debt + 28 := by
  unfold turns at hturn
  split at hturn
  · rename_i steps hpc
    have hle := le_debt hpc
    have hdrain := beginDrain_debt hnone .drop steps a
    simp only [advance, hpc, resume, Option.some.injEq] at h
    subst h
    omega
  · cases hturn

/-- Whoever starts a stretch of the driver's code gives it a pass's work at most. -/
theorem begun_debt (hnone : NoneDescribed s.world.inner.slab) (hd : Drives s s' a)
    (ha : ∀ answers, a ≠ .advance answers) : s'.debt ≤ s.debt + 28 := by
  have hasked := s.asked_le
  have hbacklog : s.world.backlog ≤ s.debt := Nat.le_add_left ..
  cases hd with
  | advance h => exact absurd rfl (ha _)
  | @pollDrive w a h =>
    have hpass := s.beginPass_debt w a
    have hparks := s.parkPoll_debt w
    unfold pollDrive at h
    split at h
    · obtain rfl := Option.some.inj h
      omega
    · obtain rfl := Option.some.inj h
      omega
    · rename_i steps _
      have hdrain := beginDrain_debt hnone (.drive w) steps a
      obtain rfl := Option.some.inj h
      omega
    · obtain rfl := Option.some.inj h
      omega
    · cases h
  | dropDrive h =>
    unfold dropDrive at h
    have hrests : ({ s with pc := .idle } : Sys ws).debt = s.world.backlog := Nat.zero_add _
    have hparked : ({ s.dropPark with pc := .idle } : Sys ws).debt = s.world.backlog := Nat.zero_add _
    split at h
    · obtain rfl := Option.some.inj h
      omega
    · obtain rfl := Option.some.inj h
      omega
    · obtain rfl := Option.some.inj h
      omega
    · cases h
  | @dropDriver a h =>
    unfold dropDriver at h
    split at h
    · split at h
      · obtain rfl := Option.some.inj h
        have hrests : ({ s with pc := .dropped } : Sys ws).debt = s.world.backlog := Nat.zero_add _
        omega
      · obtain rfl := Option.some.inj h
        let escalated : Sys ws := { s with
          world := s.world.setInner { s.world.inner with shutdown := s.world.inner.shutdown.max .immediate } }
        have hdrain := beginDrain_debt (s := escalated) hnone .drop 0 a
        have hsame : escalated.world.backlog = s.world.backlog := rfl
        exact hdrain.trans (by omega)
    · cases h

/-- Every step costs the driver's code what it owes, or feeds it. -/
theorem step_debt (hnone : NoneDescribed s.world.inner.slab) (hs : s.step a = some s') :
    s.worked a + s'.debt ≤ s.debt + 28 * s.fed a := by
  by_cases hown : ∃ answers, a = .advance answers
  · obtain ⟨answers, rfl⟩ := hown
    cases Drives.of_advance hs with
    | advance h =>
      simp only [worked, fed]
      cases hturn : s.turns with
      | true => exact turn_debt hnone h hturn
      | false => exact advance_pays hnone h hturn
  have ha : ∀ answers, a ≠ .advance answers := fun answers h => hown ⟨answers, h⟩
  obtain ⟨hworked, hfed⟩ := fed_of_ne (s := s) ha
  rw [hworked, hfed]
  by_cases hd : Drives s s' a
  · have hbegun := begun_debt hnone hd ha
    omega
  · have hbacklog := backlog_step hnone hs hd
    have hprompts := s'.prompts_le
    have hasked := s'.asked_le
    have hdebt : s'.debt = s'.pc.steps + s'.pc.calls + s'.prompts + s'.world.backlog := rfl
    have hle := le_debt (s := s) rfl
    obtain ⟨-, hpc | hpc⟩ := (step_drives hs).resolve_left hd
    · rw [hpc] at hdebt
      omega
    · have hsteps : s'.pc.steps = 0 := by rw [hpc]; rfl
      have hcalls : s'.pc.calls = 0 := by rw [hpc]; rfl
      omega

end Sys

-- ---------------------------------------------------------------------------
-- A poll comes back
-- ---------------------------------------------------------------------------

namespace Pc

/-- A poll of the `drive` future is in the middle of its code. -/
def polls : Pc → Bool
  | .reaping (.drive _) .. | .calling (.drive _) .. | .released (.drive _) .. | .arming _ | .disarming _ => true
  | _ => false

/-- A poll has come back, unless the process was stopped. -/
def returned : Pc → Bool
  | .idle | .yieldedPass | .yieldedDrain _ | .parked | .halted => true
  | _ => false

end Pc

namespace Sys

/-- The code of a poll can take its next step, and has come back after it or is still
a poll's. -/
structure Polling (s : Sys ws) : Prop where
  lent : s.pc.polls = true → s.borrow ≠ .call
  within : s.pc.polls = true ∨ s.pc.returned = true

namespace Polling

theorem driverStep {p : Pc} (h : p.polls = true) : (s.driverStep w p).Polling :=
  ⟨fun _ => by rintro ⟨⟩, .inl h⟩

theorem freeStep {p : Pc} (h : p.polls = true ∨ p.returned = true) : (s.freeStep w p).Polling :=
  ⟨fun _ => by rintro ⟨⟩, h⟩

theorem halt (s : Sys ws) : s.halt.Polling := ⟨by rintro ⟨⟩, .inr rfl⟩

theorem beginDrain (s : Sys ws) (w : Waker) (steps : Nat) (a : Answers ws) :
    (s.beginDrain (.drive w) steps a).Polling := by
  unfold Sys.beginDrain
  split
  · exact freeStep (.inr rfl)
  · exact driverStep rfl

theorem closing (s : Sys ws) (w : Waker) (a : Answers ws) : (s.closing (.drive w) a).Polling := by
  unfold Sys.closing
  split
  · exact halt s
  · exact driverStep rfl

theorem parkPoll (s : Sys ws) (w : Waker) : (s.parkPoll w).Polling := by
  unfold Sys.parkPoll
  dsimp only
  split
  · exact freeStep (.inl rfl)
  · exact freeStep (.inl rfl)

theorem pollSignalled (s : Sys ws) (w : Waker) : (s.pollSignalled w).Polling := by
  unfold Sys.pollSignalled
  dsimp only
  split
  · exact freeStep (.inl rfl)
  · exact freeStep (.inr rfl)

theorem resume (s : Sys ws) (w : Waker) (a : Answers ws) (next : Resume) : (s.resume (.drive w) a next).Polling := by
  unfold Sys.resume
  split
  · dsimp only
    split
    · exact beginDrain ..
    split
    · exact freeStep (.inr rfl)
    · exact parkPoll ..
  · exact freeStep (.inr rfl)
  · exact closing ..
  · exact freeStep (.inr rfl)

theorem endReaping (s : Sys ws) (w : Waker) (loop : Loop) (wakers : List Waker) :
    (s.endReaping (.drive w) loop wakers).Polling := by
  cases loop with
  | pass => exact freeStep (.inl rfl)
  | drain steps => exact freeStep (.inl rfl)

/-- The code of a poll always has a next step. -/
theorem advance (hpolls : s.pc.polls = true) (a : Answers ws) : ∃ s', s.advance a = some s' ∧ s'.Polling := by
  unfold Pc.polls at hpolls
  split at hpolls
  · rename_i w loop wakers hpc
    cases hreap : s.world.reapOne a.pop with
    | mk world more =>
      cases more with
      | none =>
        exact ⟨_, by simp only [Sys.advance, hpc, hreap]; rfl, endReaping _ w loop wakers⟩
      | some more => exact ⟨_, by simp only [Sys.advance, hpc, hreap]; rfl, driverStep rfl⟩
  · rename_i w wakers reports next hpc
    cases wakers with
    | cons v rest => exact ⟨_, by simp only [Sys.advance, hpc]; rfl, freeStep (.inl rfl)⟩
    | nil =>
      cases reports with
      | cons e rest => exact ⟨_, by simp only [Sys.advance, hpc]; rfl, freeStep (.inl rfl)⟩
      | nil => exact ⟨_, by simp only [Sys.advance, hpc], resume s w a next⟩
  · rename_i hpc
    exact ⟨_, by simp only [Sys.advance, hpc]; rfl, freeStep (.inl rfl)⟩
  · rename_i w hpc
    exact ⟨_, by simp only [Sys.advance, hpc], pollSignalled s w⟩
  · rename_i w hpc
    exact ⟨_, by simp only [Sys.advance, hpc]; rfl, driverStep rfl⟩
  · cases hpolls

end Polling

theorem step_advance (hpolls : s.pc.polls = true) (hborrow : s.borrow ≠ .call) (a : Answers ws) :
    s.step (.advance a) = s.advance a := by
  unfold step
  split
  · rename_i hpc
    rw [hpc] at hpolls
    cases hpolls
  · exact if_neg hborrow

theorem turns_of_polls (hpc : s.pc.polls = true) : s.turns = false := by
  cases hturn : s.turns with
  | false => rfl
  | true =>
    unfold turns at hturn
    split at hturn
    · rename_i h
      rw [h] at hpc
      cases hpc
    · cases hturn

/-- A poll's next step is there to take, and pays. -/
theorem Polling.pays (a : Answers ws) (hi : (systemMachine ws).Reachable s ∧ s.Polling)
    (hpolls : s.pc.polls = true) : ∃ s', s.step (.advance a) = some s' ∧
      ((systemMachine ws).Reachable s' ∧ s'.Polling) ∧ 1 + s'.debt ≤ s.debt := by
  obtain ⟨s', h, hs'⟩ := Polling.advance hpolls a
  have hs : (systemMachine ws).step s (.advance a) = some s' := (step_advance hpolls (hi.2.lent hpolls) a).trans h
  refine ⟨s', hs, ⟨hi.1.next hs, hs'⟩, ?_⟩
  exact advance_pays (books_of_reachable hi.1).noneDescribed h (turns_of_polls hpolls)

end Sys

/-- In every run what the driver's code works is what it owed to begin with and what
it is fed: 28 steps at most for each step of anybody else, and for each turn of the
loop in `Drop`. And a poll of `drive` left to itself comes back within the steps it
owes, whatever the platform answers: neither a nudge nor a signal keeps it in its
loop. -/
theorem driver_work_bounded (hr : (systemMachine ws).Reachable s) :
    (∀ as t, (systemMachine ws).run s as = some t →
      (systemMachine ws).spent Sys.worked s as + t.debt ≤ s.debt + 28 * (systemMachine ws).spent Sys.fed s as) ∧
    (s.pc.polls = true → s.borrow ≠ .call → ∀ answers : Nat → Answers ws, ∃ n t, n ≤ s.debt ∧
      (systemMachine ws).run s ((List.range n).map fun i => .advance (answers i)) = some t ∧
      t.pc.returned = true) := by
  constructor
  · intro as t hrun
    refine Machine.spent_le (I := (systemMachine ws).Reachable) hrun hr fun s a s' hr hs => ⟨hr.next hs, ?_⟩
    exact Sys.step_debt (books_of_reachable hr).noneDescribed hs
  · intro hpc hborrow answers
    have hpolling : (systemMachine ws).Reachable s ∧ s.Polling := ⟨hr, fun _ => hborrow, .inl hpc⟩
    obtain ⟨n, t, hn, hrun, ⟨-, ht⟩, hends⟩ := Machine.exists_rest (m := systemMachine ws)
      (fun i => .advance (answers i)) hpolling fun s i => Sys.Polling.pays (answers i)
    exact ⟨n, t, hn, hrun, ht.within.resolve_left hends⟩

/-- A poll of `drive` that submits a read, meets its completion and parks. -/
def readMet : List (Action .w64) :=
  let e : Sqe .w64 := ⟨.read (.raw 3) (.raw 4096) 512 0, 2 ^ 17⟩
  [.execute e ⟨0, 512⟩, .report e ⟨0, 512⟩, .advance .willing, .advance .willing, .advance .willing,
    .advance .willing, .advance .willing, .advance .willing, .advance .willing, .advance .willing]

/-- Fed twice, and done well within what that allows. -/
theorem driver_work_bounded_met : ∃ s t : Sys .w64,
    (systemMachine .w64).run s readMet = some t ∧ t.pc = .parked ∧
    (systemMachine .w64).spent Sys.worked s readMet = 8 ∧ 8 + t.debt ≤ 16 + 28 * 2 ∧
    ∃ n u, n ≤ 16 ∧ (systemMachine .w64).run s ((List.range n).map fun _ => .advance .willing) = some u ∧
      u.pc.returned = true := by
  obtain ⟨s, t, hrun₀, hrun, hpc, hborrow, hdebt, hparked, hworked, hfed⟩ : ∃ s t : Sys .w64,
      (systemMachine .w64).run .new
        [.start (.read 3 (.owned ⟨4096, 512, 0⟩) 512 0) .willing, .poll 0 9, .pollDrive 7 .willing] = some s ∧
      (systemMachine .w64).run s readMet = some t ∧ s.pc.polls = true ∧ s.borrow = .driver ∧ s.debt = 16 ∧
      t.pc = .parked ∧ (systemMachine .w64).spent Sys.worked s readMet = 8 ∧
      (systemMachine .w64).spent Sys.fed s readMet = 2 :=
    ⟨_, _, rfl, rfl, rfl, rfl, rfl, rfl, rfl, rfl⟩
  obtain ⟨hwork, hpoll⟩ := driver_work_bounded (reachable_of_run hrun₀)
  have hbound := hwork readMet t hrun
  rw [hworked, hfed, hdebt] at hbound
  obtain ⟨n, u, hn, hback, hu⟩ := hpoll hpc (by rw [hborrow]; rintro ⟨⟩) fun _ => .willing
  exact ⟨s, t, hrun, hparked, hworked, hbound, n, u, hdebt ▸ hn, hback, hu⟩

end WinIoring.Runtime
