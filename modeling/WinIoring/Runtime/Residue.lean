import WinIoring.Runtime.Drain

/-!
# A ring that refuses

What a drain comes to once the platform owes nothing and takes nothing more.
Operations it never accepted are given up after a bounded number of refusals. A
cancellation it never accepted is not: its target's tombstone waits for a
completion nobody owes.
-/

namespace WinIoring.Runtime

open Slab

variable {ws : WordSize}

/-- The answers of a platform that refuses every submission and every
cancellation. -/
structure Answers.Refuses (a : Answers ws) : Prop where
  submit : a.submit ≠ none
  deferredCancel : ∀ t, a.deferredCancel t ≠ none
  detachedCancel : ∀ t, a.detachedCancel t ≠ none
  drainCancel : ∀ t, a.drainCancel t ≠ none
  wait : a.wait.failure ≠ none
  taken : ∀ e, a.wait.taken e = false

/-- What one drain step after another returns. -/
def World.drainSteps (w : World ws) : List (Answers ws) → List StepOutcome
  | [] => []
  | a :: answers =>
    let (w, _, outcome) := w.drainStep a
    outcome :: w.drainSteps answers

/-- Of `n` drain steps on a platform that refuses everything, one returns
something other than progressing. -/
def DrainsWithin (n : Nat) (w : World ws) : Prop :=
  ∀ answers : List (Answers ws), answers.length = n → (∀ a ∈ answers, a.Refuses) →
    ∃ outcome ∈ w.drainSteps answers, outcome ≠ .progressing

-- ---------------------------------------------------------------------------
-- What a refusal leaves
-- ---------------------------------------------------------------------------

namespace DriverInner

variable {d : DriverInner ws} {a : Answers ws}

/-- The driver holds the same operations and entries as before. -/
structure Holds (d d' : DriverInner ws) : Prop where
  slab : d'.slab = d.slab
  ring : d'.ring = d.ring
  pendingSubmit : d'.pendingSubmit = d.pendingSubmit
  submitFailures : d'.submitFailures = d.submitFailures

theorem Holds.issueCancels {d' : DriverInner ws} (h : d.Holds d') (ts : List (Token ws))
    {refusal : Token ws → Option HResult} (hrefused : ∀ t, refusal t ≠ none) :
    d.Holds (d'.issueCancels ts refusal) := by
  induction ts generalizing d' with
  | nil => exact h
  | cons t ts ih =>
    refine ih ?_
    rcases Moves.issueCancel_cases d' t (refusal t) with
      hsame | ⟨_, _, _, _, hsame⟩ | ⟨_, _, hnone, _⟩
    · exact ⟨hsame.slab.trans h.slab, hsame.ring.trans h.ring, hsame.pendingSubmit.trans h.pendingSubmit,
        hsame.submitFailures.trans h.submitFailures⟩
    · exact ⟨hsame.slab.trans h.slab, hsame.ring.trans h.ring, hsame.pendingSubmit.trans h.pendingSubmit,
        hsame.submitFailures.trans h.submitFailures⟩
    · exact absurd hnone (hrefused t)

/-- The driver with a refused submission counted, if it owed one. -/
def refused (d : DriverInner ws) : DriverInner ws :=
  { d with
    submitFailures := if d.pendingSubmit then min (d.submitFailures + 1) u32Max else d.submitFailures }

/-- A refused submission is counted and changes nothing else. -/
theorem submitPending_refused (hsubmit : a.submit ≠ none) : d.refused.Holds (d.submitPending a) := by
  unfold refused
  cases hpending : d.pendingSubmit with
  | false =>
    simp only [submitPending, hpending, Bool.not_false, if_true]
    exact ⟨rfl, rfl, hpending, rfl⟩
  | true =>
    rw [if_pos rfl, submitPending, if_neg (by simp [hpending])]
    split
    · rename_i hresult
      obtain ⟨hopen, -⟩ := IoRing.submit_ok (congrArg Prod.snd hresult)
      obtain ⟨hr, hr'⟩ := Option.ne_none_iff_exists'.mp hsubmit
      simp [IoRing.submit, IoRing.ensureOpen, hopen, hr'] at hresult
    · rename_i ring e hresult
      have hring := IoRing.submit_error (congrArg Prod.snd hresult)
      rw [hresult] at hring
      obtain rfl : ring = d.ring := hring
      simp only [noteSubmitFailure]
      split
      · exact ⟨rfl, rfl, hpending, rfl⟩
      · exact ⟨rfl, rfl, hpending, rfl⟩

end DriverInner

theorem IoRing.submit_refused {r : IoRing ws} {a : SubmitAnswer ws} (hfailure : a.failure ≠ none)
    (htaken : ∀ e, a.taken e = false) (n : Nat) : (r.submit n a).1 = r := by
  obtain ⟨hr, hfailure⟩ := Option.ne_none_iff_exists'.mp hfailure
  unfold IoRing.submit
  split
  · rfl
  · cases n with
    | zero => simp [hfailure]
    | succ n =>
      have hnone : r.queue.filter a.taken = [] := List.filter_eq_nil_iff.mpr fun e _ => by simp [htaken e]
      simp [hfailure, htaken, hnone]

namespace World

variable {w : World ws} {a : Answers ws}

/-- Up to its reaping, a refused drain step counts one more refusal. -/
theorem drainBegin_refused (hnone : NoneDescribed w.inner.slab) (ha : a.Refuses) :
    w.inner.refused.Holds (w.drainBegin a).1.inner := by
  have hsubmit := w.inner.submitPending_refused ha.submit
  have hbefore : w.inner.refused.Holds (w.beforeWait a).inner := by
    rw [beforeWait_inner hnone]
    split
    · exact hsubmit.issueCancels _ ha.drainCancel
    · exact hsubmit
  rw [drainBegin_eq]
  dsimp only [setInner_inner]
  split
  · refine ⟨hbefore.slab, ?_, hbefore.pendingSubmit, hbefore.submitFailures⟩
    exact (IoRing.submit_refused ha.wait ha.taken _).trans hbefore.ring
  · exact hbefore

/-- What reaping everything there is leaves. -/
structure Reaped (w w' : World ws) : Prop where
  completions : w'.inner.ring.completions = []
  queue : w'.inner.ring.queue = w.inner.ring.queue
  inflight : w'.inner.ring.inflight = w.inner.ring.inflight
  executed : w'.inner.ring.executed = w.inner.ring.executed
  closed : w'.inner.ring.closed = w.inner.ring.closed
  pendingSubmit : w'.inner.pendingSubmit = w.inner.pendingSubmit
  submitFailures : w'.inner.submitFailures = w.inner.submitFailures

/-- One turn of the loop on an open ring. -/
theorem reapOne_turn (hopen : w.inner.ring.closed = false) :
    w.inner.ring.completions = [] ∧ w.reapOne none = (w, none) ∨
    ∃ cqe rest w' more, w.inner.ring.completions = cqe :: rest ∧ w.reapOne none = (w', some more) ∧
      w'.inner.ring = { w.inner.ring with completions := rest } ∧
      w'.inner.pendingSubmit = w.inner.pendingSubmit ∧
      w'.inner.submitFailures = w.inner.submitFailures := by
  cases hring : w.inner.ring.completions with
  | nil => exact .inl ⟨rfl, by simp [reapOne, IoRing.popCompletion, IoRing.ensureOpen, hopen, hring]⟩
  | cons cqe rest =>
    have hpop : w.inner.ring.popCompletion none =
        ({ w.inner.ring with completions := rest }, .ok (some cqe)) := by
      simp [IoRing.popCompletion, IoRing.ensureOpen, hopen, hring]
    refine .inr ⟨cqe, rest, ?_⟩
    simp only [reapOne, hpop]
    split
    · exact ⟨_, _, trivial, rfl, rfl, rfl, rfl⟩
    split
    · exact ⟨_, _, trivial, rfl, rfl, rfl, rfl⟩
    · rename_i slab payload _
      obtain ⟨_, _, _, _, _, h⟩ := (w.setInner { w.inner with
        ring := { w.inner.ring with completions := rest }
        slab }).resolveCompletion_books payload cqe
      exact ⟨_, _, trivial, rfl, by rw [h]; rfl, by rw [h]; rfl, by rw [h]; rfl⟩

theorem reapLoop_reaped (hopen : w.inner.ring.closed = false) (wakers : List Waker) {n : Nat}
    (hlen : w.inner.ring.completions.length < n) : Reaped w (w.reapLoop wakers n).1 := by
  induction n generalizing w wakers with
  | zero => cases hlen
  | succ n ih =>
    unfold reapLoop
    rcases reapOne_turn hopen with ⟨hnil, heq⟩ | ⟨cqe, rest, w', more, hcons, heq, hring, hpending, hfailures⟩
    · rw [heq]
      exact ⟨hnil, rfl, rfl, rfl, rfl, rfl, rfl⟩
    · rw [heq]
      have hrest := ih (w := w') (by rw [hring]; exact hopen) (wakers ++ more) (by
        rw [hcons, List.length_cons] at hlen
        rw [hring]
        exact Nat.lt_of_succ_lt_succ hlen)
      refine ⟨hrest.completions, hrest.queue.trans ?_, hrest.inflight.trans ?_, hrest.executed.trans ?_,
        hrest.closed.trans ?_, hrest.pendingSubmit.trans hpending, hrest.submitFailures.trans hfailures⟩
      · rw [hring]
      · rw [hring]
      · rw [hring]
      · rw [hring]

end World

-- ---------------------------------------------------------------------------
-- One refused drain step
-- ---------------------------------------------------------------------------

variable {s : Sys ws} {a : Answers ws}

theorem Moves.reapLoop (hsealed : s.pc.sealed = false) (wakers : List Waker) (n : Nat) :
    Moves true s (s.withWorld (s.world.reapLoop wakers n).1) := by
  induction n generalizing s wakers with
  | zero => exact .refl
  | succ n ih =>
    have hreap := Moves.reapOne hsealed none
    unfold World.reapLoop
    split
    · rename_i hresult
      rw [hresult] at hreap
      exact hreap
    · rename_i w more hresult
      rw [hresult] at hreap
      exact hreap.trans (ih (s := s.withWorld w) hsealed (wakers ++ more))

/-- A driver in teardown whose platform owes it nothing but what the completion
queue holds. -/
structure Owed (s : Sys ws) : Prop where
  books : Books s
  pc : s.pc = .idle
  isOpen : s.world.inner.ring.closed = false
  inflight : s.world.inner.ring.inflight = []
  executed : s.world.inner.ring.executed = []

/-- What a refused drain step does. -/
structure Refused (s : Sys ws) (w : World ws) : Prop where
  owed : Owed (s.withWorld w)
  completions : w.inner.ring.completions = []
  queue : w.inner.ring.queue = s.world.inner.ring.queue
  pendingSubmit : w.inner.pendingSubmit = s.world.inner.pendingSubmit
  submitFailures : w.inner.submitFailures = s.world.inner.refused.submitFailures

theorem World.drainStep_world (w : World ws) (a : Answers ws) : (w.drainStep a).1 =
    ((w.drainBegin a).1.reapLoop [] ((w.drainBegin a).1.inner.ring.completions.length + 1)).1 := rfl

theorem Owed.drainStep (h : Owed s) (ha : a.Refuses) : Refused s (s.world.drainStep a).1 := by
  have hsealed : s.pc.sealed = false := by rw [h.pc]; rfl
  have hbegin := s.world.drainBegin_refused h.books.noneDescribed ha
  have hopen : (s.world.drainBegin a).1.inner.ring.closed = false :=
    (congrArg IoRing.closed hbegin.ring).trans h.isOpen
  have hreaped := World.reapLoop_reaped hopen [] (Nat.lt_add_one _)
  have hbegan : Moves true s (s.withWorld (s.world.drainBegin a).1) :=
    Moves.drainBegin hsealed h.books.noneDescribed a
  rw [World.drainStep_world]
  generalize (s.world.drainBegin a).1 = w at hbegin hopen hreaped hbegan ⊢
  have hsealed' : (s.withWorld w).pc.sealed = false := hsealed
  have hmoves : Moves true s (s.withWorld (w.reapLoop [] (w.inner.ring.completions.length + 1)).1) :=
    hbegan.trans (Moves.reapLoop hsealed' [] _)
  generalize (w.reapLoop [] (w.inner.ring.completions.length + 1)).1 = w' at hreaped hmoves ⊢
  refine ⟨⟨h.books.moves hmoves, h.pc, ?_, ?_, ?_⟩, hreaped.completions, ?_, ?_, ?_⟩
  · exact hreaped.closed.trans hopen
  · exact hreaped.inflight.trans ((congrArg IoRing.inflight hbegin.ring).trans h.inflight)
  · exact hreaped.executed.trans ((congrArg IoRing.executed hbegin.ring).trans h.executed)
  · exact hreaped.queue.trans (congrArg IoRing.queue hbegin.ring)
  · exact hreaped.pendingSubmit.trans hbegin.pendingSubmit
  · exact hreaped.submitFailures.trans hbegin.submitFailures

theorem Refused.owed_eq {w : World ws} (h : Refused s w) : w.inner.ring.owed = [] := by
  have hinflight : w.inner.ring.inflight = [] := h.owed.inflight
  have hexecuted : w.inner.ring.executed = [] := h.owed.executed
  simp [IoRing.owed, hinflight, hexecuted, h.completions]

theorem World.drainStep_outcome (w : World ws) (a : Answers ws) :
    (w.drainStep a).2.2 = (w.drainStep a).1.drainOutcome := by
  unfold drainStep
  generalize w.drainBegin a = begun
  obtain ⟨w, wakers⟩ := begun
  dsimp only

theorem World.drainSteps_cons (w : World ws) (a : Answers ws) (answers : List (Answers ws)) :
    w.drainSteps (a :: answers) =
      (w.drainStep a).1.drainOutcome :: (w.drainStep a).1.drainSteps answers := by
  have houtcome := w.drainStep_outcome a
  rw [drainSteps]
  generalize w.drainStep a = result at houtcome ⊢
  obtain ⟨w', wakers, outcome⟩ := result
  exact congrArg (· :: _) houtcome

/-- With no cancellation queued, the drain goes on only while submissions have
not been refused often enough. -/
theorem Refused.given_up {w : World ws} (h : Refused s w)
    (hqueue : ∀ t ∈ s.world.inner.ring.queued, t.kind = .operation)
    (hprogress : w.drainOutcome = .progressing) :
    w.inner.pendingSubmit = true ∧ w.inner.submitFailures < residueAttempts := by
  have hledger : Ledger w.inner.slab w.inner.ring w.inner.pendingSubmit := h.owed.books.ledger h.owed.isOpen
  have howed := h.owed_eq
  have hkernel : w.inner.slab.awaitingKernel = 0 := by
    refine OpSlab.awaitingKernel_eq_zero.mpr fun k => ⟨fun hc => ?_, fun op hc hlife => ?_⟩
    · obtain ⟨t, hkind, rfl⟩ := OpSlab.exists_token hc
      have hcancel := (hledger.cancel_iff t.toCancel (by simp)).mpr (by
        rw [Token.key_toCancel, hc]
        trivial)
      rw [howed, List.append_nil, IoRing.queued, h.queue] at hcancel
      cases (Token.kind_toCancel t).symm.trans (hqueue _ hcancel)
    · obtain ⟨t, hkind, rfl⟩ := OpSlab.exists_token hc
      have hmem := (hledger.owed_iff t hkind).mpr (by rw [hc]; exact hlife)
      rw [howed] at hmem
      cases hmem
  unfold World.drainOutcome at hprogress
  split at hprogress
  · cases hprogress
  rename_i houtstanding
  split at hprogress
  · cases hprogress
  rename_i hresidue
  refine ⟨?_, Nat.lt_of_not_le fun hle => hresidue ⟨hkernel, hle⟩⟩
  refine hledger.pending fun hnil => houtstanding (OpSlab.outstanding_eq_zero.mpr ?_)
  exact h.owed.books.empty howed fun _ => hnil

/-- With a cancellation queued the drain goes on. -/
theorem Refused.goes_on {w : World ws} (h : Refused s w) (ht : t ∈ s.world.inner.ring.queued)
    (hkind : t.kind = .cancel) : w.drainOutcome = .progressing := by
  have hledger : Ledger w.inner.slab w.inner.ring w.inner.pendingSubmit := h.owed.books.ledger h.owed.isOpen
  have hcancel : CancelOutstanding (w.inner.slab.cell t.key) := by
    refine (hledger.cancel_iff t hkind).mp (List.mem_append_left _ ?_)
    rw [IoRing.queued, h.queue]
    exact ht
  -- The target's own completion has been reaped: what is left is its tombstone.
  have htombstone : w.inner.slab.cell t.key = some .tombstone := by
    unfold CancelOutstanding at hcancel
    split at hcancel
    · rename_i c hc
      cases c with
      | tombstone => exact hc
      | live op =>
        obtain ⟨u, hukind, hukey⟩ := OpSlab.exists_token hc
        cases hlife : op.lifecycle with
        | described => exact absurd hlife (hledger.described _ op hc)
        | built => cases hcancel.symm.trans (hledger.built _ op hc hlife)
        | submitted =>
          have hmem := (hledger.owed_iff u hukind).mpr (by rw [hukey, hc]; exact hlife)
          rw [h.owed_eq] at hmem
          cases hmem
    · exact hcancel.elim
  unfold World.drainOutcome
  rw [if_neg, if_neg]
  · exact fun hresidue => (OpSlab.awaitingKernel_eq_zero.mp hresidue.1 _).1 htombstone
  · intro houtstanding
    cases htombstone.symm.trans (OpSlab.outstanding_eq_zero.mp houtstanding _)

-- ---------------------------------------------------------------------------
-- One after another
-- ---------------------------------------------------------------------------

/-- Each refusal counts, and eight are enough. -/
theorem Owed.drainsWithin (h : Owed s) (hqueue : ∀ t ∈ s.world.inner.ring.queued, t.kind = .operation)
    (answers : List (Answers ws)) (hne : answers ≠ [])
    (hlen : residueAttempts ≤ s.world.inner.submitFailures + answers.length)
    (hrefuses : ∀ a ∈ answers, a.Refuses) :
    ∃ outcome ∈ s.world.drainSteps answers, outcome ≠ .progressing := by
  induction answers generalizing s with
  | nil => exact absurd rfl hne
  | cons a answers ih =>
    have hstep := h.drainStep (hrefuses a List.mem_cons_self)
    rw [World.drainSteps_cons]
    generalize (s.world.drainStep a).1 = w at hstep ⊢
    by_cases hprogress : w.drainOutcome = .progressing
    · obtain ⟨hpending, hfew⟩ := hstep.given_up hqueue hprogress
      have hcounted : w.inner.submitFailures = s.world.inner.submitFailures + 1 := by
        have hfailures := hstep.submitFailures
        rw [DriverInner.refused, ← hstep.pendingSubmit, if_pos hpending] at hfailures
        simp only [residueAttempts, u32Max] at hfew hfailures
        omega
      rw [List.length_cons] at hlen
      obtain ⟨outcome, hmem, hdone⟩ : ∃ outcome ∈ w.drainSteps answers, outcome ≠ .progressing := by
        refine ih hstep.owed ?_ ?_ ?_ fun a' ha' => hrefuses a' (List.mem_cons_of_mem _ ha')
        · show ∀ t ∈ w.inner.ring.queued, t.kind = .operation
          rw [IoRing.queued, hstep.queue]
          exact hqueue
        · rintro rfl
          simp only [List.length_nil] at hlen
          omega
        · show residueAttempts ≤ w.inner.submitFailures + answers.length
          omega
      exact ⟨outcome, List.mem_cons_of_mem _ hmem, hdone⟩
    · exact ⟨_, List.mem_cons_self, hprogress⟩

/-- A queued cancellation keeps every drain step from ending the drain. -/
theorem Owed.progressing (h : Owed s) (ht : t ∈ s.world.inner.ring.queued) (hkind : t.kind = .cancel)
    (answers : List (Answers ws)) (hrefuses : ∀ a ∈ answers, a.Refuses) :
    ∀ outcome ∈ s.world.drainSteps answers, outcome = .progressing := by
  induction answers generalizing s with
  | nil => exact nofun
  | cons a answers ih =>
    have hstep := h.drainStep (hrefuses a List.mem_cons_self)
    rw [World.drainSteps_cons]
    generalize (s.world.drainStep a).1 = w at hstep ⊢
    intro outcome hmem
    rcases List.mem_cons.mp hmem with rfl | hmem
    · exact hstep.goes_on ht hkind
    · refine ih hstep.owed ?_ (fun a' ha' => hrefuses a' (List.mem_cons_of_mem _ ha')) outcome hmem
      show t ∈ w.inner.ring.queued
      rw [IoRing.queued, hstep.queue]
      exact ht

/-- A platform that refuses everything with the same error. -/
def Answers.refusing (hr : HResult) : Answers ws where
  submit := some hr
  deferredCancel _ := some hr
  detachedCancel _ := some hr
  drainCancel _ := some hr
  wait := { failure := some hr, taken := fun _ => false }
  pop := none
  closeFails := 0

theorem Answers.refuses_refusing (hr : HResult) : (Answers.refusing hr : Answers ws).Refuses :=
  ⟨nofun, fun _ => nofun, fun _ => nofun, fun _ => nofun, nofun, fun _ => rfl⟩

theorem Owed.not_drainsWithin (h : Owed s) (ht : t ∈ s.world.inner.ring.queued) (hkind : t.kind = .cancel)
    (n : Nat) : ¬ DrainsWithin n s.world := by
  intro hdrains
  have hrefuses : ∀ a ∈ List.replicate n (Answers.refusing submissionQueueFull : Answers ws), a.Refuses := by
    intro a ha
    rw [List.eq_of_mem_replicate ha]
    exact Answers.refuses_refusing _
  obtain ⟨outcome, hmem, hdone⟩ := hdrains _ List.length_replicate hrefuses
  exact hdone (h.progressing ht hkind _ hrefuses outcome hmem)

theorem owed_of_reachable (hr : (systemMachine ws).Reachable s) (htorn : s.world.inner.tornDown = false)
    (hinflight : s.world.inner.ring.inflight = []) (hexecuted : s.world.inner.ring.executed = []) :
    Owed { s with pc := .idle } where
  books := (books_of_reachable hr).congr rfl rfl rfl rfl rfl nofun nofun
  pc := rfl
  isOpen := (books_of_reachable hr).tornDown.symm.trans htorn
  inflight := hinflight
  executed := hexecuted

/-- From every reachable state before the end of teardown whose platform has
reported every entry it accepted, and refuses every submission and cancellation
from there: one of a bounded number of drain steps returns something other than
progressing exactly if no cancellation is queued, and then one of the first
eight does. -/
theorem drain_ends_iff (hr : (systemMachine ws).Reachable s) (htorn : s.world.inner.tornDown = false)
    (hinflight : s.world.inner.ring.inflight = []) (hexecuted : s.world.inner.ring.executed = []) :
    ((∃ n, DrainsWithin n s.world) ↔ ∀ t ∈ s.world.inner.ring.queued, t.kind = .operation) ∧
    ((∀ t ∈ s.world.inner.ring.queued, t.kind = .operation) →
      DrainsWithin residueAttempts s.world) := by
  have howed := owed_of_reachable hr htorn hinflight hexecuted
  have hends : (∀ t ∈ s.world.inner.ring.queued, t.kind = .operation) →
      DrainsWithin residueAttempts s.world := by
    intro hqueue answers hlen hrefuses
    refine howed.drainsWithin hqueue answers ?_ ?_ hrefuses
    · rintro rfl
      cases hlen
    · rw [hlen]
      exact Nat.le_add_left ..
  refine ⟨⟨?_, fun hqueue => ⟨_, hends hqueue⟩⟩, hends⟩
  rintro ⟨n, hdrains⟩ t ht
  cases hkind : t.kind with
  | operation => rfl
  | cancel => exact absurd hdrains (howed.not_drainsWithin ht hkind n)

/-- A flush that was never submitted is given up. -/
theorem drain_ends_unsubmitted : ∃ s : Sys .w64, s.world.inner.shutdown = .graceful ∧
    s.world.inner.slab.outstanding = 1 ∧ DrainsWithin residueAttempts s.world := by
  obtain ⟨s, hrun, hmode, houtstanding, htorn, hinflight, hexecuted, hqueue⟩ : ∃ s : Sys .w64,
      (systemMachine .w64).run .new [.start (.flush 3) .willing, .escalate .graceful] = some s ∧
      s.world.inner.shutdown = .graceful ∧ s.world.inner.slab.outstanding = 1 ∧
      s.world.inner.tornDown = false ∧ s.world.inner.ring.inflight = [] ∧
      s.world.inner.ring.executed = [] ∧ s.world.inner.ring.queued = [⟨2 ^ 17⟩] :=
    ⟨_, rfl, rfl, rfl, rfl, rfl, rfl, rfl⟩
  refine ⟨s, hmode, houtstanding, (drain_ends_iff (reachable_of_run hrun) htorn hinflight hexecuted).2 ?_⟩
  rw [hqueue]
  decide

/-- A flush reported after its cancellation was queued and before any submission
took it: the drain never ends. -/
theorem drain_never_ends : ∃ s : Sys .w64, (systemMachine .w64).Reachable s ∧
    s.world.inner.shutdown = .graceful ∧ s.world.inner.tornDown = false ∧
    s.world.inner.ring.inflight = [] ∧ s.world.inner.ring.executed = [] ∧
    ¬ ∃ n, DrainsWithin n s.world := by
  obtain ⟨s, hrun, hmode, htorn, hinflight, hexecuted, hqueue⟩ : ∃ s : Sys .w64,
      (systemMachine .w64).run .new
        [.start (.flush 3) .willing, .pollDrive 7 .willing, .advance .willing, .advance .willing,
          .cancel ⟨2 ^ 17⟩ none, .escalate .graceful, .execute ⟨.flush (.raw 3), 2 ^ 17⟩ ⟨0, 0⟩,
          .report ⟨.flush (.raw 3), 2 ^ 17⟩ ⟨0, 0⟩] = some s ∧
      s.world.inner.shutdown = .graceful ∧ s.world.inner.tornDown = false ∧
      s.world.inner.ring.inflight = [] ∧ s.world.inner.ring.executed = [] ∧
      s.world.inner.ring.queued = [⟨2 ^ 17 + 1⟩] :=
    ⟨_, rfl, rfl, rfl, rfl, rfl, rfl⟩
  have hr := reachable_of_run hrun
  have howed := owed_of_reachable hr htorn hinflight hexecuted
  refine ⟨s, hr, hmode, htorn, hinflight, hexecuted, ?_⟩
  rintro ⟨n, hdrains⟩
  exact howed.not_drainsWithin (t := ⟨2 ^ 17 + 1⟩) (hqueue ▸ List.mem_singleton_self _) (by decide) n hdrains

end WinIoring.Runtime
