import WinIoring.Runtime.Deferral
import WinIoring.Runtime.Gate
import WinIoring.Runtime.Waiters

/-!
# The end of the drain

Nothing enters the slab behind the shutdown gate, so a drain only has to hand
over what is queued and wait for what was accepted. Its first step leaves
nothing built; once the platform has reported the operations, nothing asks for
another cancellation; and once it has reported the cancellations, every slot is
free.
-/

namespace WinIoring.Runtime

open Slab

variable {ws : WordSize} {s s' : Sys ws}

-- ---------------------------------------------------------------------------
-- Nothing built, and nothing live
-- ---------------------------------------------------------------------------

def NoneBuilt (slab : OpSlab ws OpPayload) : Prop :=
  ∀ k op, slab.cell k = some (.live op) → op.lifecycle ≠ .built

def NoneLive (slab : OpSlab ws OpPayload) : Prop := ∀ k op, slab.cell k ≠ some (.live op)

theorem NoneLive.noneBuilt {slab : OpSlab ws OpPayload} (h : NoneLive slab) : NoneBuilt slab :=
  fun k op hop => absurd hop (h k op)

theorem Move.noneBuilt (h : Move b s s') (hnone : NoneBuilt s.world.inner.slab) :
    NoneBuilt s'.world.inner.slab := by
  intro k op' hop'
  obtain ⟨op, hop, -, ⟨hlife, -⟩ | ⟨hlife, -⟩⟩ := h.live hop'
  · rw [hlife]
    exact hnone k op hop
  · rw [hlife, Occupant.promote, if_neg (hnone k op hop)]
    exact hnone k op hop

/-- Only a live operation has a cancellation queued against it. -/
theorem Move.queue_subset (h : Move b s s') (hnone : NoneLive s.world.inner.slab) :
    ∀ e ∈ s'.world.inner.ring.queue, e ∈ s.world.inner.ring.queue := by
  intro e he
  cases h with
  | quiet hq => rwa [hq.world.inner.ring] at he
  | executed hring => rwa [← (IoRing.execute_books hring).queue]
  | reported hring => rwa [← (IoRing.report_books hring).queue]
  | cancelled _ _ _ hcell => exact absurd hcell (hnone _ _)
  | submitted _ _ hsub =>
    simp only [Sys.withInner, World.setInner_inner, hsub.queue] at he
    exact List.mem_of_mem_filter he
  | waited _ _ _ hsub =>
    simp only [Sys.withInner, World.setInner_inner, hsub.queue] at he
    exact List.mem_of_mem_filter he
  | resolved =>
    rw [Sys.withWorld, World.ring_resolveCompletion] at he
    exact he
  | released _ hclosed =>
    rw [Sys.withWorld, World.release_inner, hclosed] at he
    exact he
  | delivered =>
    rw [Sys.receive_world, World.inner_deliver] at he
    exact he
  | forgotten =>
    rw [World.inner_dropFutureRef] at he
    exact he
  | handleDropped =>
    rw [World.inner_dropHandle] at he
    exact he
  | _ => exact he

/-- What a step keeps behind the shutdown gate. -/
structure Winds (s s' : Sys ws) : Prop where
  live : ∀ k op', s'.world.inner.slab.cell k = some (.live op') →
    ∃ op, s.world.inner.slab.cell k = some (.live op)
  cells : ∀ k c', s'.world.inner.slab.cell k = some c' → ∃ c, s.world.inner.slab.cell k = some c
  noneBuilt : NoneBuilt s.world.inner.slab → NoneBuilt s'.world.inner.slab
  queue : NoneLive s.world.inner.slab →
    ∀ e ∈ s'.world.inner.ring.queue, e ∈ s.world.inner.ring.queue
  closed : s.world.inner.tornDown = true → s'.world.inner.tornDown = true

namespace Winds

theorem refl (s : Sys ws) : Winds s s :=
  ⟨fun _ op h => ⟨op, h⟩, fun _ c h => ⟨c, h⟩, id, fun _ _ => id, id⟩

theorem noneLive (h : Winds s s') (hnone : NoneLive s.world.inner.slab) :
    NoneLive s'.world.inner.slab := by
  intro k op' hop'
  obtain ⟨op, hop⟩ := h.live k op' hop'
  exact hnone k op hop

theorem next (h : Winds s s') (hm : Move b s' s'') : Winds s s'' where
  live k op'' hop'' := by
    obtain ⟨op', hop', -⟩ := hm.live hop''
    exact h.live k op' hop'
  cells k c'' hc'' := by
    obtain ⟨c', hc'⟩ := hm.cell hc''
    exact h.cells k c' hc'
  noneBuilt hnone := hm.noneBuilt (h.noneBuilt hnone)
  queue hnone e he := h.queue hnone e (hm.queue_subset (h.noneLive hnone) e he)
  closed htorn := hm.tornDown (h.closed htorn)

/-- An entry the platform owes is owed on a ring that is still open. -/
theorem isOpen (h : Winds s s') (hb : Books s) (hb' : Books s') {t : Token ws}
    (ht : t ∈ s'.world.inner.ring.owed) :
    s.world.inner.ring.closed = false ∧ s'.world.inner.ring.closed = false := by
  have hopen' : s'.world.inner.ring.closed = false := by
    cases hclosed : s'.world.inner.ring.closed with
    | false => rfl
    | true =>
      rw [(hb'.closed hclosed).1] at ht
      cases ht
  refine ⟨?_, hopen'⟩
  cases hclosed : s.world.inner.ring.closed with
  | false => rfl
  | true => cases (hb'.tornDown.symm.trans (h.closed (hb.tornDown.trans hclosed))).symm.trans hopen'

/-- With nothing built, no more operations are accepted. -/
theorem owed_operation (h : Winds s s') (hb : Books s) (hb' : Books s')
    (hnone : NoneBuilt s.world.inner.slab) {t : Token ws} (hkind : t.kind = .operation)
    (ht : t ∈ s'.world.inner.ring.owed) : t ∈ s.world.inner.ring.owed := by
  obtain ⟨hopen, hopen'⟩ := h.isOpen hb hb' ht
  have hsubmitted := ((hb'.ledger hopen').owed_iff t hkind).mp ht
  unfold IsSubmitted at hsubmitted
  split at hsubmitted
  · rename_i op' hop'
    obtain ⟨op, hop⟩ := h.live _ op' hop'
    refine ((hb.ledger hopen).owed_iff t hkind).mpr ?_
    rw [hop]
    cases hlife : op.lifecycle with
    | described => exact absurd hlife (hb.noneDescribed _ op hop)
    | built => exact absurd hlife (hnone _ op hop)
    | submitted => exact hlife
  · exact hsubmitted.elim

/-- With nothing live and nothing queued, nothing more is accepted. -/
theorem owed (h : Winds s s') (hb : Books s) (hb' : Books s') (hnone : NoneLive s.world.inner.slab)
    (hqueue : s.world.inner.ring.queue = []) {t : Token ws} (ht : t ∈ s'.world.inner.ring.owed) :
    t ∈ s.world.inner.ring.owed := by
  cases hkind : t.kind with
  | operation => exact h.owed_operation hb hb' hnone.noneBuilt hkind ht
  | cancel =>
    obtain ⟨hopen, hopen'⟩ := h.isOpen hb hb' ht
    have hcancel := ((hb'.ledger hopen').cancel_iff t hkind).mp (List.mem_append_right _ ht)
    unfold CancelOutstanding at hcancel
    split at hcancel
    · rename_i c' hc'
      -- What is outstanding against a tombstone was outstanding already.
      obtain ⟨c, hc⟩ := h.cells _ c' hc'
      have hpending : CancelOutstanding (s.world.inner.slab.cell t.key) := by
        rw [hc]
        cases c with
        | live op => exact absurd hc (hnone _ op)
        | tombstone => trivial
      have hmem := ((hb.ledger hopen).cancel_iff t hkind).mpr hpending
      rw [IoRing.queued, hqueue] at hmem
      exact hmem
    · exact hcancel.elim

end Winds

theorem Moves.winds (h : Moves b s s') : Winds s s' := by
  induction h with
  | refl => exact .refl s
  | tail _ hlast ih => exact ih.next hlast

theorem step_winds (hb : Books s) (hmode : s.world.inner.shutdown ≠ .running)
    (hs : s.step a = some s') : Winds s s' := by
  cases step_stride hb.noneDescribed hs with
  | moves hm _ => exact hm.winds
  | accepted _ ha => exact absurd ha.admitted.running hmode
  | setCursor heq =>
    subst heq
    exact ⟨fun _ op h => ⟨op, h⟩, fun _ c h => ⟨c, h⟩, id, fun _ _ => id, id⟩

-- ---------------------------------------------------------------------------
-- One drain step
-- ---------------------------------------------------------------------------

namespace Pc

/-- The code is inside a drain step. -/
def inDrain : Pc → Bool
  | .reaping _ (.drain _) _ => true
  | _ => false

/-- What a drain step that has just ended returned. -/
def outcome? : Pc → Option StepOutcome
  | .calling _ _ _ (.drained _ outcome) => some outcome
  | _ => none

end Pc

/-- A step in which a drain step returns. -/
structure Returns (s s' : Sys ws) (outcome : StepOutcome) : Prop where
  inDrain : s.pc.inDrain = true
  outcome : s'.pc.outcome? = some outcome

/-- The platform's answers to a step of the driver's code. -/
def Action.answers : Action ws → Option (Answers ws)
  | .advance a | .pollDrive _ a | .dropDriver a => some a
  | _ => none

/-- A step that begins a drain step, the mode perhaps raised just before. -/
structure Begins (s s' : Sys ws) (action : Action ws) (a : Answers ws) : Prop where
  answers : action.answers = some a
  world : ∃ shutdown, s'.world = ((s.world.setInner { s.world.inner with shutdown }).drainBegin a).1

theorem beginDrain_pc (h : (s.beginDrain task steps a).pc.inDrain = true) :
    (s.beginDrain task steps a).world = (s.world.drainBegin a).1 := by
  unfold Sys.beginDrain at h ⊢
  split at h
  · cases h
  · rfl

theorem resume_pc (h : (s.resume task a next).pc.inDrain = true) :
    (s.resume task a next).world = (s.world.drainBegin a).1 := by
  cases next with
  | decide shuttingDown retryOwed =>
    cases task with
    | drop => exact beginDrain_pc h
    | drive w =>
      simp only [Sys.resume] at h ⊢
      split at h
      · rename_i hshut
        rw [if_pos hshut]
        exact beginDrain_pc h
      split at h
      · cases h
      · unfold Sys.parkPoll at h
        dsimp only at h
        split at h <;> cases h
  | drained steps outcome =>
    have hclosing : (s.closing task a).pc.inDrain = false := by
      unfold Sys.closing
      split
      · rfl
      · rfl
    cases outcome with
    | progressing =>
      cases task with
      | drop => exact beginDrain_pc h
      | drive w => cases h
    | quiescent => cases hclosing.symm.trans h
    | unsubmittableResidue => cases hclosing.symm.trans h
  | finished => cases task <;> cases h

/-- A step enters a drain step only by beginning it. -/
theorem step_begins (hs : s.step a = some s') (hout : s.pc.inDrain = false)
    (hin : s'.pc.inDrain = true) : ∃ answers, Begins s s' a answers := by
  have hbegin : ∀ {a' : Answers ws}, a.answers = some a' → s'.world = (s.world.drainBegin a').1 →
      ∃ answers, Begins s s' a answers := fun h hworld => ⟨_, h, s.world.inner.shutdown, hworld⟩
  obtain hdrives | ⟨-, hpc | hpc⟩ := step_drives hs
  · clear hs
    cases hdrives with
    | @advance a hs =>
      unfold Sys.advance at hs
      split at hs
      · rename_i task loop wakers hpc
        rw [hpc] at hout
        split at hs
        · obtain rfl := Option.some.inj hs
          cases loop with
          | pass => cases hin
          | drain => cases hout
        · obtain rfl := Option.some.inj hs
          cases loop <;> cases hin
      · obtain rfl := Option.some.inj hs
        cases hin
      · obtain rfl := Option.some.inj hs
        cases hin
      · obtain rfl := Option.some.inj hs
        exact hbegin rfl (resume_pc hin)
      · obtain rfl := Option.some.inj hs
        unfold Sys.pollSignalled at hin
        dsimp only at hin
        split at hin <;> cases hin
      · obtain rfl := Option.some.inj hs
        cases hin
      · obtain rfl := Option.some.inj hs
        cases hin
      · cases hs
    | @pollDrive w a hs =>
      unfold Sys.pollDrive at hs
      split at hs
      · obtain rfl := Option.some.inj hs
        cases hin
      · obtain rfl := Option.some.inj hs
        cases hin
      · obtain rfl := Option.some.inj hs
        exact hbegin rfl (beginDrain_pc hin)
      · obtain rfl := Option.some.inj hs
        unfold Sys.parkPoll at hin
        dsimp only at hin
        split at hin <;> cases hin
      · cases hs
    | dropDrive hs =>
      unfold Sys.dropDrive at hs
      split at hs
      · obtain rfl := Option.some.inj hs
        cases hin
      · obtain rfl := Option.some.inj hs
        cases hin
      · obtain rfl := Option.some.inj hs
        cases hin
      · cases hs
    | @dropDriver a hs =>
      unfold Sys.dropDriver at hs
      split at hs
      · split at hs
        · obtain rfl := Option.some.inj hs
          cases hin
        · obtain rfl := Option.some.inj hs
          exact ⟨a, rfl, _, beginDrain_pc hin⟩
      · cases hs
  · rw [hpc] at hin
    cases hout.symm.trans hin
  · rw [hpc] at hin
    cases hin

/-- What a drain step returns is what its last state says. -/
theorem outcome_endReaping (s : Sys ws) (task : Task) (steps : Nat) (wakers : List Waker) :
    (s.endReaping task (.drain steps) wakers).pc.outcome? =
      some (s.endReaping task (.drain steps) wakers).world.drainOutcome := by
  have hsame : ∀ d : DriverInner ws, d.slab = s.world.inner.slab →
      d.submitFailures = s.world.inner.submitFailures →
      (s.world.setInner d).drainOutcome = s.world.drainOutcome := by
    intro d hslab hfailures
    simp only [World.drainOutcome, World.setInner_inner, hslab, hfailures]
  refine congrArg some (hsame _ ?_ ?_).symm
  · simp only [DriverInner.reportSlowDrain]
    split
    · rfl
    split
    · rfl
    · rfl
  · simp only [DriverInner.reportSlowDrain]
    split
    · rfl
    split
    · rfl
    · rfl

/-- A step inside a drain step stays there, stops for good, or is its return. -/
theorem step_inDrain (hs : s.step a = some s') (hin : s.pc.inDrain = true) :
    s'.pc.inDrain = true ∨ s'.pc = .halted ∨ Returns s s' s'.world.drainOutcome := by
  obtain hdrives | ⟨-, hpc | hpc⟩ := step_drives hs
  · clear hs
    unfold Pc.inDrain at hin
    split at hin
    · rename_i task steps wakers hpc
      cases hdrives with
      | advance hs =>
        unfold Sys.advance at hs
        rw [hpc] at hs
        dsimp only at hs
        split at hs
        · obtain rfl := Option.some.inj hs
          exact .inl rfl
        · obtain rfl := Option.some.inj hs
          refine .inr (.inr ⟨by rw [hpc]; rfl, ?_⟩)
          rw [outcome_endReaping]
      | pollDrive hs => simp [Sys.pollDrive, hpc] at hs
      | dropDrive hs => simp [Sys.dropDrive, hpc] at hs
      | dropDriver hs => simp [Sys.dropDriver, hpc] at hs
    · cases hin
  · exact .inl (hpc ▸ hin)
  · exact .inr (.inl hpc)

theorem Returns.eq_drainOutcome {outcome : StepOutcome} (h : Returns s s' outcome) (hs : s.step a = some s') :
    outcome = s'.world.drainOutcome := by
  have houtcome := h.outcome
  rcases step_inDrain hs h.inDrain with hin | hpc | hreturns
  · unfold Pc.inDrain at hin
    split at hin
    · rename_i hpc
      rw [hpc] at houtcome
      cases houtcome
    · cases hin
  · rw [hpc] at houtcome
    cases houtcome
  · exact Option.some.inj (houtcome.symm.trans hreturns.outcome)

-- ---------------------------------------------------------------------------
-- How a drain step begins
-- ---------------------------------------------------------------------------

theorem Ledger.noneBuilt {slab : OpSlab ws OpPayload} {ring : IoRing ws} {p : Bool} (h : Ledger slab ring p)
    (hqueue : ring.queue = []) : NoneBuilt slab := by
  intro k op hop hlife
  obtain ⟨t, hkind, rfl⟩ := OpSlab.exists_token hop
  have hqueued : t ∈ ring.queued := (h.queued_iff t hkind).mpr (by rw [hop]; exact hlife)
  rw [IoRing.queued, hqueue] at hqueued
  cases hqueued

namespace DriverInner

variable {d : DriverInner ws} {a : Answers ws}

theorem Asked.live (h : Asked c (some (.live op'))) :
    ∃ op, c = some (.live op) ∧ op'.lifecycle = op.lifecycle := by
  cases h with
  | same => exact ⟨op', rfl, rfl⟩
  | @requested op => exact ⟨op, rfl, rfl⟩

theorem noneBuilt_issueCancels (h : NoneBuilt d.slab) (ts : List (Token ws))
    (refusal : Token ws → Option HResult) : NoneBuilt (d.issueCancels ts refusal).slab := by
  refine issueCancels_induction (P := fun d => NoneBuilt d.slab) (fun d t refusal h k op' hop' => ?_) h ts
    refusal
  have hasked := (d.issueCancel_asked t refusal).2 k
  rw [hop'] at hasked
  obtain ⟨op, hop, hlife⟩ := hasked.live
  exact hlife ▸ h k op hop

/-- A submission that cannot fail leaves nothing built. -/
theorem noneBuilt_submitPending (hledger : Ledger d.slab d.ring d.pendingSubmit)
    (hopen : d.ring.closed = false) (hsubmit : a.submit = none) : NoneBuilt (d.submitPending a).slab := by
  cases hpending : d.pendingSubmit with
  | true =>
    intro k op' hop'
    have hasked := (handed_submitPending ⟨hpending, hopen, hsubmit⟩).cells k
    rw [hop', ← OpSlab.cell_promote] at hasked
    obtain ⟨op, hop, hlife⟩ := hasked.live
    exact hlife ▸ OpSlab.not_built_of_promote hop
  | false =>
    have hqueue : d.ring.queue = [] := by
      by_contra hne
      cases hpending.symm.trans (hledger.pending hne)
    simp only [submitPending, hpending, Bool.not_false, if_true]
    exact hledger.noneBuilt hqueue

/-- With nothing live there is nothing to cancel, and the queue stays empty. -/
theorem queue_issueCancels (hlive : NoneLive d.slab) (hqueue : d.ring.queue = []) (ts : List (Token ws))
    (refusal : Token ws → Option HResult) :
    NoneLive (d.issueCancels ts refusal).slab ∧ (d.issueCancels ts refusal).ring.queue = [] := by
  refine issueCancels_induction (P := fun d => NoneLive d.slab ∧ d.ring.queue = [])
    (fun d t refusal h => ?_) ⟨hlive, hqueue⟩ ts refusal
  rcases Moves.issueCancel_cases d t refusal with
    hsame | ⟨_, _, _, _, hsame⟩ | ⟨op, _, _, _, _, _, hcell, _, _, _, _, _⟩
  · rw [hsame.slab, hsame.ring]
    exact h
  · rw [hsame.slab, hsame.ring]
    exact h
  · exact absurd hcell (h.1 _ op)

/-- A submission that cannot fail empties the queue, once nothing is live. -/
theorem queue_submitPending (hledger : Ledger d.slab d.ring d.pendingSubmit)
    (hopen : d.ring.closed = false) (hsubmit : a.submit = none) (hlive : NoneLive d.slab) :
    NoneLive (d.submitPending a).slab ∧ (d.submitPending a).ring.queue = [] := by
  cases hpending : d.pendingSubmit with
  | true =>
    obtain ⟨d', htook, heq⟩ := submitPending_of_submits ⟨hpending, hopen, hsubmit⟩
    have hlive' : NoneLive d'.slab := by
      intro k op hop
      rw [htook.slab, OpSlab.cell_promote] at hop
      obtain ⟨c, hc, hpromote⟩ := Option.map_eq_some_iff.mp hop
      cases c with
      | live op => exact hlive k op hc
      | tombstone => cases hpromote
    have hqueue : d'.ring.queue = [] := by simp [htook.ring.queue]
    obtain ⟨hlive'', hqueue'⟩ := queue_issueCancels hlive' hqueue d.deferredCancels a.deferredCancel
    rw [heq]
    exact queue_issueCancels hlive'' hqueue' _ _
  | false =>
    simp only [submitPending, hpending, Bool.not_false, if_true]
    refine ⟨hlive, ?_⟩
    by_contra hne
    cases hpending.symm.trans (hledger.pending hne)

end DriverInner

namespace World

variable {w : World ws} {a : Answers ws}

theorem beforeWait_inner (hnone : NoneDescribed w.inner.slab) : (w.beforeWait a).inner =
    if w.inner.shutdown.rank ≥ ShutdownMode.immediate.rank then
      (w.inner.submitPending a).issueCancels (w.inner.submitPending a).slab.submittedUncancelled a.drainCancel
    else
      w.inner.submitPending a := by
  have hunqueued : w.resolveUnqueued = (w, []) := by
    simp [resolveUnqueued, described_eq_nil hnone]
  simp only [beforeWait, hunqueued, setInner_inner, DriverInner.shutdown_submitPending]

theorem slab_drainBegin (w : World ws) (a : Answers ws) :
    (w.drainBegin a).1.inner.slab = (w.beforeWait a).inner.slab := by
  rw [drainBegin_eq]
  dsimp only [setInner_inner]
  split
  · rfl
  · rfl

theorem noneBuilt_drainBegin (hledger : Ledger w.inner.slab w.inner.ring w.inner.pendingSubmit)
    (hopen : w.inner.ring.closed = false) (hsubmit : a.submit = none) :
    NoneBuilt (w.drainBegin a).1.inner.slab := by
  have hbuilt := DriverInner.noneBuilt_submitPending hledger hopen hsubmit
  rw [slab_drainBegin, beforeWait_inner hledger.described]
  split
  · exact DriverInner.noneBuilt_issueCancels hbuilt _ _
  · exact hbuilt

theorem queue_drainBegin (hledger : Ledger w.inner.slab w.inner.ring w.inner.pendingSubmit)
    (hopen : w.inner.ring.closed = false) (hsubmit : a.submit = none) (hlive : NoneLive w.inner.slab) :
    (w.drainBegin a).1.inner.ring.queue = [] := by
  obtain ⟨hlive', hqueue'⟩ := DriverInner.queue_submitPending hledger hopen hsubmit hlive
  have hqueue : (w.beforeWait a).inner.ring.queue = [] := by
    rw [beforeWait_inner hledger.described]
    split
    · exact (DriverInner.queue_issueCancels hlive' hqueue' _ _).2
    · exact hqueue'
  rw [drainBegin_eq]
  dsimp only [setInner_inner]
  split
  · rcases IoRing.submit_waiting (w.beforeWait a).inner.ring (w.beforeWait a).inner.slab.outstanding a.wait
      with hsame | ⟨-, taken, hsub⟩
    · exact (congrArg IoRing.queue hsame).trans hqueue
    · refine hsub.queue.trans ?_
      rw [hqueue]
      rfl
  · exact hqueue

end World

-- ---------------------------------------------------------------------------
-- Counting drain steps
-- ---------------------------------------------------------------------------

/-- How many drain steps have begun, and how many had when the platform accepted
an entry. -/
structure DrainLog (ws : WordSize) where
  begun : Nat
  acceptedAt : Token ws → Nat

def DrainLog.new : DrainLog ws := { begun := 0, acceptedAt := fun _ => 0 }

def Sys.noteDrain (s : Sys ws) (_ : Action ws) (s' : Sys ws) (log : DrainLog ws) : DrainLog ws :=
  let begun := if s'.pc.inDrain && !s.pc.inDrain then log.begun + 1 else log.begun
  { begun
    acceptedAt := fun t =>
      if t ∈ s'.world.inner.ring.owed ∧ t ∉ s.world.inner.ring.owed then begun else log.acceptedAt t }

/-- The system from one of its states, beside a count of the drain steps from
there. -/
def drainMachine (s₀ : Sys ws) : Machine (Sys ws × DrainLog ws) (Action ws) :=
  ((systemMachine ws).startingAt s₀).watch .new Sys.noteDrain

/-- A platform that works: it refuses no submission, and when a drain step
returns, the driver has been handed the report of every entry accepted `k` steps
before. What else it refuses does not matter. -/
structure Works (k : Nat) (p : Sys ws × DrainLog ws) (action : Action ws) : Prop where
  submit : ∀ a, action.answers = some a → a.submit = none
  reports : ∀ s' outcome, p.1.step action = some s' → Returns p.1 s' outcome →
    ∀ t ∈ s'.world.inner.ring.owed, p.2.begun < p.2.acceptedAt t + k

/-- How far a drain has got. Its first step leaves nothing built; step `k + 1`
leaves nothing live; the next empties the queue. -/
structure Progress (k : Nat) (s : Sys ws) (log : DrainLog ws) : Prop where
  mode : s.world.inner.shutdown ≠ .running
  accepted : ∀ t, log.acceptedAt t ≤ log.begun
  built : 1 ≤ log.begun → NoneBuilt s.world.inner.slab
  operations : ∀ t ∈ s.world.inner.ring.owed, t.kind = .operation → log.acceptedAt t ≤ 1
  live : k + 1 ≤ log.begun → s.pc.inDrain = false → s.pc ≠ .halted → NoneLive s.world.inner.slab
  stillNone : k + 2 ≤ log.begun → NoneLive s.world.inner.slab
  queue : k + 2 ≤ log.begun → s.world.inner.ring.closed = false → s.world.inner.ring.queue = []
  cancels : k + 2 ≤ log.begun → ∀ t ∈ s.world.inner.ring.owed, log.acceptedAt t ≤ k + 2

section

variable {log : DrainLog ws} {a : Action ws} {k : Nat}

theorem begun_noteDrain (s s' : Sys ws) (a : Action ws) (log : DrainLog ws) :
    (s.noteDrain a s' log).begun = log.begun + 1 ∧ s.pc.inDrain = false ∧ s'.pc.inDrain = true ∨
      (s.noteDrain a s' log).begun = log.begun ∧ (s'.pc.inDrain = true → s.pc.inDrain = true) := by
  unfold Sys.noteDrain
  cases s.pc.inDrain with
  | true => exact .inr ⟨by simp, fun _ => rfl⟩
  | false =>
    cases s'.pc.inDrain with
    | true => exact .inl ⟨rfl, rfl, rfl⟩
    | false => exact .inr ⟨rfl, nofun⟩

theorem acceptedAt_noteDrain {t : Token ws} (ht : t ∈ s.world.inner.ring.owed) :
    (s.noteDrain a s' log).acceptedAt t = log.acceptedAt t := if_neg fun h => h.2 ht

theorem acceptedAt_le_noteDrain (h : ∀ t, log.acceptedAt t ≤ log.begun) (t : Token ws) :
    (s.noteDrain a s' log).acceptedAt t ≤ (s.noteDrain a s' log).begun := by
  have hbegun : log.begun ≤ (s.noteDrain a s' log).begun := by
    rcases begun_noteDrain s s' a log with ⟨heq, -⟩ | ⟨heq, -⟩ <;> omega
  by_cases hnew : t ∈ s'.world.inner.ring.owed ∧ t ∉ s.world.inner.ring.owed
  · exact Nat.le_of_eq (if_pos hnew)
  · have heq : (s.noteDrain a s' log).acceptedAt t = log.acceptedAt t := if_neg hnew
    rw [heq]
    exact (h t).trans hbegun

/-- A drain step whose submission succeeds leaves nothing built, and nothing
queued if nothing was live. -/
theorem Begins.spec {answers : Answers ws} (h : Begins s s' a answers) (hsubmit : answers.submit = none) (hb : Books s)
    (hb' : Books s') (hw : Winds s s') : NoneBuilt s'.world.inner.slab ∧
      (NoneLive s.world.inner.slab → s'.world.inner.ring.closed = false →
        s'.world.inner.ring.queue = []) := by
  obtain ⟨shutdown, hworld⟩ := h.world
  cases hclosed : s.world.inner.ring.closed with
  | false =>
    have hledger := hb.ledger hclosed
    rw [hworld]
    exact ⟨World.noneBuilt_drainBegin hledger hclosed hsubmit,
      fun hlive _ => World.queue_drainBegin hledger hclosed hsubmit hlive⟩
  | true =>
    have hclosed' := hb'.tornDown.symm.trans (hw.closed (hb.tornDown.trans hclosed))
    refine ⟨fun k op hop => ?_, fun _ hopen => ?_⟩
    · cases ((hb'.closed hclosed').2 k).symm.trans hop
    · cases hclosed'.symm.trans hopen

/-- An operation nobody owes a completion for is not there. -/
theorem Books.noneLive (hb : Books s) (hnone : NoneBuilt s.world.inner.slab)
    (howed : ∀ t ∈ s.world.inner.ring.owed, t.kind ≠ .operation) : NoneLive s.world.inner.slab := by
  intro k op hop
  cases hclosed : s.world.inner.ring.closed with
  | true => cases ((hb.closed hclosed).2 k).symm.trans hop
  | false =>
    obtain ⟨t, hkind, rfl⟩ := OpSlab.exists_token hop
    refine howed t (((hb.ledger hclosed).owed_iff t hkind).mpr ?_) hkind
    rw [hop]
    cases hlife : op.lifecycle with
    | described => exact absurd hlife (hb.noneDescribed _ op hop)
    | built => exact absurd hlife (hnone _ op hop)
    | submitted => exact hlife

/-- Every step of a working platform's keeps the drain's progress. -/
theorem Progress.step (hb : Books s) (hb' : Books s') (h : Progress k s log) (hok : Works k (s, log) a)
    (hs : s.step a = some s') : Progress k s' (s.noteDrain a s' log) := by
  have hw := step_winds hb h.mode hs
  have hnew : ∀ t, (s.noteDrain a s' log).acceptedAt t ≤ (s.noteDrain a s' log).begun :=
    acceptedAt_le_noteDrain h.accepted
  have hbegun := begun_noteDrain s s' a log
  have hrunning : s.pc ≠ .halted := by
    intro hpc
    simp [Sys.step, hpc] at hs
  have hbegins : s.pc.inDrain = false → s'.pc.inDrain = true → NoneBuilt s'.world.inner.slab ∧
      (NoneLive s.world.inner.slab → s'.world.inner.ring.closed = false →
        s'.world.inner.ring.queue = []) := by
    intro hout hin
    obtain ⟨answers, hbegin⟩ := step_begins hs hout hin
    exact hbegin.spec (hok.submit answers hbegin.answers) hb hb' hw
  have hbuilt : 1 ≤ (s.noteDrain a s' log).begun → NoneBuilt s'.world.inner.slab := by
    intro hle
    rcases hbegun with ⟨-, hout, hin⟩ | ⟨heq, -⟩
    · exact (hbegins hout hin).1
    · exact hw.noneBuilt (h.built (heq ▸ hle))
  have hoperations : ∀ t ∈ s'.world.inner.ring.owed, t.kind = .operation →
      (s.noteDrain a s' log).acceptedAt t ≤ 1 := by
    intro t ht hkind
    by_cases hfirst : 1 ≤ log.begun
    · have howed := hw.owed_operation hb hb' (h.built hfirst) hkind ht
      rw [acceptedAt_noteDrain howed]
      exact h.operations t howed hkind
    · have := hnew t
      rcases hbegun with ⟨heq, -⟩ | ⟨heq, -⟩ <;> omega
  -- Nothing was live already where the count reaches `k + 2`.
  have hsettled : k + 2 ≤ (s.noteDrain a s' log).begun → NoneLive s.world.inner.slab := by
    intro hle
    rcases hbegun with ⟨heq, hout, -⟩ | ⟨heq, -⟩
    · exact h.live (by omega) hout hrunning
    · exact h.stillNone (heq ▸ hle)
  refine ⟨?_, hnew, hbuilt, hoperations, ?_, fun hle => hw.noneLive (hsettled hle), ?_, ?_⟩
  · obtain ⟨hrank, -⟩ := step_gate hb hs
    intro hrun
    rw [hrun] at hrank
    cases hm : s.world.inner.shutdown with
    | running => exact h.mode hm
    | _ => rw [hm] at hrank; exact absurd hrank (by decide)
  · intro hle hout' hrunning'
    rcases hbegun with ⟨-, -, hin⟩ | ⟨heq, -⟩
    · cases hout'.symm.trans hin
    rw [heq] at hle
    cases hin : s.pc.inDrain with
    | false => exact hw.noneLive (h.live hle hin hrunning)
    | true =>
      rcases step_inDrain hs hin with hin' | hhalted | hreturns
      · cases hout'.symm.trans hin'
      · exact absurd hhalted hrunning'
      refine hb'.noneLive (hbuilt (by omega)) fun t ht hkind => ?_
      have howed := hw.owed_operation hb hb' (h.built (by omega)) hkind ht
      have hlate := hok.reports s' _ hs hreturns t ht
      have := h.operations t howed hkind
      simp only at hlate
      omega
  · intro hle hopen
    rcases hbegun with ⟨heq, hout, hin⟩ | ⟨heq, -⟩
    · exact (hbegins hout hin).2 (hsettled hle) hopen
    · have hopen₀ : s.world.inner.ring.closed = false := by
        cases hclosed : s.world.inner.ring.closed with
        | false => rfl
        | true =>
          cases (hb'.tornDown.symm.trans (hw.closed (hb.tornDown.trans hclosed))).symm.trans hopen
      refine List.eq_nil_iff_forall_not_mem.mpr fun e he => ?_
      have hmem := hw.queue (hsettled hle) e he
      rw [h.queue (heq ▸ hle) hopen₀] at hmem
      cases hmem
  · intro hle t ht
    by_cases hlast : k + 2 ≤ log.begun
    · have hqueue := h.queue hlast (hw.isOpen hb hb' ht).1
      have howed := hw.owed hb hb' (h.stillNone hlast) hqueue ht
      rw [acceptedAt_noteDrain howed]
      exact h.cancels hlast t howed
    · have := hnew t
      rcases hbegun with ⟨heq, -⟩ | ⟨heq, -⟩ <;> omega

end

-- ---------------------------------------------------------------------------
-- The drain finishes
-- ---------------------------------------------------------------------------

theorem progress_of_reachable (hr : (systemMachine ws).Reachable s₀)
    (hmode : s₀.world.inner.shutdown ≠ .running) (h : (drainMachine s₀).ReachableBy (Works k) p) :
    Progress k p.1 p.2 := by
  refine h.invariant_watch (fun s hs => ?_) fun s log a s' hreach hi hok hs => ?_
  · obtain rfl : s = s₀ := hs
    exact ⟨hmode, fun _ => le_refl _, nofun, fun _ _ _ => Nat.zero_le 1, nofun, nofun, nofun, nofun⟩
  · have hreach := hr.of_startingAt hreach
    exact hi.step (books_of_reachable hreach) (books_of_reachable (hreach.next hs)) hok hs

/-- With nothing owed and nothing queued, no slot is in use. -/
theorem Books.empty (hb : Books s) (howed : s.world.inner.ring.owed = [])
    (hqueue : s.world.inner.ring.closed = false → s.world.inner.ring.queue = []) (k : Key) :
    s.world.inner.slab.cell k = none := by
  cases hclosed : s.world.inner.ring.closed with
  | true => exact (hb.closed hclosed).2 k
  | false =>
    have hledger := hb.ledger hclosed
    have hlive := hb.noneLive (hledger.noneBuilt (hqueue hclosed)) (by simp [howed])
    cases hc : s.world.inner.slab.cell k with
    | none => rfl
    | some c =>
      cases c with
      | live op => exact absurd hc (hlive k op)
      | tombstone =>
        obtain ⟨t, hkind, rfl⟩ := OpSlab.exists_token hc
        have hcancel := (hledger.cancel_iff t.toCancel (by simp)).mpr (by
          rw [Token.key_toCancel, hc]
          trivial)
        simp [IoRing.queued, hqueue hclosed, howed] at hcancel

/-- With nothing built, every slot in use waits for the platform. -/
theorem outcome_of_noneBuilt (hb : Books s) (hnone : NoneBuilt s.world.inner.slab) :
    s.world.drainOutcome ≠ .unsubmittableResidue := by
  unfold World.drainOutcome
  split
  · nofun
  rename_i houtstanding
  split
  · rename_i hresidue
    have hkernel := OpSlab.awaitingKernel_eq_zero.mp hresidue.1
    refine absurd (OpSlab.outstanding_eq_zero.mpr fun k => ?_) houtstanding
    cases hc : s.world.inner.slab.cell k with
    | none => rfl
    | some c =>
      cases c with
      | tombstone => exact absurd hc (hkernel k).1
      | live op =>
        cases hlife : op.lifecycle with
        | described => exact absurd hlife (hb.noneDescribed k op hc)
        | built => exact absurd hlife (hnone k op hc)
        | submitted => exact absurd hlife ((hkernel k).2 op hc)
  · nofun

/-- A turn of the reaping loop that goes on has taken one completion. -/
theorem World.completions_reapOne {w w' : World ws} {failure : Option HResult}
    (h : w.reapOne failure = (w', some more)) :
    w.inner.ring.completions.length = w'.inner.ring.completions.length + 1 := by
  unfold reapOne at h
  split at h
  · cases h
  · cases h
  rename_i ring cqe hpop
  obtain ⟨rest, hring, rfl⟩ := IoRing.pop_some hpop
  rw [hring, List.length_cons]
  dsimp only at h
  split at h
  · obtain ⟨rfl, -⟩ := Prod.mk.inj h
    rfl
  split at h
  · obtain ⟨rfl, -⟩ := Prod.mk.inj h
    rfl
  · obtain ⟨rfl, -⟩ := Prod.mk.inj h
    rw [World.ring_resolveCompletion]
    rfl

/-- Left to itself a drain step returns, having reaped what there is. -/
theorem returns_of_advance (hin : s.pc.inDrain = true) (hborrow : s.borrow ≠ .call)
    (answers : List (Answers ws)) (hlen : s.world.inner.ring.completions.length < answers.length) :
    ∃ before a after s₁ s₂ outcome, answers = before ++ a :: after ∧
      (systemMachine ws).run s (before.map .advance) = some s₁ ∧ s₁.step (.advance a) = some s₂ ∧
      Returns s₁ s₂ outcome := by
  induction answers generalizing s with
  | nil => cases hlen
  | cons a answers ih =>
    have hpc : ∃ task steps wakers, s.pc = .reaping task (.drain steps) wakers := by
      unfold Pc.inDrain at hin
      split at hin
      · exact ⟨_, _, _, ‹_›⟩
      · cases hin
    obtain ⟨task, steps, wakers, hpc⟩ := hpc
    have hstep : s.step (.advance a) = s.advance a := by simp only [Sys.step, hpc, if_neg hborrow]
    cases hreap : s.world.reapOne a.pop with
    | mk world more =>
      cases more with
      | some more =>
        have hnext : s.step (.advance a) =
            some (s.driverStep world (.reaping task (.drain steps) (wakers ++ more))) := by
          simp only [hstep, Sys.advance, hpc, hreap]
        have hcompletions := World.completions_reapOne hreap
        obtain ⟨before, a', after, s₁, s₂, outcome, heq, hrun, hs, hreturns⟩ :=
          ih (s := s.driverStep world (.reaping task (.drain steps) (wakers ++ more))) rfl (by rintro ⟨⟩)
            (by simp only [Sys.driverStep]; simp only [List.length_cons] at hlen; omega)
        refine ⟨a :: before, a', after, s₁, s₂, outcome, by rw [heq]; rfl, ?_, hs, hreturns⟩
        exact Machine.run_cons.mpr ⟨_, hnext, hrun⟩
      | none =>
        have hnext : s.step (.advance a) =
            some ({ s with world : Sys ws }.endReaping task (.drain steps) wakers) := by
          simp only [hstep, Sys.advance, hpc, hreap]
        exact ⟨[], a, answers, s, _, _, rfl, rfl, hnext, by rw [hpc]; rfl, outcome_endReaping ..⟩

/-- From every reachable state in teardown, on a platform that works: no drain
step begun from there gives up; one with at least `2 * k + 1` before it returns
quiescent, with every slot vacant or retired; each returns once it has reaped
what there is; and one that returns progressing is followed by another. -/
theorem drain_finishes (hr : (systemMachine ws).Reachable s₀)
    (hmode : s₀.world.inner.shutdown ≠ .running)
    (h : (drainMachine s₀).ReachableBy (Works k) (s, log)) :
    (∀ a s' outcome, Works k (s, log) a → s.step a = some s' → Returns s s' outcome → 1 ≤ log.begun →
      outcome ≠ .unsubmittableResidue ∧
      (2 * k + 2 ≤ log.begun → outcome = .quiescent ∧ ∀ slot ∈ s'.world.inner.slab.raw.slots,
        slot.state = .retired ∨ ∃ next, slot.state = .vacant next)) ∧
    (s.pc.inDrain = true → s.borrow ≠ .call → ∀ answers : List (Answers ws),
      s.world.inner.ring.completions.length < answers.length →
      ∃ before a after s₁ s₂ outcome, answers = before ++ a :: after ∧
        (systemMachine ws).run s (before.map .advance) = some s₁ ∧ s₁.step (.advance a) = some s₂ ∧
        Returns s₁ s₂ outcome) ∧
    (∀ task steps a, s.pc = .calling task [] [] (.drained steps .progressing) → s.borrow ≠ .call →
      ∃ s', s.step (.advance a) = some s' ∧ (s'.pc.inDrain = true ∨ s'.pc = .yieldedDrain steps)) ∧
    ∀ steps w a, s.pc = .yieldedDrain steps → s.borrow = .free → s.world.inner.tornDown = false →
      ∃ s', s.step (.pollDrive w a) = some s' ∧ s'.pc.inDrain = true := by
  have hreach := hr.of_startingAt h.of_watch
  have hb := books_of_reachable hreach
  have hprogress : Progress k s log := progress_of_reachable hr hmode h
  refine ⟨fun a s' outcome hok hs hreturns hfirst => ?_, returns_of_advance, ?_, ?_⟩
  · have hb' := books_of_reachable (hreach.next hs)
    have hprogress' := hprogress.step hb hb' hok hs
    have hbegun : (s.noteDrain a s' log).begun = log.begun := by
      rcases begun_noteDrain s s' a log with ⟨-, hout, -⟩ | ⟨heq, -⟩
      · cases hout.symm.trans hreturns.inDrain
      · exact heq
    obtain rfl : outcome = s'.world.drainOutcome := hreturns.eq_drainOutcome hs
    refine ⟨outcome_of_noneBuilt hb' (hprogress'.built (hbegun ▸ hfirst)), fun hlast => ?_⟩
    have howed : s'.world.inner.ring.owed = [] := by
      refine List.eq_nil_iff_forall_not_mem.mpr fun t ht => ?_
      have hw := step_winds hb hprogress.mode hs
      have hcount : k + 2 ≤ log.begun := by omega
      have ht' := hw.owed hb hb' (hprogress.stillNone hcount)
        (hprogress.queue hcount (hw.isOpen hb hb' ht).1) ht
      have hlate := hok.reports s' _ hs hreturns t ht
      have hearly := hprogress.cancels hcount t ht'
      simp only at hlate
      omega
    have hempty := OpSlab.outstanding_eq_zero.mpr
      (hb'.empty howed (hprogress'.queue (by rw [hbegun]; omega)))
    refine ⟨if_pos hempty, fun slot hslot => ?_⟩
    have hfree := List.countP_eq_zero.mp hempty slot hslot
    unfold Slot.outstanding at hfree
    split at hfree
    · exact .inr ⟨_, ‹_›⟩
    · exact .inl ‹_›
    · exact absurd rfl hfree
    · exact absurd rfl hfree
  · intro task steps a hpc hborrow
    have hstep : s.step (.advance a) = some (s.resume task a (.drained steps .progressing)) := by
      simp only [Sys.step, hpc, if_neg hborrow, Sys.advance]
    cases task with
    | drop => exact ⟨_, hstep, .inl rfl⟩
    | drive w => exact ⟨_, hstep, .inr rfl⟩
  · intro steps w a hpc hfree htorn
    refine ⟨s.beginDrain (.drive w) steps a, ?_, ?_⟩
    · simp [Sys.step, hpc, Sys.callerRuns, hfree, Sys.applicationStep, Sys.pollDrive]
    · simp only [Sys.beginDrain, htorn]
      rfl

/-- Whether a step is one of a platform that works. -/
def works (k : Nat) (p : Sys ws × DrainLog ws) (action : Action ws) : Bool :=
  action.answers.all (·.submit.isNone) &&
    ((p.1.step action).all fun s' => !(p.1.pc.inDrain && s'.pc.outcome?.isSome) ||
      s'.world.inner.ring.owed.all fun t => p.2.begun < p.2.acceptedAt t + k)

theorem Works.of_check (p : Sys ws × DrainLog ws) (action : Action ws) (h : works k p action) :
    Works k p action := by
  simp only [works, Bool.and_eq_true, Option.all_eq_true] at h
  obtain ⟨hsubmit, hreports⟩ := h
  refine ⟨fun a ha => Option.isNone_iff_eq_none.mp (hsubmit a ha), fun s' outcome hs hreturns t ht => ?_⟩
  have hall := hreports s' hs
  simp only [hreturns.inDrain, hreturns.outcome, Option.isSome_some, Bool.and_self, Bool.not_true,
    Bool.false_or, List.all_eq_true, decide_eq_true_eq] at hall
  exact hall t ht

/-- A flush whose future was dropped before its first submission: the first
drain step submits it and asks for its cancellation, which keeps its slot until
the second. -/
theorem drain_finishes_cancelled : ∃ (s s' : Sys .w64) (log : DrainLog .w64),
    s.step (.advance .willing) = some s' ∧ log.begun = 2 ∧ Returns s s' .quiescent ∧
    ∀ slot ∈ s'.world.inner.slab.raw.slots,
      slot.state = .retired ∨ ∃ next, slot.state = .vacant next := by
  obtain ⟨s₀, s, log, s', hrun₀, hmode, hrun, hcheck, hs, hbegun, hin, houtcome⟩ :
      ∃ (s₀ s : Sys .w64) (log : DrainLog .w64) (s' : Sys .w64),
        (systemMachine .w64).run .new
          [.start (.flush 3) .willing, .escalate .graceful, .dropFuture 0 none] = some s₀ ∧
        s₀.world.inner.shutdown = .graceful ∧
        ((drainMachine s₀).guarded (works 0)).run (s₀, .new)
          [.dropDriver { Answers.willing with wait := { failure := none, taken := fun _ => false } },
            .execute ⟨.flush (.raw 3), 2 ^ 17⟩ ⟨0, 0⟩, .report ⟨.flush (.raw 3), 2 ^ 17⟩ ⟨0, 0⟩,
            .advance .willing, .advance .willing, .advance .willing,
            .execute ⟨.cancel (.raw 3) (2 ^ 17), 2 ^ 17 + 1⟩ ⟨0, 0⟩,
            .report ⟨.cancel (.raw 3) (2 ^ 17), 2 ^ 17 + 1⟩ ⟨0, 0⟩, .advance .willing] = some (s, log) ∧
        works 0 (s, log) (.advance .willing) = true ∧ s.step (.advance .willing) = some s' ∧
        log.begun = 2 ∧ s.pc.inDrain = true ∧ s'.pc.outcome? = some .quiescent :=
    ⟨_, _, _, _, rfl, rfl, rfl, rfl, rfl, rfl, rfl, rfl⟩
  have hreach : ((drainMachine s₀).guarded (works 0)).Reachable (s, log) :=
    Machine.Reachable.run (s := (s₀, .new)) (.init ⟨rfl, rfl⟩) hrun
  obtain ⟨hends, -⟩ := drain_finishes (reachable_of_run hrun₀) (by simp [hmode])
    (hreach.of_guarded Works.of_check)
  obtain ⟨-, hlast⟩ := hends _ s' _ (Works.of_check _ _ hcheck) hs ⟨hin, houtcome⟩ (by omega)
  exact ⟨s, s', log, hs, hbegun, ⟨hin, houtcome⟩, (hlast (by omega)).2⟩

end WinIoring.Runtime
