import WinIoring.Runtime.Transitions

/-!
# Slots and submissions

A built slot is owed a submission, and the first that succeeds promotes it. The
drain waits only once none is built, so that no wait hands an operation over
behind the slab's back.
-/

namespace WinIoring.Runtime

open Slab

variable {ws : WordSize} {s s' : Sys ws}

-- ---------------------------------------------------------------------------
-- Submitting
-- ---------------------------------------------------------------------------

namespace DriverInner

variable {d : DriverInner ws} {a : Answers ws}

/-- Whether `submit_pending` calls the platform and the call succeeds. -/
def Submits (d : DriverInner ws) (a : Answers ws) : Prop :=
  d.pendingSubmit = true ∧ d.ring.closed = false ∧ a.submit = none

theorem issueCancels_induction {P : DriverInner ws → Prop} (hstep : ∀ d t refusal, P d → P (d.issueCancel t refusal))
    (h : P d) (ts : List (Token ws)) (refusal : Token ws → Option HResult) : P (d.issueCancels ts refusal) := by
  induction ts generalizing d with
  | nil => exact h
  | cons t ts ih => exact ih (hstep d t _ h)

/-- What asking for a cancellation makes of a cell. -/
inductive Asked : Option (Cell OpPayload) → Option (Cell OpPayload) → Prop
  | same : Asked c c
  | requested : Asked (some (.live op)) (some (.live { op with cancel := .pending }))

theorem Asked.trans {c c' c'' : Option (Cell OpPayload)} (h : Asked c c') (h' : Asked c' c'') :
    Asked c c'' := by
  cases h with
  | same => exact h'
  | requested =>
    cases h' with
    | same => exact .requested
    | requested => exact .requested

/-- Asking for a cancellation is no submission, and gets no operation further. -/
theorem issueCancel_asked (d : DriverInner ws) (t : Token ws) (refusal : Option HResult) :
    (d.issueCancel t refusal).submissions = d.submissions ∧
      ∀ k, Asked (d.slab.cell k) ((d.issueCancel t refusal).slab.cell k) := by
  have hsame : ∀ d' : DriverInner ws, d'.slab = d.slab → ∀ k, Asked (d.slab.cell k) (d'.slab.cell k) := by
    intro d' h k
    rw [h]
    exact .same
  rcases Moves.issueCancel_cases d t refusal with
    h | ⟨_, _, _, _, h⟩ | ⟨op, target, -, -, -, hkind, hcell, -, hcancel, -, -, h⟩
  · exact ⟨h.submissions, hsame _ h.slab⟩
  · exact ⟨h.submissions, hsame _ h.slab⟩
  · refine ⟨h.submissions, fun k => ?_⟩
    simp only [h.slab, (OpSlab.cell_registerCancel hkind hcell hcancel).1, Function.update_apply]
    split
    · rename_i hk
      rw [hk, hcell]
      exact .requested
    · exact .same

/-- One successful submission lies between two drivers: every built slot was
promoted, and at most cancellations were asked for since. -/
structure Handed (d d' : DriverInner ws) : Prop where
  submissions : d'.submissions = d.submissions + 1
  cells : ∀ k, Asked ((d.slab.cell k).map Cell.promote) (d'.slab.cell k)

theorem Handed.issueCancels (h : d.Handed d') (ts : List (Token ws))
    (refusal : Token ws → Option HResult) : d.Handed (d'.issueCancels ts refusal) := by
  refine issueCancels_induction (P := d.Handed) (fun d' t refusal h => ?_) h ts refusal
  obtain ⟨hsubmissions, hcells⟩ := d'.issueCancel_asked t refusal
  exact ⟨hsubmissions.trans h.submissions, fun k => (h.cells k).trans (hcells k)⟩

/-- What a successful submission leaves, before anything is cancelled. -/
structure Took (d d' : DriverInner ws) : Prop where
  ring : IoRing.Submitted d.ring d'.ring fun _ => true
  slab : d'.slab = d.slab.promoteBuiltToSubmitted
  pendingSubmit : d'.pendingSubmit = false
  submitFailures : d'.submitFailures = 0
  submissions : d'.submissions = d.submissions + 1
  deferredCancels : d'.deferredCancels = []
  tornDown : d'.tornDown = d.tornDown
  shutdown : d'.shutdown = d.shutdown

theorem submitPending_of_submits (h : d.Submits a) : ∃ d', d.Took d' ∧
    let d'' := d'.issueCancels d.deferredCancels a.deferredCancel
    d.submitPending a = d''.issueCancels d''.slab.detachedSubmittedUncancelled a.detachedCancel := by
  obtain ⟨hpending, hopen, hsubmit⟩ := h
  have htaken : (d.ring.submit 0 { failure := a.submit, taken := fun _ => false }).2 =
      .ok (d.ring.queue.filter fun _ => true).length := by
    simp [IoRing.submit, IoRing.ensureOpen, hopen, hsubmit]
  obtain ⟨-, hring⟩ := IoRing.submit_ok htaken
  rw [submitPending, if_neg (by simp [hpending])]
  split
  · rename_i ring entries heq
    rw [heq] at hring
    refine ⟨{ d with
      ring
      slab := d.slab.promoteBuiltToSubmitted
      deferredCancels := []
      pendingSubmit := false
      submitFailures := 0
      submissions := d.submissions + 1
      submittedEntries := d.submittedEntries + entries }, ?_, rfl⟩
    exact ⟨hring, rfl, rfl, rfl, rfl, rfl, rfl, rfl⟩
  · rename_i heq
    rw [heq] at htaken
    cases htaken

/-- A submission that succeeds is counted and promotes every built slot. -/
theorem handed_submitPending (h : d.Submits a) : d.Handed (d.submitPending a) := by
  obtain ⟨d', htook, heq⟩ := submitPending_of_submits h
  rw [heq]
  refine Handed.issueCancels (Handed.issueCancels ⟨htook.submissions, fun k => ?_⟩ _ _) _ _
  rw [htook.slab, OpSlab.cell_promote]
  exact .same

/-- One that fails, or is not made, is at most noted. -/
theorem submitPending_of_not_submits (h : ¬ d.Submits a) :
    ∃ submitFailures deferredReports, d.submitPending a = { d with submitFailures, deferredReports } := by
  unfold submitPending
  split
  · exact ⟨_, _, rfl⟩
  rename_i hpending
  split
  · rename_i ring entries hsubmit
    obtain ⟨hopen, -⟩ := IoRing.submit_ok (congrArg Prod.snd hsubmit)
    refine absurd ⟨by simpa using hpending, hopen, ?_⟩ h
    cases hanswer : a.submit with
    | none => rfl
    | some hr => simp [IoRing.submit, IoRing.ensureOpen, hopen, hanswer] at hsubmit
  · rename_i ring e hsubmit
    have hring := IoRing.submit_error (congrArg Prod.snd hsubmit)
    rw [hsubmit] at hring
    obtain rfl : ring = d.ring := hring
    simp only [noteSubmitFailure]
    split
    · exact ⟨_, _, rfl⟩
    · exact ⟨_, _, rfl⟩

/-- Whether a drain step waits. -/
def Waits (d : DriverInner ws) : Prop := d.slab.built.length = 0 ∧ d.slab.outstanding > 0

instance (d : DriverInner ws) : Decidable d.Waits := inferInstanceAs (Decidable (_ ∧ _))

end DriverInner

namespace World

/-- A drain step up to its wait. -/
def beforeWait (w : World ws) (a : Answers ws) : World ws :=
  let (w, _) := w.resolveUnqueued
  let inner := w.inner.submitPending a
  w.setInner (if inner.shutdown.rank ≥ ShutdownMode.immediate.rank then
      inner.issueCancels inner.slab.submittedUncancelled a.drainCancel
    else
      inner)

theorem drainBegin_eq (w : World ws) (a : Answers ws) : (w.drainBegin a).1 =
    let d := (w.beforeWait a).inner
    (w.beforeWait a).setInner
      (if d.Waits then { d with ring := (d.ring.submit d.slab.outstanding a.wait).1 } else d) :=
  rfl

end World

-- ---------------------------------------------------------------------------
-- Waiting
-- ---------------------------------------------------------------------------

/-- Wherever the books balance, a drain step that waits has only cancellations
left to hand over. -/
theorem Books.cancels_of_waits (hb : Books s) {a : Answers ws}
    (hwaits : (s.world.beforeWait a).inner.Waits) :
    ∀ t ∈ (s.world.beforeWait a).inner.ring.queued, t.kind = .cancel := by
  -- What the step does before its wait does not depend on where the code stands.
  have hidle : Books { s with pc := .idle } := hb.congr rfl rfl rfl rfl rfl nofun nofun
  have hnone : s.world.resolveUnqueued = (s.world, []) := by
    simp [World.resolveUnqueued, described_eq_nil hb.noneDescribed]
  have hmoves : Moves false { s with pc := .idle }
      (Sys.withWorld { s with pc := .idle } (s.world.beforeWait a)) := by
    simp only [World.beforeWait, hnone]
    refine (Moves.submitPending (s := { s with pc := .idle }) rfl a).trans ?_
    split
    · exact Moves.issueCancels ..
    · exact .refl
  have hafter := hidle.moves hmoves
  intro t ht
  cases hkind : t.kind with
  | cancel => rfl
  | operation =>
    cases hclosed : (s.world.beforeWait a).inner.ring.closed with
    | true =>
      -- A closed ring has nothing outstanding to wait for.
      have hcells := (hafter.closed hclosed).2
      have hnone : (s.world.beforeWait a).inner.slab.outstanding = 0 := OpSlab.outstanding_eq_zero.mpr hcells
      exact absurd hwaits.2 (by omega)
    | false =>
      have hbuilt := ((hafter.ledger hclosed).queued_iff t hkind).mp ht
      have hnil := List.length_eq_zero_iff.mp hwaits.1
      unfold IsBuilt at hbuilt
      split at hbuilt
      · rename_i op hop
        exact absurd hbuilt (by simpa using OpSlab.tokensWhere_eq_nil.mp hnil _ op hop)
      · exact hbuilt.elim

-- ---------------------------------------------------------------------------
-- One operation over runs
-- ---------------------------------------------------------------------------

/-- Where a live operation came from: a submission may have promoted it, and
nothing else gets it further. -/
theorem Move.live (h : Move b s s') (hop' : s'.world.inner.slab.cell k = some (.live op')) :
    ∃ op, s.world.inner.slab.cell k = some (.live op) ∧
      (op.observer = .detached → op'.observer = .detached) ∧
      (op'.lifecycle = op.lifecycle ∧ s'.world.inner.submissions = s.world.inner.submissions ∨
        op'.lifecycle = op.promote.lifecycle ∧
          s'.world.inner.submissions = s.world.inner.submissions + 1) := by
  rcases h.promoted_or with hpromoted | ⟨hsubmissions, hcells⟩
  · rw [hpromoted.slab, OpSlab.cell_promote] at hop'
    obtain ⟨c, hc, hpromote⟩ := Option.map_eq_some_iff.mp hop'
    cases c with
    | tombstone => cases hpromote
    | live op =>
      obtain rfl := Cell.live.inj hpromote
      refine ⟨op, hc, fun hdetached => ?_, .inr ⟨rfl, hpromoted.submissions⟩⟩
      unfold Occupant.promote
      split
      · exact hdetached
      · exact hdetached
  · obtain ⟨op, hop, hlife, -, hdetached, -⟩ := (hcells k).live hop'
    exact ⟨op, hop, hdetached, .inl ⟨hlife, hsubmissions⟩⟩

/-- A law of the operation under a key, from when the key is issued until the
operation is no longer live. -/
structure Standing (P : DriverInner ws → Occupant OpPayload → Prop) (k : Key) (d : DriverInner ws) :
    Prop where
  issued : d.slab.Issued k
  live : ∀ op, d.slab.cell k = some (.live op) → P d op

/-- A law that every move keeps of an operation it leaves live, and every
request of the operations there before. -/
structure Lasts (P : DriverInner ws → Occupant OpPayload → Prop) : Prop where
  move : ∀ {b} s s' k op', Move b s s' → s'.world.inner.slab.cell k = some (.live op') →
    ∃ op, s.world.inner.slab.cell k = some (.live op) ∧ (P s.world.inner op → P s'.world.inner op')
  accepted : ∀ s s' t p e f op, Accepted s s' t p e f → P s.world.inner op → P s'.world.inner op

variable {P : DriverInner ws → Occupant OpPayload → Prop}

theorem Standing.of_cell (hcell : s.world.inner.slab.cell k = some (.live op))
    (h : P s.world.inner op) : Standing P k s.world.inner := by
  refine ⟨OpSlab.issued_of_cell hcell, fun op' hop' => ?_⟩
  cases hcell.symm.trans hop'
  exact h

theorem Lasts.moves (hP : Lasts P) (h : Standing P k s.world.inner) (hm : Moves b s s') :
    Standing P k s'.world.inner := by
  induction hm with
  | refl => exact h
  | tail _ hlast ih =>
    refine ⟨hlast.issued ih.issued, fun op' hop' => ?_⟩
    obtain ⟨op, hop, himp⟩ := hP.move _ _ k op' hlast hop'
    exact himp (ih.live op hop)

theorem Lasts.stride (hP : Lasts P) (h : Standing P k s.world.inner) (hst : Stride s s' a) :
    Standing P k s'.world.inner := by
  cases hst with
  | moves hm _ => exact hP.moves h hm
  | accepted _ ha =>
    refine ⟨(ha.issued k).mpr (.inl h.issued), fun op hop => ?_⟩
    rw [ha.cell, Function.update_apply] at hop
    split at hop
    · rename_i hk
      exact absurd (hk ▸ h.issued) ha.unissued
    · exact hP.accepted _ _ _ _ _ _ op ha (h.live op hop)
  | setCursor hs => exact hs ▸ h

theorem Lasts.run (hP : Lasts P) (hr : (systemMachine ws).Reachable s)
    (h : Standing P k s.world.inner) (hrun : (systemMachine ws).run s as = some s') :
    Standing P k s'.world.inner :=
  run_keeps (P := fun s => Standing P k s.world.inner) (fun _ _ _ => hP.stride) hr h hrun

/-- Where an operation stands that was built when `n` submissions had succeeded. -/
def BuiltAt (n : Nat) (d : DriverInner ws) (op : Occupant OpPayload) : Prop :=
  op.lifecycle = .built ∧ d.submissions = n ∨ op.lifecycle = .submitted ∧ n < d.submissions

theorem lasts_builtAt (n : Nat) : @Lasts ws (BuiltAt n) where
  move s s' k op' hm hop' := by
    obtain ⟨op, hop, -, ⟨hlife, hsubmissions⟩ | ⟨hlife, hsubmissions⟩⟩ := hm.live hop'
    · exact ⟨op, hop, fun h => by rwa [BuiltAt, hlife, hsubmissions]⟩
    · refine ⟨op, hop, fun h => .inr ?_⟩
      rw [hlife, hsubmissions, Occupant.promote]
      rcases h with ⟨hbuilt, hn⟩ | ⟨hsubmitted, hn⟩
      · rw [if_pos hbuilt]
        exact ⟨rfl, by omega⟩
      · rw [if_neg (by simp [hsubmitted])]
        exact ⟨hsubmitted, by omega⟩
  accepted s s' t p e f op ha h := by rwa [BuiltAt, ha.submissions]

theorem Stride.submissions_le (h : Stride s s' a) :
    s.world.inner.submissions ≤ s'.world.inner.submissions := by
  cases h with
  | moves hm hcalm =>
    clear hcalm
    induction hm with
    | refl => rfl
    | tail _ hlast ih =>
      rcases hlast.promoted_or with hpromoted | ⟨hsubmissions, -⟩
      · have := hpromoted.submissions
        omega
      · omega
  | accepted _ ha => exact ha.submissions.ge
  | setCursor hs => exact hs ▸ le_refl _

theorem Books.pending_of_built (hb : Books s) (hcell : s.world.inner.slab.cell k = some (.live op))
    (hlife : op.lifecycle = .built) : s.world.inner.pendingSubmit = true := by
  cases hclosed : s.world.inner.ring.closed with
  | true =>
    rw [(hb.closed hclosed).2 k] at hcell
    cases hcell
  | false =>
    have hledger := hb.ledger hclosed
    obtain ⟨t, hkind, rfl⟩ := OpSlab.exists_token hcell
    have hqueued : t ∈ s.world.inner.ring.queued :=
      (hledger.queued_iff t hkind).mpr (by rw [hcell]; exact hlife)
    apply hledger.pending
    intro hnil
    simp [IoRing.queued, hnil] at hqueued

/-- In every reachable state: a built slot has a submission pending; the built
slots of an open ring are the operations queued on it; a drain step that waits
has only cancellations queued; an operation built when so many submissions had
succeeded is still built as long as no more have, and submitted from the next
on; and a submission promotes every built slot if it succeeds and touches none
if it does not. -/
theorem promoted_once (hr : (systemMachine ws).Reachable s) :
    (∀ k op, s.world.inner.slab.cell k = some (.live op) → op.lifecycle = .built →
      s.world.inner.pendingSubmit = true) ∧
    (s.world.inner.ring.closed = false → ∀ t : Token ws, t.kind = .operation →
      (t ∈ s.world.inner.ring.queued ↔ IsBuilt (s.world.inner.slab.cell t.key))) ∧
    (∀ a : Answers ws, (s.world.beforeWait a).inner.Waits →
      ∀ t ∈ (s.world.beforeWait a).inner.ring.queued, t.kind = .cancel) ∧
    (∀ as s', (systemMachine ws).run s as = some s' →
      s.world.inner.submissions ≤ s'.world.inner.submissions ∧
      ∀ k op, s.world.inner.slab.cell k = some (.live op) → op.lifecycle = .built →
        ∀ op', s'.world.inner.slab.cell k = some (.live op') →
          BuiltAt s.world.inner.submissions s'.world.inner op') ∧
    (∀ a : Answers ws,
      (s.world.inner.Submits a → s.world.inner.Handed (s.world.inner.submitPending a)) ∧
      (¬ s.world.inner.Submits a →
        (s.world.inner.submitPending a).submissions = s.world.inner.submissions ∧
        (s.world.inner.submitPending a).slab = s.world.inner.slab)) := by
  have hb := books_of_reachable hr
  refine ⟨fun _ _ => hb.pending_of_built, fun hopen => (hb.ledger hopen).queued_iff,
    fun _ => hb.cancels_of_waits, fun as s' hrun => ⟨?_, fun k op hcell hlife op' hop' => ?_⟩,
    fun a => ⟨DriverInner.handed_submitPending, fun hnot => ?_⟩⟩
  · refine run_keeps (P := fun s' => s.world.inner.submissions ≤ s'.world.inner.submissions)
      (fun _ _ _ h hst => h.trans hst.submissions_le) hr (le_refl _) hrun
  · exact ((lasts_builtAt _).run hr (.of_cell hcell (.inl ⟨hlife, rfl⟩)) hrun).live op' hop'
  · obtain ⟨_, _, heq⟩ := DriverInner.submitPending_of_not_submits hnot
    rw [heq]
    exact ⟨rfl, rfl⟩

/-- A flush whose first submission fails and whose second succeeds. -/
theorem promoted_once_retried : ∃ (s s' : Sys .w64) (op op' : Occupant OpPayload),
    s.world.inner.slab.cell ⟨0, firstGeneration⟩ = some (.live op) ∧ op.lifecycle = .built ∧
    (systemMachine .w64).run s [.pollDrive 7 { Answers.willing with submit := some submissionQueueFull },
      .advance .willing, .advance .willing, .advance .willing, .pollDrive 7 .willing] = some s' ∧
    s'.world.inner.slab.cell ⟨0, firstGeneration⟩ = some (.live op') ∧
    BuiltAt 0 s'.world.inner op' ∧ op'.lifecycle = .submitted := by
  obtain ⟨s, s', op, op', hrun, hsubmissions, hcell, hlife, hrun', hcell', hlife'⟩ :
      ∃ (s s' : Sys .w64) (op op' : Occupant OpPayload),
        (systemMachine .w64).run .new [.start (.flush 3) .willing] = some s ∧
        s.world.inner.submissions = 0 ∧
        s.world.inner.slab.cell ⟨0, firstGeneration⟩ = some (.live op) ∧ op.lifecycle = .built ∧
        (systemMachine .w64).run s
          [.pollDrive 7 { Answers.willing with submit := some submissionQueueFull },
            .advance .willing, .advance .willing, .advance .willing, .pollDrive 7 .willing] = some s' ∧
        s'.world.inner.slab.cell ⟨0, firstGeneration⟩ = some (.live op') ∧ op'.lifecycle = .submitted :=
    ⟨_, _, _, _, rfl, rfl, rfl, rfl, rfl, rfl, rfl⟩
  have hstage := (promoted_once (reachable_of_run hrun)).2.2.2.1 _ _ hrun'
  refine ⟨s, s', op, op', hcell, hlife, hrun', hcell', ?_, hlife'⟩
  exact hsubmissions ▸ hstage.2 _ op hcell hlife op' hcell'

end WinIoring.Runtime
