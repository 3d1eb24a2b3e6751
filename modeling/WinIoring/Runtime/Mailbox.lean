import WinIoring.Machine.Protocol
import WinIoring.Runtime.Custody

/-!
# Mailboxes

What a driver is to its callers, with the ring, the slab and the loop left out:
a mailbox for each operation, opened when the operation is accepted, filled once
with what became of it, and emptied once by the future that waits for it. The
driver keeps to this protocol over every run.
-/

namespace WinIoring.Runtime

open Slab

variable {ws : WordSize} {s s' : Sys ws} {w w' : World ws}

-- ---------------------------------------------------------------------------
-- What an operation is answered with
-- ---------------------------------------------------------------------------

/-- What goes back to the caller with a result: the very buffer it gave, a
registered one's handle with its count brought up to date, or what became of the
resources of a registration. -/
inductive HandedBack (p : OpPayload) : Except Error Transferred → Option Boxed → Prop
  | nothing (hpending : p.pendingRegistration = none) (hbuffer : p.buffer = none) :
    HandedBack p result none
  | owned (hpending : p.pendingRegistration = none) (hbuffer : p.buffer = some (.owned b)) :
    HandedBack p result (some (.buffer (.owned b)))
  | handle (initialized : Nat) (hpending : p.pendingRegistration = none)
      (hbuffer : p.buffer = some (.handle h)) :
    HandedBack p result (some (.buffer (.handle { h with initialized })))
  | collection (hpending : p.pendingRegistration =
      some (.buffers buffers pointers extents watermarks descriptors)) :
    HandedBack p (.ok n) (some (.collection r))
  | files (hpending : p.pendingRegistration = some (.files files)) : HandedBack p (.ok n) none
  | failed (hpending : p.pendingRegistration = some pending) :
    HandedBack p (.error e) (some (.pending pending))

/-- How an operation may be answered: by its own completion, with that
completion's result, or as abandoned. -/
inductive Answered (t : Token ws) (p : OpPayload) : CompletedOp → Cause ws → Prop
  | completion (htoken : cqe.token = t)
      (hback : HandedBack p (World.completionResult cqe.outcome) boxed) :
    Answered t p (World.completionResult cqe.outcome, boxed) (.completion cqe)
  | abandoned : Answered t p (World.abandoned p) .abandoned

-- ---------------------------------------------------------------------------
-- The protocol
-- ---------------------------------------------------------------------------

/-- Where one operation's mailbox stands. A waiting one keeps the waker of the
latest poll, and whether anyone still waits. -/
inductive Mailbox (ws : WordSize) where
  | unused
  | waiting (t : Token ws) (p : OpPayload) (waker : Option Waker) (awaited : Bool)
  | ready (completed : CompletedOp)
  | closed

/-- What may happen to a mailbox. Filling takes the waker of the latest poll, and
what nobody waits for goes no further. -/
inductive Mailbox.Step : Mailbox ws → Event ws → Mailbox ws → Prop
  | accepted : Step .unused (.accepted t p files) (.waiting t p none true)
  | polled {w : Waker} : Step (.waiting t p waker true) (.polled σ w) (.waiting t p (some w) true)
  | forgotten : Step (.waiting t p waker true) (.futureDropped σ detached) (.waiting t p waker false)
  | filled (h : Answered t p completed cause) :
    Step (.waiting t p waker true) (.filled σ completed waker cause) (.ready completed)
  | filledForNobody (h : Answered t p completed cause) :
    Step (.waiting t p waker false) (.filled σ completed waker cause) .closed
  | delivered : Step (.ready completed) (.delivered σ completed) .closed
  | discarded : Step (.ready completed) (.futureDropped σ detached) .closed

/-- The mailbox an event is about. -/
def Event.mailbox : Event ws → Option SlotId
  | .accepted _ p _ => some p.slot
  | .polled σ _ | .filled σ _ _ _ | .delivered σ _ | .futureDropped σ _ => some σ
  | _ => none

def mailbox (ws : WordSize) : Protocol (Mailbox ws) (Event ws) := { start := .unused, step := Mailbox.Step }

/-- A mailbox for every operation. -/
def mailboxes (ws : WordSize) : Protocol (SlotId → Mailbox ws) (Event ws) :=
  (mailbox ws).each Event.mailbox

-- ---------------------------------------------------------------------------
-- What a history says of a mailbox
-- ---------------------------------------------------------------------------

/-- Whether an event fills the mailbox. -/
def Event.fills (σ : SlotId) : Event ws → Bool
  | .filled τ _ _ _ => τ = σ
  | _ => false

def Event.isFill : Event ws → Bool
  | .filled .. => true
  | _ => false

/-- The events of one mailbox. -/
def Event.about (σ : SlotId) (e : Event ws) : Bool := e.mailbox = some σ

/-- The waker a poll leaves. -/
def Event.pollWaker : Event ws → Option Waker
  | .polled _ w => some w
  | _ => none

/-- The waker of the latest poll, by the log. -/
def latestPoll (σ : SlotId) (es : List (Event ws)) : Option Waker :=
  (es.filter (Event.about σ)).findSome? Event.pollWaker

namespace Mailbox

/-- Whether a mailbox has been filled. -/
def filled : Mailbox ws → Bool
  | .ready _ | .closed => true
  | _ => false

end Mailbox

section Histories

variable {es : List (Event ws)} {x y : Mailbox ws} {m : SlotId → Mailbox ws} {σ : SlotId}

theorem Event.fills_eq (σ : SlotId) (e : Event ws) : e.fills σ = (e.isFill && e.about σ) := by
  cases e <;> simp [fills, isFill, about, mailbox]

/-- A mailbox is filled once, if at all. -/
theorem countP_fills (h : (mailboxes ws).History es m) (σ : SlotId) :
    es.countP (Event.fills σ) = if (m σ).filled then 1 else 0 := by
  have hparty := (Protocol.Run.party h σ).countP_eq Event.isFill Mailbox.filled rfl ?_ ?_
  · rw [← hparty, List.countP_filter]
    exact congrArg (List.countP · es) (funext fun e => Event.fills_eq σ e)
  · rintro x e y hs he
    cases hs <;> simp_all [Event.isFill, Mailbox.filled]
  · rintro x e y hs he
    cases hs <;> simp_all [Event.isFill, Mailbox.filled]

/-- What is on record of a mailbox: the one operation it was opened for, and an
answer to that operation. -/
structure Recorded (es : List (Event ws)) (x : Mailbox ws) : Prop where
  fresh : x = .unused → ∀ t p files, .accepted t p files ∉ es
  owner : ∀ t p waker awaited, x = .waiting t p waker awaited →
    ∀ u q files, .accepted u q files ∈ es → u = t ∧ q = p
  sole : ∀ t p files u q files', .accepted t p files ∈ es → .accepted u q files' ∈ es → u = t ∧ q = p
  unfilled : x.filled = false → ∀ e ∈ es, e.isFill = false
  answered : ∀ u q files τ completed waker cause, .accepted u q files ∈ es →
    .filled τ completed waker cause ∈ es → Answered u q completed cause
  ready : ∀ completed, x = .ready completed → ∃ τ waker cause, .filled τ completed waker cause ∈ es

theorem Recorded.step (h : Recorded es x) (hs : Mailbox.Step x e y) : Recorded (e :: es) y := by
  have hunfilled : ∀ e ∈ es, x.filled = false → e.isFill = false := fun e he hx => h.unfilled hx e he
  have hold : (∀ t p files, e ≠ .accepted t p files) → ∀ t p files, .accepted t p files ∈ e :: es →
      .accepted t p files ∈ es :=
    fun he t p files hacc => (List.mem_cons.mp hacc).resolve_left fun heq => he _ _ _ heq.symm
  cases hs with
  | accepted =>
    have hfresh := h.fresh rfl
    refine ⟨by simp, ?_, ?_, ?_, ?_, by simp⟩
    · rintro t p waker awaited ⟨⟩ u q files hacc
      rcases List.mem_cons.mp hacc with hacc | hacc
      · cases hacc
        exact ⟨rfl, rfl⟩
      · exact absurd hacc (hfresh u q files)
    · intro t p files u q files' hacc hacc'
      rcases List.mem_cons.mp hacc with hacc | hacc
      · rcases List.mem_cons.mp hacc' with hacc' | hacc'
        · cases hacc
          cases hacc'
          exact ⟨rfl, rfl⟩
        · exact absurd hacc' (hfresh u q files')
      · exact absurd hacc (hfresh t p files)
    · intro _ e he
      rcases List.mem_cons.mp he with rfl | he
      · rfl
      · exact hunfilled e he rfl
    · intro u q files τ completed waker cause _ hfill
      rcases List.mem_cons.mp hfill with hfill | hfill
      · cases hfill
      · cases hunfilled _ hfill rfl
  | polled | forgotten =>
    replace hold := hold (by simp)
    refine ⟨by simp, ?_, fun t p files u q files' hacc hacc' => h.sole _ _ _ _ _ _ (hold _ _ _ hacc) (hold _ _ _ hacc'),
      ?_, ?_, by simp⟩
    · rintro t p waker awaited ⟨⟩ u q files hacc
      exact h.owner _ _ _ _ rfl u q files (hold _ _ _ hacc)
    · intro _ e he
      rcases List.mem_cons.mp he with rfl | he
      · rfl
      · exact hunfilled e he rfl
    · intro u q files τ completed waker cause _ hfill
      rcases List.mem_cons.mp hfill with hfill | hfill
      · cases hfill
      · cases hunfilled _ hfill rfl
  | filled hanswered | filledForNobody hanswered =>
    replace hold := hold (by simp)
    refine ⟨by simp, by simp,
      fun t p files u q files' hacc hacc' => h.sole _ _ _ _ _ _ (hold _ _ _ hacc) (hold _ _ _ hacc'),
      by simp [Mailbox.filled], ?_, fun completed hx => ?_⟩
    · intro u q files τ completed waker cause hacc hfill
      obtain ⟨rfl, rfl⟩ := h.owner _ _ _ _ rfl u q files (hold _ _ _ hacc)
      rcases List.mem_cons.mp hfill with hfill | hfill
      · cases hfill
        exact hanswered
      · cases hunfilled _ hfill rfl
    · cases hx <;> exact ⟨_, _, _, List.mem_cons_self⟩
  | delivered | discarded =>
    replace hold := hold (by simp)
    refine ⟨by simp, by simp,
      fun t p files u q files' hacc hacc' => h.sole _ _ _ _ _ _ (hold _ _ _ hacc) (hold _ _ _ hacc'),
      by simp [Mailbox.filled], ?_, by simp⟩
    intro u q files τ completed waker cause hacc hfill
    have hfill := (List.mem_cons.mp hfill).resolve_left (by rintro ⟨⟩)
    exact h.answered u q files τ completed waker cause (hold _ _ _ hacc) hfill

theorem recorded (h : (mailbox ws).History es x) : Recorded es x :=
  Protocol.Run.invariant h (I := Recorded) ⟨by simp, by simp [mailbox], by simp, by simp, by simp, by simp [mailbox]⟩
    fun _ _ _ _ h hs => h.step hs

/-- A mailbox that waits has the waker of the latest poll. -/
theorem latestPoll_eq (h : (mailboxes ws).History es m) (hσ : m σ = .waiting t p waker awaited) :
    waker = latestPoll σ es := by
  have hparty := (Protocol.Run.party h σ).invariant
    (I := fun es x => (x = .unused → es.findSome? Event.pollWaker = none) ∧
      ∀ t p waker awaited, x = .waiting t p waker awaited → waker = es.findSome? Event.pollWaker)
    ⟨by simp, by simp [mailboxes, mailbox, Protocol.each]⟩ ?_
  · exact hparty.2 t p waker awaited hσ
  · rintro es x e y ⟨hunused, hwaiting⟩ hs
    cases hs with
    | accepted =>
      refine ⟨by simp, ?_⟩
      rintro t p waker awaited ⟨⟩
      exact (hunused rfl).symm
    | polled =>
      refine ⟨by simp, ?_⟩
      rintro t p waker awaited ⟨⟩
      rfl
    | forgotten =>
      refine ⟨by simp, ?_⟩
      rintro t p waker awaited ⟨⟩
      exact hwaiting _ _ _ _ rfl
    | _ => exact ⟨by simp, by simp⟩

end Histories

-- ---------------------------------------------------------------------------
-- What a completion hands back
-- ---------------------------------------------------------------------------

theorem HandedBack.buffer {p : OpPayload} (hpending : p.pendingRegistration = none) (w : World ws)
    (result : Except Error Transferred) : HandedBack p result (w.refresh (p.buffer.map Boxed.buffer)) := by
  cases hbuffer : p.buffer with
  | none => exact .nothing hpending hbuffer
  | some b =>
    cases b with
    | owned b => exact .owned hpending hbuffer
    | handle h => exact .handle _ hpending hbuffer

namespace World

theorem handedBack_settled (w : World ws) {p : OpPayload} (hp : p.Plain) (cqe : Cqe ws) :
    HandedBack p (completionResult cqe.outcome) (w.settled p cqe).2 := by
  simp only [settled]
  rcases w.settleRegistration_cases p (completionResult cqe.outcome) with
    ⟨hpending, hsettle⟩ | ⟨pending, e, hpending, he, hsettle⟩ | ⟨files, n, hpending, hn, hsettle⟩ |
    ⟨buffers, pointers, extents, watermarks, descriptors, n, hpending, hn, hsettle⟩
  all_goals rw [hsettle]
  · exact HandedBack.buffer hpending ..
  · rw [he]
    exact .failed hpending
  · rw [hn, hp (by rw [hpending]; rfl)]
    exact .files hpending
  · rw [hn]
    exact .collection hpending

theorem answered_settled (w : World ws) {p : OpPayload} (hp : p.Plain) (cqe : Cqe ws) :
    Answered cqe.token p (w.settled p cqe) (.completion cqe) :=
  .completion rfl (w.handedBack_settled hp cqe)

end World

-- ---------------------------------------------------------------------------
-- How the driver keeps its mailboxes
-- ---------------------------------------------------------------------------

/-- A mailbox is a result slot, with a payload in the slab while it waits. -/
inductive Mailbox.Stored (ps : List OpPayload) (w : World ws) (σ : SlotId) : Mailbox ws → Prop
  | unused (hfresh : w.nextSlot ≤ σ) : Stored ps w σ .unused
  | waiting (hlt : σ < w.nextSlot) (hp : p ∈ ps) (hslot : p.slot = σ)
      (hresult : w.results σ = { completed := none, waker, awaited }) :
    Stored ps w σ (.waiting t p waker awaited)
  | ready (hlt : σ < w.nextSlot)
      (hresult : w.results σ = { completed := some completed, waker := none, awaited := true }) :
    Stored ps w σ (.ready completed)
  | closed (hlt : σ < w.nextSlot) (hcompleted : (w.results σ).completed = none)
      (hawaited : (w.results σ).awaited = false) : Stored ps w σ .closed

structure Mailed (ps : List OpPayload) (w : World ws) (m : SlotId → Mailbox ws) : Prop where
  nodup : (ps.map OpPayload.slot).Nodup
  stored : ∀ σ, (m σ).Stored ps w σ
  waiting : ∀ p ∈ ps, ∃ t waker awaited, m p.slot = .waiting t p waker awaited

namespace Mailed

variable {ps ps' : List OpPayload} {m : SlotId → Mailbox ws} {p : OpPayload} {σ : SlotId}

theorem perm (h : Mailed ps w m) (hps : ps'.Perm ps) : Mailed ps' w m where
  nodup := (hps.map _).nodup_iff.mpr h.nodup
  stored σ := by
    have hstored := h.stored σ
    generalize m σ = x at hstored
    cases hstored with
    | unused hfresh => exact .unused hfresh
    | waiting hlt hp hslot hresult => exact .waiting hlt (hps.mem_iff.mpr hp) hslot hresult
    | ready hlt hresult => exact .ready hlt hresult
    | closed hlt hcompleted hawaited => exact .closed hlt hcompleted hawaited
  waiting p hp := h.waiting p (hps.mem_iff.mp hp)

/-- Slots that are not touched are stored as they were. -/
theorem stored_of_eq {x : Mailbox ws} (h : x.Stored ps w σ) (hnext : w.nextSlot ≤ w'.nextSlot)
    (hfresh : w.nextSlot ≤ σ → w'.nextSlot ≤ σ) (hps : ∀ p ∈ ps, p.slot = σ → p ∈ ps')
    (hresult : w'.results σ = w.results σ) : x.Stored ps' w' σ := by
  cases h with
  | unused h => exact .unused (hfresh h)
  | waiting hlt hp hslot h => exact .waiting (hlt.trans_le hnext) (hps _ hp hslot) hslot (hresult.trans h)
  | ready hlt h => exact .ready (hlt.trans_le hnext) (hresult.trans h)
  | closed hlt hcompleted hawaited =>
    refine .closed (hlt.trans_le hnext) ?_ ?_
    · rw [hresult, hcompleted]
    · rw [hresult, hawaited]

theorem congr (h : Mailed ps w m) (hnext : w'.nextSlot = w.nextSlot) (hresults : w'.results = w.results) :
    Mailed ps w' m where
  nodup := h.nodup
  stored σ := stored_of_eq (h.stored σ) hnext.ge (fun h => hnext ▸ h) (fun _ hp _ => hp) (by rw [hresults])
  waiting := h.waiting

/-- One slot changes, and its mailbox with it. -/
theorem update (h : Mailed ps w m) {x : Mailbox ws} (hnext : w'.nextSlot = w.nextSlot)
    (hresults : ∀ τ, τ ≠ σ → w'.results τ = w.results τ) (hx : x.Stored ps w' σ)
    (hwaiting : ∀ p ∈ ps, p.slot = σ → ∃ t waker awaited, x = .waiting t p waker awaited) :
    Mailed ps w' (Function.update m σ x) where
  nodup := h.nodup
  stored τ := by
    by_cases hτ : τ = σ
    · subst hτ
      rwa [Function.update_self]
    · rw [Function.update_of_ne hτ]
      exact stored_of_eq (h.stored τ) hnext.ge (fun h => hnext ▸ h) (fun _ hp _ => hp) (hresults τ hτ)
  waiting p hp := by
    by_cases hσ : p.slot = σ
    · rw [hσ, Function.update_self]
      exact hwaiting p hp hσ
    · rw [Function.update_of_ne hσ]
      exact h.waiting p hp

/-- A payload leaves the slab, and its mailbox is filled. -/
theorem fill (h : Mailed (p :: ps) w m) (hm : m p.slot = .waiting t p waker awaited)
    (hanswered : Answered t p completed cause) (hnext : w'.nextSlot = w.nextSlot)
    (hresults : w'.results = Function.update w.results p.slot
      { completed := if (w.results p.slot).awaited then some completed else none
        waker := none
        awaited := (w.results p.slot).awaited }) :
    ∃ x, Mailbox.Step (m p.slot) (.filled p.slot completed (w.results p.slot).waker cause) x ∧
      Mailed ps w' (Function.update m p.slot x) := by
  obtain ⟨hslot, hnodup⟩ := List.nodup_cons.mp h.nodup
  have hself := congrFun hresults p.slot
  rw [Function.update_self] at hself
  have hother : ∀ τ, τ ≠ p.slot → w'.results τ = w.results τ := by
    intro τ hτ
    rw [hresults, Function.update_of_ne hτ]
  have hgone : ∀ q ∈ ps, q.slot ≠ p.slot := fun q hq hqp => hslot (hqp ▸ List.mem_map_of_mem hq)
  have hstored := h.stored p.slot
  rw [hm] at hstored ⊢
  cases hstored with
  | waiting hlt _ _ hresult =>
    have hrest : Mailed ps w' (Function.update m p.slot
        (if awaited then .ready completed else .closed)) :=
      { nodup := hnodup
        stored := fun τ => by
          by_cases hτ : τ = p.slot
          · subst hτ
            rw [Function.update_self]
            rw [hresult] at hself
            cases awaited with
            | true => exact .ready (hnext ▸ hlt) hself
            | false => exact .closed (hnext ▸ hlt) (by rw [hself]; rfl) (by rw [hself])
          · rw [Function.update_of_ne hτ]
            refine stored_of_eq (h.stored τ) hnext.ge (fun h => hnext ▸ h) ?_ (hother τ hτ)
            rintro q hq rfl
            exact (List.mem_cons.mp hq).resolve_left fun hqp => hτ (hqp ▸ rfl)
        waiting := fun q hq => by
          rw [Function.update_of_ne (hgone q hq)]
          exact h.waiting q (List.mem_cons_of_mem _ hq) }
    rw [hresult]
    cases awaited with
    | true => exact ⟨_, .filled hanswered, hrest⟩
    | false => exact ⟨_, .filledForNobody hanswered, hrest⟩

/-- A payload joins, with a mailbox of its own. -/
theorem accept (h : Mailed ps w m) (hslot : p.slot = w.nextSlot) (hnext : w'.nextSlot = w.nextSlot + 1)
    (hresults : w'.results = Function.update w.results w.nextSlot .new) :
    m p.slot = .unused ∧
      Mailed (p :: ps) w' (Function.update m p.slot (.waiting t p none true)) := by
  have hself : w'.results w.nextSlot = .new := by rw [hresults, Function.update_self]
  have hunused : m p.slot = .unused := by
    have hstored := h.stored p.slot
    rw [hslot] at hstored ⊢
    cases hx : m w.nextSlot with
    | unused => rfl
    | _ =>
      rw [hx] at hstored
      cases hstored
      exact absurd ‹w.nextSlot < w.nextSlot› (Nat.lt_irrefl _)
  have hne : ∀ q ∈ ps, q.slot ≠ p.slot := by
    intro q hq hqp
    obtain ⟨u, waker, awaited, hm⟩ := h.waiting q hq
    rw [hqp, hunused] at hm
    cases hm
  refine ⟨hunused, ⟨?_, fun σ => ?_, fun q hq => ?_⟩⟩
  · rw [List.map_cons, List.nodup_cons]
    refine ⟨fun hmem => ?_, h.nodup⟩
    obtain ⟨q, hq, hqp⟩ := List.mem_map.mp hmem
    exact hne q hq hqp
  · by_cases hσ : σ = p.slot
    · subst hσ
      rw [Function.update_self]
      refine .waiting ?_ List.mem_cons_self rfl ?_
      · rw [hslot, hnext]
        exact Nat.lt_succ_self _
      · rw [hslot, hself]
        rfl
    · rw [Function.update_of_ne hσ]
      rw [hslot] at hσ
      refine stored_of_eq (h.stored σ) (hnext ▸ Nat.le_succ _) (fun hle => ?_)
        (fun q hq _ => List.mem_cons_of_mem _ hq) (by rw [hresults, Function.update_of_ne hσ])
      rw [hnext]
      exact Nat.lt_of_le_of_ne hle (Ne.symm hσ)
  · rcases List.mem_cons.mp hq with rfl | hq
    · exact ⟨t, none, true, Function.update_self ..⟩
    · rw [Function.update_of_ne (hne q hq)]
      exact h.waiting q hq

end Mailed

/-- The mailboxes as the whole driver keeps them: the ones that wait are those of
the payloads in the slab, under the operations' tokens. -/
structure Represented (s : Sys ws) (m : SlotId → Mailbox ws) : Prop where
  mailed : Mailed s.payloads s.world m
  token : ∀ σ t p waker awaited, m σ = .waiting t p waker awaited →
    t.kind = .operation ∧ s.world.inner.slab.payloadAt t.key = some p
  placed : ∀ (t : Token ws) p, t.kind = .operation → s.world.inner.slab.payloadAt t.key = some p →
    ∃ waker awaited, m p.slot = .waiting t p waker awaited

/-- The log so far is a history of mailboxes, and these are they. -/
def Mailboxes (s : Sys ws) : Prop :=
  ∃ m, (mailboxes ws).History s.world.trace m ∧ Represented s m

namespace Represented

variable {m : SlotId → Mailbox ws} {p : OpPayload} {σ : SlotId}

/-- Code that moves no payload and no result. -/
theorem congr (h : Represented s m) (hpayloads : s'.world.inner.slab.payloadAt = s.world.inner.slab.payloadAt)
    (hnext : s'.world.nextSlot = s.world.nextSlot) (hresults : s'.world.results = s.world.results) :
    Represented s' m where
  mailed := (h.mailed.perm (Sys.payloads_same hpayloads)).congr hnext hresults
  token := by
    rw [hpayloads]
    exact h.token
  placed := by
    rw [hpayloads]
    exact h.placed

/-- One mailbox changes that the slab knows nothing of, or that goes on waiting. -/
theorem update (h : Represented s m) {x : Mailbox ws}
    (hpayloads : s'.world.inner.slab.payloadAt = s.world.inner.slab.payloadAt)
    (hnext : s'.world.nextSlot = s.world.nextSlot)
    (hresults : ∀ τ, τ ≠ σ → s'.world.results τ = s.world.results τ)
    (hx : x.Stored s.payloads s'.world σ)
    (hwaits : ∀ t p, (∃ waker awaited, m σ = .waiting t p waker awaited) ↔
      ∃ waker awaited, x = .waiting t p waker awaited) :
    Represented s' (Function.update m σ x) where
  mailed := by
    have hupdated := h.mailed.update hnext hresults hx fun p hp hσ => by
      obtain ⟨t, waker, awaited, hm⟩ := h.mailed.waiting p hp
      rw [hσ] at hm
      exact ⟨t, (hwaits t p).mp ⟨waker, awaited, hm⟩⟩
    exact hupdated.perm (Sys.payloads_same hpayloads)
  token τ t p waker awaited hτ := by
    rw [hpayloads]
    by_cases hτσ : τ = σ
    · subst hτσ
      rw [Function.update_self] at hτ
      obtain ⟨waker', awaited', hm⟩ := (hwaits t p).mpr ⟨waker, awaited, hτ⟩
      exact h.token _ _ _ _ _ hm
    · rw [Function.update_of_ne hτσ] at hτ
      exact h.token _ _ _ _ _ hτ
  placed t p hkind hp := by
    rw [hpayloads] at hp
    obtain ⟨waker, awaited, hm⟩ := h.placed t p hkind hp
    by_cases hσ : p.slot = σ
    · rw [hσ] at hm ⊢
      rw [Function.update_self]
      exact (hwaits t p).mp ⟨waker, awaited, hm⟩
    · rw [Function.update_of_ne hσ]
      exact ⟨waker, awaited, hm⟩

/-- The waiting mailbox of a slot nobody has filled, or the filled one of a slot
somebody waits for. -/
theorem awaited (h : Represented s m) (hslots : s.Slotted) (hfuture : s.futures σ = some future) :
    (∃ t p waker, m σ = .waiting t p waker true ∧ s.world.results σ =
        { completed := none, waker, awaited := true }) ∨
    ∃ completed, m σ = .ready completed ∧ s.world.results σ =
      { completed := some completed, waker := none, awaited := true } := by
  have hlt := hslots.future_lt σ future hfuture
  have hawaited := hslots.awaited σ hlt
  rw [hfuture] at hawaited
  have hstored := h.mailed.stored σ
  cases hm : m σ with
  | unused =>
    rw [hm] at hstored
    cases hstored with
    | unused hfresh => exact absurd hlt (Nat.not_lt.mpr hfresh)
  | waiting t p waker awaited =>
    rw [hm] at hstored
    cases hstored with
    | waiting _ _ _ hresult =>
      rw [hresult] at hawaited
      obtain rfl : awaited = true := hawaited
      exact .inl ⟨t, p, waker, rfl, hresult⟩
  | ready completed =>
    rw [hm] at hstored
    cases hstored with
    | ready _ hresult => exact .inr ⟨completed, rfl, hresult⟩
  | closed =>
    rw [hm] at hstored
    cases hstored with
    | closed _ _ hunawaited =>
      rw [hunawaited] at hawaited
      cases hawaited

end Represented

-- ---------------------------------------------------------------------------
-- Every run
-- ---------------------------------------------------------------------------

/-- What a move logs of no mailbox leaves the mailboxes alone. -/
theorem Mailboxes.congr (h : Mailboxes s) (es : List (Event ws)) (htrace : s'.world.trace = es ++ s.world.trace)
    (hkey : ∀ e ∈ es, e.mailbox = none)
    (hpayloads : s'.world.inner.slab.payloadAt = s.world.inner.slab.payloadAt)
    (hnext : s'.world.nextSlot = s.world.nextSlot) (hresults : s'.world.results = s.world.results) :
    Mailboxes s' := by
  obtain ⟨m, hrun, hm⟩ := h
  refine ⟨m, ?_, hm.congr hpayloads hnext hresults⟩
  rw [htrace]
  exact hrun.skipAll hkey

/-- One mailbox moves. -/
theorem Mailboxes.step (hrun : (mailboxes ws).History s.world.trace m) {x : Mailbox ws}
    (htrace : s'.world.trace = e :: s.world.trace) (hkey : e.mailbox = some σ)
    (hstep : Mailbox.Step (m σ) e x) (hm : Represented s' (Function.update m σ x)) : Mailboxes s' := by
  refine ⟨_, ?_, hm⟩
  rw [htrace]
  exact hrun.move hkey hstep

theorem Mailboxes.resolved (h : Mailboxes s) (hplain : op.payload.Plain) (hkind : cqe.token.kind = .operation)
    (hcell : s.world.inner.slab.cell cqe.token.key = some (.live op)) {ring : IoRing ws} :
    Mailboxes (s.withWorld ((s.world.setInner { s.world.inner with
      slab := (s.world.inner.slab.complete cqe.token).1
      ring }).resolveCompletion op.payload cqe).1) := by
  obtain ⟨m, hrun, hm⟩ := h
  have hp := OpSlab.payloadAt_of_cell hcell
  obtain ⟨waker, awaited, hwaiting⟩ := hm.placed _ _ hkind hp
  let w := s.world.setInner { s.world.inner with slab := (s.world.inner.slab.complete cqe.token).1, ring }
  have hslab : (w.resolveCompletion op.payload cqe).1.inner.slab.payloadAt =
      Function.update s.world.inner.slab.payloadAt cqe.token.key none := by
    rw [World.slab_resolveCompletion]
    exact OpSlab.payloadAt_complete hkind hcell
  have hmailed : Mailed (op.payload ::
      (s.withWorld (w.resolveCompletion op.payload cqe).1).payloads) w m := by
    refine (hm.mailed.perm ?_).congr rfl rfl
    exact (Sys.payloads_resolved hkind hcell (World.slab_resolveCompletion ..)).symm
  obtain ⟨x, hstep, hmailed'⟩ := hmailed.fill hwaiting (w.answered_settled hplain cqe)
    (World.nextSlot_resolveCompletion ..) (World.results_resolveCompletion ..)
  have hother : ∀ t p waker awaited, m p.slot = .waiting t p waker awaited → t ≠ cqe.token →
      p.slot ≠ op.payload.slot := by
    rintro t p waker' awaited' hm' ht hslot
    rw [hslot, hwaiting] at hm'
    cases hm'
    exact ht rfl
  refine Mailboxes.step hrun (World.trace_resolveCompletion ..) rfl hstep ⟨hmailed', ?_, ?_⟩
  · intro σ t p waker' awaited' hσ
    by_cases hslot : σ = op.payload.slot
    · subst hslot
      rw [Function.update_self] at hσ
      subst hσ
      rw [hwaiting] at hstep
      cases hstep
    · rw [Function.update_of_ne hslot] at hσ
      obtain ⟨htkind, ht⟩ := hm.token _ _ _ _ _ hσ
      refine ⟨htkind, ?_⟩
      rw [Sys.withWorld, hslab, Function.update_of_ne]
      · exact ht
      · intro hkey
        obtain rfl := Token.ext_key (htkind.trans hkind.symm) hkey
        cases ht.symm.trans hp
        have hstored := hm.mailed.stored σ
        rw [hσ] at hstored
        cases hstored with
        | waiting _ _ hself => exact hslot hself.symm
  · intro t p htkind ht
    rw [Sys.withWorld, hslab, Function.update_apply] at ht
    split at ht
    · cases ht
    · rename_i hkey
      obtain ⟨waker', awaited', hσ⟩ := hm.placed t p htkind ht
      refine ⟨waker', awaited', ?_⟩
      rw [Function.update_of_ne (hother _ _ _ _ hσ ?_)]
      · exact hσ
      · rintro rfl
        exact hkey rfl

theorem Mailboxes.released (h : Mailboxes s) {ring : IoRing ws} :
    Mailboxes (s.withWorld (s.world.setInner { s.world.inner with ring }).release.1) := by
  obtain ⟨m, hrun, hm⟩ := h
  let w := s.world.setInner { s.world.inner with ring }
  obtain ⟨m', hrun', hmailed⟩ := World.abandonAll_induction
    (P := fun ps w' => ∃ m, (mailboxes ws).History w'.trace m ∧ Mailed ps w' m) w
    ⟨m, hrun, hm.mailed.congr rfl rfl⟩ <| by
      rintro p ps w' ⟨m, hrun, hmailed⟩
      obtain ⟨t, waker, awaited, hwaiting⟩ := hmailed.waiting p List.mem_cons_self
      obtain ⟨x, hstep, hmailed'⟩ := hmailed.fill hwaiting .abandoned
        (World.nextSlot_resolveAbandoned w' p) (World.results_resolveAbandoned w' p)
      refine ⟨_, ?_, hmailed'⟩
      rw [World.trace_resolveAbandoned]
      exact hrun.move rfl hstep
  obtain ⟨hresults, hnext, -, -⟩ := World.release_frame w
  have htrace : w.release.1.trace = w.abandonAll.trace := World.trace_release
  have hnone : ∀ k, w.release.1.inner.slab.payloadAt k = none := by
    intro k
    rw [World.release_inner]
    exact OpSlab.payloadAt_drain ..
  refine ⟨m', ?_, ⟨?_, ?_, ?_⟩⟩
  · rw [Sys.withWorld, htrace]
    exact hrun'
  · have hnil : (s.withWorld w.release.1).payloads = [] := by
      rw [Sys.payloads, Sys.withWorld, World.release_inner]
      exact OpSlab.payloads_drain _
    rw [hnil]
    exact hmailed.congr hnext hresults
  · intro σ t p waker awaited hσ
    have hstored := hmailed.stored σ
    rw [hσ] at hstored
    cases hstored with
    | waiting _ hp => cases hp
  · intro t p hkind hp
    rw [Sys.withWorld, hnone] at hp
    cases hp

theorem kept_mailboxes (ok : Sys ws → Action ws → Prop) : KeptGiven ok Orderly Mailboxes where
  initial s hs := by
    have hnil : s.world.trace = [] := by
      rw [World.trace, hs.log]
      rfl
    have hpayloads : s.payloads = [] := by
      rw [Sys.payloads, hs.inner]
      exact OpSlab.payloads_new
    refine ⟨fun _ => .unused, hnil ▸ .nil, ⟨⟨?_, ?_, ?_⟩, ?_, ?_⟩⟩
    · simp [hpayloads]
    · exact fun σ => .unused (hs.nextSlot ▸ Nat.zero_le σ)
    · simp [hpayloads]
    · rintro σ t p waker awaited ⟨⟩
    · intro t p _ hp
      rw [hs.inner] at hp
      cases hp
  move s s' hb hj h hm := by
    have hsame : ∀ {s' : Sys ws}, s'.world.trace = s.world.trace →
        s'.world.inner.slab.payloadAt = s.world.inner.slab.payloadAt →
        s'.world.nextSlot = s.world.nextSlot → s'.world.results = s.world.results → Mailboxes s' :=
      fun htrace => h.congr [] htrace (by simp)
    have hlogs : ∀ {s' : Sys ws} {e : Event ws}, s'.world.trace = e :: s.world.trace → e.mailbox = none →
        s'.world.inner.slab.payloadAt = s.world.inner.slab.payloadAt →
        s'.world.nextSlot = s.world.nextSlot → s'.world.results = s.world.results → Mailboxes s' :=
      fun {s' e} htrace hkey => h.congr [e] htrace (by simpa using hkey)
    cases hm with
    | quiet hq =>
      exact hsame hq.world.trace (by rw [hq.world.inner.slab]) hq.world.nextSlot hq.world.results
    | executed => exact hlogs rfl rfl rfl rfl rfl
    | reported => exact hlogs rfl rfl rfl rfl rfl
    | refused hcell => exact hsame rfl (OpSlab.payloadAt_congr hcell) rfl rfl
    | cancelled => exact hsame rfl (OpSlab.payloadAt_registerCancel ..) rfl rfl
    | submitted => exact hsame rfl (OpSlab.payloadAt_promote _) rfl rfl
    | reapedCancel => exact hsame rfl (OpSlab.payloadAt_completeCancel ..) rfl rfl
    | detached t => exact hsame rfl (OpSlab.payloadAt_detach ..) rfl rfl
    | resolved _ _ hkind hcell =>
      exact h.resolved (hj.2.2 _ _ (OpSlab.payloadAt_of_cell hcell)) hkind hcell
    | released => exact h.released
    | @polled _ _ _ σ w hfuture hempty =>
      obtain ⟨m, hrun, hm⟩ := h
      rcases hm.awaited hj.2.1 hfuture with ⟨t, p, waker, hσ, hresult⟩ | ⟨completed, -, hresult⟩
      · have hstored := hm.mailed.stored σ
        rw [hσ] at hstored
        cases hstored with
        | waiting hlt hp hslot _ =>
          refine Mailboxes.step hrun rfl rfl (by rw [hσ]; exact .polled) (hm.update rfl rfl ?_ ?_ ?_)
          · exact fun τ hτ => Function.update_of_ne hτ ..
          · refine .waiting hlt hp hslot ?_
            exact (Function.update_self ..).trans (by rw [hresult])
          · intro u q
            rw [hσ]
            simp
      · rw [hresult] at hempty
        cases hempty
    | @delivered future completed _ _ σ hfuture hfilled =>
      obtain ⟨m, hrun, hm⟩ := h
      obtain ⟨_, _, hdeliver⟩ := s.world.deliver_eq σ future completed
      rcases hm.awaited hj.2.1 hfuture with ⟨t, p, waker, -, hresult⟩ | ⟨c, hσ, hresult⟩
      · rw [hresult] at hfilled
        cases hfilled
      · obtain rfl : c = completed := by
          rw [hresult] at hfilled
          exact Option.some.inj hfilled
        have hstored := hm.mailed.stored σ
        rw [hσ] at hstored
        cases hstored with
        | ready hlt =>
          have hworld : ∀ τ, (s.world.deliver σ future c).1.results τ = Function.update s.world.results σ
              { s.world.results σ with completed := none, awaited := false } τ := by
            intro τ
            rw [hdeliver]
            rfl
          refine Mailboxes.step hrun (e := .delivered σ c) ?_ rfl (by rw [hσ]; exact .delivered)
            (hm.update ?_ ?_ ?_ (.closed ?_ ?_ ?_) ?_)
          · rw [Sys.receive_world]
            exact World.trace_deliver ..
          · rw [Sys.receive_world, World.inner_deliver]
          · rw [Sys.receive_world, hdeliver]
            rfl
          · intro τ hτ
            rw [Sys.receive_world, hworld, Function.update_of_ne hτ]
          · rw [Sys.receive_world, hdeliver]
            exact hlt
          · rw [Sys.receive_world, hworld, Function.update_self]
          · rw [Sys.receive_world, hworld, Function.update_self]
          · intro u q
            rw [hσ]
            simp
    | @forgotten future _ _ σ detached underBorrow hfuture =>
      obtain ⟨m, hrun, hm⟩ := h
      have hworld : ∀ τ, ((s.world.emit (.futureDropped σ detached)).dropFutureRef σ underBorrow).results τ =
          Function.update s.world.results σ
            { s.world.results σ with completed := none, awaited := false } τ := by
        intro τ
        simp [World.dropFutureRef]
      have hnext : ((s.world.emit (.futureDropped σ detached)).dropFutureRef σ underBorrow).nextSlot =
          s.world.nextSlot := by simp [World.dropFutureRef]
      have hstored := hm.mailed.stored σ
      rcases hm.awaited hj.2.1 hfuture with ⟨t, p, waker, hσ, hresult⟩ | ⟨c, hσ, hresult⟩
      · rw [hσ] at hstored
        cases hstored with
        | waiting hlt hp hslot =>
          refine Mailboxes.step hrun (World.trace_dropFutureRef ..) rfl (by rw [hσ]; exact .forgotten)
            (hm.update ?_ hnext ?_ (.waiting ?_ hp hslot ?_) ?_)
          · rw [World.inner_dropFutureRef]
            rfl
          · intro τ hτ
            rw [hworld, Function.update_of_ne hτ]
          · rw [hnext]
            exact hlt
          · rw [hworld, Function.update_self, hresult]
          · intro u q
            rw [hσ]
            simp
      · rw [hσ] at hstored
        cases hstored with
        | ready hlt =>
          refine Mailboxes.step hrun (World.trace_dropFutureRef ..) rfl (by rw [hσ]; exact .discarded)
            (hm.update ?_ hnext ?_ (.closed ?_ ?_ ?_) ?_)
          · rw [World.inner_dropFutureRef]
            rfl
          · intro τ hτ
            rw [hworld, Function.update_of_ne hτ]
          · rw [hnext]
            exact hlt
          · rw [hworld, Function.update_self]
          · rw [hworld, Function.update_self]
          · intro u q
            rw [hσ]
            simp
    | filled => exact hlogs rfl rfl rfl rfl rfl
    | handleDropped =>
      refine hsame (World.trace_dropHandle ..) ?_ ?_ ?_
      · rw [World.inner_dropHandle]
      · simp [World.dropHandle]
      · simp [World.dropHandle]
    | _ => exact hsame rfl rfl rfl rfl
  accepted s s' t p e f _ _ hb hj h _ _ ha := by
    obtain ⟨m, hrun, hm⟩ := h
    obtain ⟨hunused, hmailed⟩ := hm.mailed.accept (t := t) ha.admitted.slot ha.nextSlot ha.results
    have hvacant : s.world.inner.slab.payloadAt t.key = none := by
      refine Option.eq_none_iff_forall_not_mem.mpr fun q hq => ?_
      obtain ⟨op, hop, -⟩ := OpSlab.payloadAt_eq_some.mp hq
      exact ha.unissued (OpSlab.issued_of_cell hop)
    refine ⟨Function.update m p.slot (.waiting t p none true), ?_, ⟨hmailed.perm ha.payloads, ?_, ?_⟩⟩
    · rw [ha.trace]
      refine Protocol.Run.skipAll (hrun.move rfl (hunused ▸ .accepted)) ?_
      simp [Event.mailbox]
    · intro σ u q waker awaited hσ
      rw [ha.payloadAt]
      by_cases hslot : σ = p.slot
      · rw [hslot, Function.update_self] at hσ
        cases hσ
        exact ⟨ha.kind, Function.update_self ..⟩
      · rw [Function.update_of_ne hslot] at hσ
        obtain ⟨hkind, hu⟩ := hm.token _ _ _ _ _ hσ
        refine ⟨hkind, ?_⟩
        rw [Function.update_of_ne]
        · exact hu
        · intro hkey
          rw [hkey, hvacant] at hu
          cases hu
    · intro u q hkind hq
      rw [ha.payloadAt, Function.update_apply] at hq
      split at hq
      · rename_i hkey
        cases hq
        obtain rfl := Token.ext_key (hkind.trans ha.kind.symm) hkey
        exact ⟨none, true, Function.update_self ..⟩
      · obtain ⟨waker, awaited, hσ⟩ := hm.placed u q hkind hq
        refine ⟨waker, awaited, ?_⟩
        rw [Function.update_of_ne]
        · exact hσ
        · intro hslot
          rw [hslot, hunused] at hσ
          cases hσ
  setCursor s file position hb hj h _ :=
    h.congr [.setCursor file position] rfl (by simp [Event.mailbox]) rfl rfl rfl

theorem mailboxes_of_reachable (hr : (systemMachine ws).Reachable s) : Mailboxes s :=
  (((kept_orderly _).and (kept_mailboxes _)).reachable hr).2

-- ---------------------------------------------------------------------------
-- The collections handed back
-- ---------------------------------------------------------------------------

/-- A registration that was handed back holds the buffers it was asked for, in
the order they were given. -/
def CollectionsHeld (s : Sys ws) : Prop :=
  ∀ σ result r waker cause, .filled σ (result, some (.collection r)) waker cause ∈ s.world.trace →
    r < s.world.nextRegistry ∧ ∃ t p checked buffers pointers extents watermarks descriptors,
      .accepted t p checked ∈ s.world.trace ∧ p.slot = σ ∧ p.pendingRegistration =
        some (.buffers buffers pointers extents watermarks descriptors) ∧
      (s.world.registries r).storage = (buffers, pointers, descriptors)

theorem CollectionsHeld.mono (h : CollectionsHeld s) (hfrozen : s.world.Frozen s'.world)
    (hsuffix : s.world.trace <:+ s'.world.trace)
    (hnew : ∀ σ result r waker cause, .filled σ (result, some (.collection r)) waker cause ∈ s'.world.trace →
      .filled σ (result, some (.collection r)) waker cause ∈ s.world.trace) : CollectionsHeld s' := by
  intro σ result r waker cause hmem
  obtain ⟨hlt, t, p, checked, buffers, pointers, extents, watermarks, descriptors, hacc, hslot, hpending,
    hstorage⟩ := h σ result r waker cause (hnew _ _ _ _ _ hmem)
  exact ⟨hlt.trans_le hfrozen.nextRegistry, t, p, checked, buffers, pointers, extents, watermarks, descriptors,
    hsuffix.subset hacc, hslot, hpending, (hfrozen.storage r hlt).trans hstorage⟩

theorem World.collection_settled (w : World ws) (p : OpPayload) (cqe : Cqe ws)
    (h : (w.settled p cqe).2 = some (.collection r)) :
    r < (w.resolveCompletion p cqe).1.nextRegistry ∧ ∃ buffers pointers extents watermarks descriptors,
      p.pendingRegistration = some (.buffers buffers pointers extents watermarks descriptors) ∧
      ((w.resolveCompletion p cqe).1.registries r).storage = (buffers, pointers, descriptors) := by
  have hfrozen : (w.settleRegistration p (completionResult cqe.outcome)).1.Frozen
      (w.resolveCompletion p cqe).1 :=
    (World.Frozen.raiseTransfer ..).trans (World.Keeps.fill RegistryInner.unmarked_storage ..).frozen
  simp only [settled] at h
  rcases w.settleRegistration_cases p (completionResult cqe.outcome) with
    ⟨-, hsettle⟩ | ⟨_, _, -, -, hsettle⟩ | ⟨_, _, -, -, hsettle⟩ |
    ⟨buffers, pointers, extents, watermarks, descriptors, n, hpending, hn, hsettle⟩
  all_goals rw [hsettle] at h hfrozen
  · cases hb : p.buffer with
    | none =>
      rw [hb] at h
      cases h
    | some b =>
      rw [hb] at h
      cases b <;> cases h
  · cases h
  · cases hb : p.buffer with
    | none =>
      rw [hb] at h
      cases h
    | some b =>
      rw [hb] at h
      cases b <;> cases h
  · cases h
    refine ⟨hfrozen.nextRegistry.trans_lt' (Nat.lt_succ_self _), _, _, _, _, _, hpending, ?_⟩
    rw [hfrozen.storage w.nextRegistry (Nat.lt_succ_self _)]
    simp [adoptRegistration, RegistryInner.storage, RegistryInner.new]

theorem kept_collectionsHeld (ok : Sys ws → Action ws → Prop) : KeptGiven ok Orderly CollectionsHeld where
  initial s hs σ result r waker cause hmem := by
    rw [World.trace, hs.log] at hmem
    cases hmem
  move s s' hb hj h hm := by
    have hfrozen := hm.frozen
    have hquiet : ∀ es : List (Event ws), s'.world.trace = es ++ s.world.trace →
        (∀ e ∈ es, ∀ σ result r waker cause, e ≠ .filled σ (result, some (.collection r)) waker cause) →
        CollectionsHeld s' := by
      intro es htrace hes
      refine h.mono hfrozen hm.suffix fun σ result r waker cause hmem => ?_
      rw [htrace] at hmem
      exact (List.mem_append.mp hmem).resolve_left fun hmem => hes _ hmem σ result r waker cause rfl
    have hsame : s'.world.trace = s.world.trace → CollectionsHeld s' :=
      fun htrace => hquiet [] htrace (by simp)
    have hlogs : ∀ {e : Event ws}, s'.world.trace = e :: s.world.trace → e.isFill = false →
        CollectionsHeld s' := by
      intro e htrace he
      refine hquiet [e] htrace ?_
      rintro e' he' σ result r waker cause rfl
      obtain rfl := List.mem_singleton.mp he'
      cases he
    cases hm with
    | quiet hq => exact hsame hq.world.trace
    | executed => exact hlogs rfl rfl
    | reported => exact hlogs rfl rfl
    | @resolved cqe rest _ op _ hring hkind hcell =>
      have htrace : (s.withWorld ((s.world.setInner { s.world.inner with
          slab := (s.world.inner.slab.complete cqe.token).1
          ring := { s.world.inner.ring with completions := rest } }).resolveCompletion op.payload
            cqe).1).world.trace = _ := World.trace_resolveCompletion ..
      intro σ result r waker cause hmem
      rw [htrace] at hmem
      rcases List.mem_cons.mp hmem with heq | hmem
      · injection heq with hslot hcompleted
        obtain ⟨checked, hacc⟩ := hj.1.1.accepted hkind hcell
        obtain ⟨hlt, buffers, pointers, extents, watermarks, descriptors, hpending, hstorage⟩ :=
          World.collection_settled _ op.payload cqe (congrArg Prod.snd hcompleted).symm
        refine ⟨hlt, cqe.token, op.payload, checked, buffers, pointers, extents, watermarks, descriptors, ?_,
          hslot.symm, hpending, hstorage⟩
        rw [htrace]
        exact List.mem_cons_of_mem _ hacc
      · obtain ⟨hlt, t, p, checked, buffers, pointers, extents, watermarks, descriptors, hacc, hslot, hpending,
          hstorage⟩ := h σ result r waker cause hmem
        refine ⟨hlt.trans_le hfrozen.nextRegistry, t, p, checked, buffers, pointers, extents, watermarks,
          descriptors, ?_, hslot, hpending, (hfrozen.storage r hlt).trans hstorage⟩
        rw [htrace]
        exact List.mem_cons_of_mem _ hacc
    | @released ring =>
      obtain ⟨es, htrace, hes⟩ := World.trace_resolveAllAbandoned
        (w := (s.world.setInner { s.world.inner with ring }).setInner
          { s.world.inner with ring, slab := s.world.inner.slab.drain.1 })
        s.world.inner.slab.drain.2
      refine hquiet _ (World.trace_release.trans htrace) ?_
      rintro e he σ result r waker cause rfl
      obtain ⟨p, -, waker', heq⟩ := hes _ he
      injection heq with _ hcompleted
      have hboxed := (congrArg Prod.snd hcompleted).symm
      dsimp only [World.abandoned] at hboxed
      split at hboxed
      · cases hboxed
      · cases hb : p.buffer with
        | none =>
          rw [hb] at hboxed
          cases hboxed
        | some b =>
          rw [hb] at hboxed
          cases b <;> cases hboxed
    | polled => exact hlogs rfl rfl
    | @delivered future completed _ _ σ =>
      refine hlogs (e := .delivered σ completed) ?_ rfl
      rw [Sys.receive_world]
      exact World.trace_deliver ..
    | forgotten => exact hlogs (World.trace_dropFutureRef ..) rfl
    | filled => exact hlogs rfl rfl
    | handleDropped => exact hsame (World.trace_dropHandle ..)
    | _ => exact hsame rfl
  accepted s s' t p e f _ _ hb hj h _ _ ha := by
    refine h.mono ⟨ha.nextRegistry.ge, fun r _ => by rw [ha.registries]⟩ ?_ fun σ result r waker cause hmem => ?_
    · rw [ha.trace]
      exact (List.suffix_cons ..).trans (List.suffix_append ..)
    · rw [ha.trace] at hmem
      simpa using hmem
  setCursor s file position hb hj h _ :=
    h.mono (.of_eq rfl rfl) (List.suffix_cons ..) fun σ result r waker cause hmem =>
      (List.mem_cons.mp hmem).resolve_left (by rintro ⟨⟩)

-- ---------------------------------------------------------------------------
-- Once, and with the caller's own
-- ---------------------------------------------------------------------------

/-- A read that completes while the driver drains, with the driver's last step
behind it and the future still there. -/
def readDrained : List (Action .w64) :=
  let e : Sqe .w64 := ⟨.read (.raw 3) (.raw 4096) 512 0, 2 ^ 17⟩
  [.start (.read 3 (.owned ⟨4096, 512, 0⟩) 512 0) .willing, .poll 0 9, .escalate .graceful,
    .pollDrive 7 .willing, .execute e ⟨0, 512⟩, .report e ⟨0, 512⟩,
    .advance .willing, .advance .willing, .advance .willing, .advance .willing,
    .advance .willing, .advance .willing, .advance .willing, .advance .willing]

/-- Over every run the driver is a mailbox for each operation: whatever it logs
of an operation follows the protocol, and the mailboxes are those it keeps. -/
theorem driver_refines_mailboxes (hr : (systemMachine ws).Reachable s) :
    ∃ m, (mailboxes ws).History s.world.trace m ∧ Represented s m :=
  mailboxes_of_reachable hr

theorem driver_refines_mailboxes_drained : ∃ s : Sys .w64, s.world.trace.countP (Event.fills 0) = 1 ∧
    ∃ m, (mailboxes .w64).History s.world.trace m ∧ Represented s m := by
  obtain ⟨s, hrun, hfilled⟩ : ∃ s, (systemMachine .w64).run .new readDrained = some s ∧
      s.world.trace.countP (Event.fills 0) = 1 :=
    ⟨_, rfl, rfl⟩
  exact ⟨s, hfilled, driver_refines_mailboxes (reachable_of_run hrun)⟩

/-- Over every run an accepted operation's result is left once, if at all: by its
own completion or as abandoned, with the buffer it was given, a registration with
its buffers in their order, taking the waker of the latest poll. By the time the
driver is torn down it has been left, and waits for the future if there still is
one. -/
theorem resolved_exactly_once (hr : (systemMachine ws).Reachable s)
    (hacc : .accepted t p checked ∈ s.world.trace) :
    s.world.trace.countP (Event.fills p.slot) ≤ 1 ∧
    (∀ after before completed waker cause,
      s.world.trace = after ++ .filled p.slot completed waker cause :: before →
        Answered t p completed cause ∧ waker = latestPoll p.slot before ∧
        ∀ r, completed.2 = some (.collection r) → ∃ buffers pointers extents watermarks descriptors,
          p.pendingRegistration = some (.buffers buffers pointers extents watermarks descriptors) ∧
          (s.world.registries r).buffers = buffers) ∧
    (s.world.inner.tornDown = true → s.world.trace.countP (Event.fills p.slot) = 1 ∧
      ∀ future, s.futures p.slot = some future → ∃ completed waker cause,
        .filled p.slot completed waker cause ∈ s.world.trace ∧
        (s.world.results p.slot).completed = some completed) := by
  obtain ⟨m, hrun, hm⟩ := mailboxes_of_reachable hr
  have hb := books_of_reachable hr
  have hslots := (kept_slotted _).reachable hr
  have hparty := recorded (Protocol.Run.party hrun p.slot)
  have hmem : ∀ {e : Event ws}, e ∈ s.world.trace → e.mailbox = some p.slot →
      e ∈ s.world.trace.filter fun e => e.mailbox = some p.slot := by
    intro e he hkey
    exact List.mem_filter.mpr ⟨he, decide_eq_true hkey⟩
  have hcount := countP_fills hrun p.slot
  refine ⟨?_, ?_, fun htorn => ?_⟩
  · rw [hcount]
    split <;> simp
  · intro after before completed waker cause htrace
    have hfill : .filled p.slot completed waker cause ∈ s.world.trace := by simp [htrace]
    refine ⟨hparty.answered t p checked p.slot completed waker cause (hmem hacc rfl) (hmem hfill rfl), ?_, ?_⟩
    · rw [htrace] at hrun
      obtain ⟨_, hfilled, -⟩ := Protocol.Run.split hrun
      obtain ⟨m', hbefore, hstep⟩ := Protocol.run_cons.mp hfilled
      have hkey : (Event.filled p.slot completed waker cause).mailbox = some p.slot := rfl
      obtain ⟨x, hx, -⟩ : ∃ x, Mailbox.Step (m' p.slot) (.filled p.slot completed waker cause) x ∧ _ :=
        (Protocol.each_step_some hkey).mp hstep
      generalize hσ : m' p.slot = y at hx
      cases hx with
      | filled => exact latestPoll_eq hbefore hσ
      | filledForNobody => exact latestPoll_eq hbefore hσ
    · intro r hr'
      obtain ⟨result, boxed⟩ := completed
      obtain rfl : boxed = some (.collection r) := hr'
      have hheld := ((kept_orderly _).and (kept_collectionsHeld _)).reachable hr
      obtain ⟨-, u, q, files, buffers, pointers, extents, watermarks, descriptors, hacc', hslot, hpending,
        hstorage⟩ := hheld.2 p.slot result r waker cause hfill
      obtain ⟨-, rfl⟩ := hparty.sole t p checked u q files (hmem hacc rfl)
        (hmem hacc' (by rw [← hslot]; rfl))
      exact ⟨buffers, pointers, extents, watermarks, descriptors, hpending, congrArg Prod.fst hstorage⟩
  · have hnil : s.payloads = [] := by
      refine List.eq_nil_iff_forall_not_mem.mpr fun q hq => ?_
      obtain ⟨k, hk⟩ := OpSlab.mem_payloads.mp hq
      obtain ⟨op, hop, -⟩ := OpSlab.payloadAt_eq_some.mp hk
      rw [(hb.closed (hb.tornDown.symm.trans htorn)).2 k] at hop
      cases hop
    have hfilled : (m p.slot).filled = true := by
      have hstored := hm.mailed.stored p.slot
      cases hσ : m p.slot with
      | unused => exact absurd (hmem hacc rfl) (hparty.fresh hσ t p checked)
      | waiting =>
        rw [hσ, hnil] at hstored
        cases hstored with
        | waiting _ hp => cases hp
      | _ => rfl
    refine ⟨by rw [hcount, hfilled]; rfl, fun future hfuture => ?_⟩
    rcases hm.awaited hslots hfuture with ⟨u, q, waker, hσ, -⟩ | ⟨completed, hσ, hresult⟩
    · rw [hσ] at hfilled
      cases hfilled
    · obtain ⟨τ, waker, cause, hfill⟩ := hparty.ready completed hσ
      obtain ⟨hfill, hkey⟩ := List.mem_filter.mp hfill
      obtain rfl : τ = p.slot := Option.some.inj (of_decide_eq_true hkey)
      exact ⟨completed, waker, cause, hfill, by rw [hresult]⟩

theorem resolved_exactly_once_drained : ∃ s : Sys .w64, ∃ p : OpPayload, p.buffer = some (.owned ⟨4096, 512, 0⟩) ∧
    s.world.inner.tornDown = true ∧ s.world.trace.countP (Event.fills p.slot) = 1 ∧
    ∃ completed, (s.world.results p.slot).completed = some completed := by
  obtain ⟨s, t, p, future, hrun, hacc, hbuffer, htorn, hfuture⟩ : ∃ s t p future,
      (systemMachine .w64).run .new readDrained = some s ∧
      s.world.trace.getLast? = some (.accepted t p none) ∧
      p.buffer = some (.owned ⟨4096, 512, 0⟩) ∧ s.world.inner.tornDown = true ∧
      s.futures p.slot = some future :=
    ⟨_, _, _, _, rfl, rfl, rfl, rfl, rfl⟩
  obtain ⟨-, -, hdone⟩ := resolved_exactly_once (reachable_of_run hrun) (List.mem_of_getLast? hacc)
  obtain ⟨hcount, hresult⟩ := hdone htorn
  obtain ⟨completed, -, -, -, hcompleted⟩ := hresult future hfuture
  exact ⟨s, p, hbuffer, htorn, hcount, completed, hcompleted⟩

end WinIoring.Runtime
