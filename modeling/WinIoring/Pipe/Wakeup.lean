import WinIoring.Pipe.Safety

/-!
# Wakeups of an accept

A parked accept is woken once its connect has completed and every signal has been
delivered, except where the last of them is delivered inside one poll, between its
collect and its second look at the signal.
-/

namespace WinIoring.Pipe

open WinIoring.Runtime (Waker)

variable {s s' : Sys} {c c' : ConnectId} {k k' : Connect} {act : Action} {log : List Event}

/-- The waker of the latest poll of the live future. -/
def latestPoll : List Event → Option Waker
  | [] => none
  | .polled w :: _ => some w
  | .began :: _ => none
  | _ :: log => latestPoll log

/-- Whether the waker has been woken since the latest poll began. -/
def wokenSince (w : Waker) : List Event → Bool
  | [] => false
  | .wake w' :: log => w' = w || wokenSince w log
  | .polled _ :: _ | .began :: _ => false
  | _ :: log => wokenSince w log

/-- The waker that `Accept::poll` was called with. -/
def Pc.polling : Pc → Option Waker
  | .collecting (.poll w) | .reparking w => some w
  | _ => none

-- ---------------------------------------------------------------------------
-- What is to be shown
-- ---------------------------------------------------------------------------

/-- A poll with `w` does not park, whatever comes between its parts: it resolves the
future as soon as no callback holds the drop of the event up. -/
def PollResolves (s : Sys) (w : Waker) : Prop :=
  ∃ s₁, s.step (.poll w) = some s₁ ∧ ∀ as s₂, (∀ act ∈ as, ∀ a, act ≠ Action.advance a) →
    machine.run s₁ as = some s₂ → s₂.pc ≠ .idle ∧
      (∀ a s₃, s₂.step (.advance a) = some s₃ → ∃ r, Resolves s₂ s₃ r) ∧
      ((∀ c, (s₂.connects c).event.running = false) → ∀ a, ∃ s₃, s₂.step (.advance a) = some s₃)

/-- The waker of the latest poll of a parked accept, its connect completed and every
signal delivered, has been woken or will be, and the next poll resolves. -/
def AcceptWoken (s : Sys) : Prop :=
  ∀ c w, s.pc = .idle → s.future = some .waiting → latestPoll s.log = some w →
    s.accept = .accepting c → (s.connects c).completed = true → (s.connects c).delivered = true →
      (wokenSince w s.log = true ∨ w ∈ (s.connects c).event.poolWakes) ∧ ∀ w', PollResolves s w'

/-- Whether a poll that has found the connect unfinished takes, at its second look at
the signal, the last one of a connect that has completed since. -/
def disturbs (s : Sys) (act : Action) : Bool :=
  match act, s.pc, s.accept with
  | .advance _, .reparking _, .accepting c =>
    (s.connects c).event.signalled && (s.connects c).completed && (s.connects c).delivered
  | _, _, _ => false

def Undisturbed (s : Sys) (act : Action) : Prop := disturbs s act = false

-- ---------------------------------------------------------------------------
-- The invariant
-- ---------------------------------------------------------------------------

/-- A completion that has been delivered is signalled or has been read, and a parked
waker is in place, taken by a callback, or woken. -/
structure Connect.Watched (pc : Pc) (future : Option AcceptFuture) (log : List Event) (k : Connect) :
    Prop where
  signalled : pc.tearing = none → (∀ caller, pc ≠ .collecting caller) → k.completed = true →
    k.delivered = true → k.event.signalled = true ∨ k.observed = true
  unobserved : future = some .waiting → (∀ caller, pc ≠ .collecting caller) → k.observed = false
  woken : ∀ w, future = some .waiting → pc = .idle → latestPoll log = some w →
    (k.event.waker = some w ∧ k.event.signalled = false) ∨ w ∈ k.event.poolWakes ∨
      wokenSince w log = true

/-- The connect in the slot is watched, and a poll in progress is the latest. -/
structure Wakes (s : Sys) : Prop where
  polling : ∀ w, s.pc.polling = some w → s.future = some .waiting ∧ latestPoll s.log = some w
  announced : ∀ c, (s.connects c).announced = true → (s.connects c).completed = true
  watched : ∀ c, s.accept = .accepting c → (s.connects c).Watched s.pc s.future s.log

namespace Wakes

theorem new : Wakes .new := ⟨nofun, nofun, nofun⟩

/-- The platform changes one connect, and puts on record at most that it woke
someone. -/
theorem modify (h : Wakes s) (log : List Event) (hlatest : latestPoll log = latestPoll s.log)
    (hwoken : ∀ w, wokenSince w s.log = true → wokenSince w log = true)
    (hannounced : k.announced = true → k.completed = true)
    (hk : s.accept = .accepting c → k.Watched s.pc s.future log) :
    Wakes { s with connects := Function.update s.connects c k, log } where
  polling w hpc := ⟨(h.polling w hpc).1, hlatest.trans (h.polling w hpc).2⟩
  announced := (Function.forall_update_iff s.connects fun _ k =>
    k.announced = true → k.completed = true).mpr ⟨hannounced, fun c _ => h.announced c⟩
  watched := (Function.forall_update_iff s.connects fun c k =>
    s.accept = .accepting c → k.Watched s.pc s.future log).mpr ⟨hk, fun c _ haccept =>
      { h.watched c haccept with
        woken := fun w hf hpc hl =>
          ((h.watched c haccept).woken w hf hpc (hlatest.symm.trans hl)).imp_right
            (Or.imp_right (hwoken w)) }⟩

/-- The slot has no connect. -/
theorem vacant (h : ∀ c, (s.connects c).announced = true → (s.connects c).completed = true)
    (haccept : ∀ c, s.accept ≠ .accepting c) (hpc : s.pc.polling = none) : Wakes s where
  polling w hw := by rw [hpc] at hw; cases hw
  announced := h
  watched c hc := absurd hc (haccept c)

/-- The server's code changes the connect in the slot, and goes on. -/
theorem turn (h : Wakes s) (hconnects : s'.connects = Function.update s.connects c k)
    (haccept : s.accept = .accepting c) (hstays : s'.accept = s.accept)
    (hannounced : k.announced = true → k.completed = true)
    (hpolling : ∀ w, s'.pc.polling = some w → s'.future = some .waiting ∧ latestPoll s'.log = some w)
    (hk : k.Watched s'.pc s'.future s'.log) : Wakes s' where
  polling := hpolling
  announced := by
    rw [hconnects]
    exact (Function.forall_update_iff s.connects fun _ k =>
      k.announced = true → k.completed = true).mpr ⟨hannounced, fun c _ => h.announced c⟩
  watched c' hc := by
    obtain rfl := AcceptState.accepting.inj ((hstays.trans haccept).symm.trans hc)
    rw [hconnects, Function.update_self]
    exact hk

/-- The connect is as it was. -/
theorem rest (h : Wakes s) (hconnects : s'.connects = s.connects) (haccept : s.accept = .accepting c)
    (hstays : s'.accept = s.accept)
    (hpolling : ∀ w, s'.pc.polling = some w → s'.future = some .waiting ∧ latestPoll s'.log = some w)
    (hk : (s.connects c).Watched s'.pc s'.future s'.log) : Wakes s' :=
  h.turn (hconnects.trans (Function.update_eq_self c s.connects).symm) haccept hstays (h.announced c)
    hpolling hk

end Wakes

theorem Connect.not_delivered (h : k.announced = false) : ¬ k.delivered = true := by
  rw [Connect.delivered, h]
  exact nofun

theorem Connect.Watched.tearing {pc : Pc} {future : Option AcceptFuture} (hpc : pc.tearing = some c)
    (hfuture : future = none) : k.Watched pc future log where
  signalled hnone := by rw [hpc] at hnone; cases hnone
  unobserved hf := by rw [hfuture] at hf; cases hf
  woken w hf := by rw [hfuture] at hf; cases hf

/-- A status found incomplete is not terminal. -/
theorem Connect.pending_of_result (hfinished : k.internal ≠ .terminal (.error errorIoIncomplete))
    (hresult : k.getOverlappedResult = .error errorIoIncomplete) : k.completed = false := by
  unfold Connect.getOverlappedResult at hresult
  unfold Connect.completed
  split at hresult
  · rfl
  · rename_i hinternal
    exact absurd (hinternal.trans (congrArg _ hresult)) hfinished

namespace Wakes

theorem move (h : Wakes s) (hw : Wf s) (hm : Move s act s') (hok : Undisturbed s act) : Wakes s' := by
  have hidle : s.callable = true → s.pc = .idle := fun hcall => (Sys.callable_iff.mp hcall).1
  have hpending : ∀ c, (s.connects c).completed = false → (s.connects c).observed = false := by
    intro c hpending
    cases hobserved : (s.connects c).observed with
    | false => rfl
    | true => exact ((hw.placed c).observed hobserved).symm.trans hpending
  have hquiet : ∀ c, (s.connects c).completed = false → (s.connects c).announced = false := by
    intro c hpending
    cases hannounced : (s.connects c).announced with
    | false => rfl
    | true => exact (h.announced c hannounced).symm.trans hpending
  have hupdate : ∀ {c : ConnectId} {k : Connect}, s'.connects = Function.update s.connects c k →
      (k.announced = true → k.completed = true) →
      ∀ c, (s'.connects c).announced = true → (s'.connects c).completed = true := by
    intro c k hconnects hk
    rw [hconnects]
    exact (Function.forall_update_iff s.connects fun _ k =>
      k.announced = true → k.completed = true).mpr ⟨hk, fun c _ => h.announced c⟩
  have hempty : ∀ {a}, s.Submits a → ∀ c, s.accept ≠ .accepting c := by
    intro a hsubmits c haccept
    rcases hsubmits.free with hfree | hfree <;> cases haccept.symm.trans hfree
  have hwaiting : s.future = some .waiting → (∀ c, s.accept ≠ .accepting c) → Wakes s' := by
    intro hfuture hslot
    obtain ⟨c, haccept⟩ := hw.waiting hfuture
    exact absurd haccept (hslot c)
  have hcollecting : ∀ {caller}, s.pc = .collecting caller → (∀ c, s.accept ≠ .accepting c) →
      Wakes s' := by
    intro caller hpc hslot
    obtain ⟨c, haccept⟩ := hw.collecting caller hpc
    exact absurd haccept (hslot c)
  cases hm with
  | @completed c result hout hresult =>
    obtain ⟨-, hpend⟩ := (Bool.and_eq_true _ _).mp hout
    have hpend : (s.connects c).completed = false := by simpa using hpend
    refine h.modify (_ :: s.log) rfl (fun _ => id) (fun _ => rfl) fun haccept => ?_
    have hwatched := h.watched c haccept
    exact ⟨fun _ _ _ hd => absurd hd (Connect.not_delivered (hquiet c hpend)), hwatched.unobserved,
      hwatched.woken⟩
  | @signalled c =>
    refine h.modify s.log rfl (fun _ => id) (h.announced c) fun haccept => ?_
    have hwatched := h.watched c haccept
    refine ⟨fun _ _ _ hd => ?_, hwatched.unobserved, hwatched.woken⟩
    simp [Connect.delivered, ArmedEvent.signal] at hd
  | @dispatched c event hevent =>
    refine h.modify s.log rfl (fun _ => id) (h.announced c) fun haccept => ?_
    have hwatched := h.watched c haccept
    simp only [ArmedEvent.dispatch] at hevent
    split at hevent
    · obtain rfl := Option.some.inj hevent
      refine ⟨fun _ _ _ hd => ?_, hwatched.unobserved, hwatched.woken⟩
      simp [Connect.delivered] at hd
    · cases hevent
  | @calledBack c event hevent =>
    simp only [ArmedEvent.callback] at hevent
    split at hevent
    · cases hevent
    rename_i n hn
    obtain rfl := Option.some.inj hevent
    refine h.modify s.log rfl (fun _ => id) (fun ha => ?_) fun haccept => ?_
    · exact ((Bool.or_eq_true _ _).mp ha).elim (h.announced c) id
    · have hwatched := h.watched c haccept
      refine ⟨fun _ _ _ _ => .inl rfl, hwatched.unobserved, fun w hf hpc hl => .inr ?_⟩
      rcases hwatched.woken w hf hpc hl with ⟨hwaker, -⟩ | hwaker | hwoken
      · exact .inl (List.mem_append_right _ (by simp [hwaker]))
      · exact .inl (List.mem_append_left _ hwaker)
      · exact .inr hwoken
  | @woke c w event hevent =>
    simp only [ArmedEvent.wake] at hevent
    split at hevent
    · obtain rfl := Option.some.inj hevent
      refine h.modify (.wake w :: s.log) rfl
        (fun _ hwoken => (Bool.or_eq_true _ _).mpr (.inr hwoken)) (h.announced c) fun haccept => ?_
      have hwatched := h.watched c haccept
      refine ⟨hwatched.signalled, hwatched.unobserved, fun w' hf hpc hl => ?_⟩
      rcases hwatched.woken w' hf hpc hl with hwaker | hwaker | hwoken
      · exact .inl hwaker
      · by_cases heq : w = w'
        · exact .inr (.inr ((Bool.or_eq_true _ _).mpr (.inl (decide_eq_true heq))))
        · exact .inr (.inl ((List.mem_erase_of_ne (Ne.symm heq)).mpr hwaker))
      · exact .inr (.inr ((Bool.or_eq_true _ _).mpr (.inr hwoken)))
    · cases hevent
  | clientGone => exact { h with }
  | readied hcall haccept =>
    exact .vacant h.announced (fun c hc => absurd (haccept.symm.trans hc) (by rintro ⟨⟩)) rfl
  | @rejoined c a hcall haccept hpend =>
    have hwatched := h.watched c haccept
    refine h.rest rfl haccept rfl (by rintro _ ⟨⟩) ⟨fun _ _ hdone => ?_, fun _ _ => hpending c hpend, (by rintro _ _ _ ⟨⟩)⟩
    cases hpend.symm.trans hdone
  | @resumed c a hcall haccept =>
    exact h.turn rfl haccept rfl (h.announced c) (by rintro _ ⟨⟩)
      ⟨fun _ hc => absurd rfl (hc .accept), fun _ hc => absurd rfl (hc .accept), (by rintro _ _ ⟨⟩)⟩
  | unarmed hcall hfree =>
    refine .vacant h.announced (fun c (haccept : s.accept = _) => ?_) rfl
    rcases hfree with hfree | hfree <;> cases haccept.symm.trans hfree
  | @joined a event => exact .vacant (hupdate (s.closeSlot_issue a.connect event) (by rintro ⟨⟩)) (by rintro _ ⟨⟩) rfl
  | @refused a hr event hsubmits =>
    exact .vacant (hupdate (s.closeSlot_issue a.connect event) (by rintro ⟨⟩)) (hempty hsubmits) rfl
  | @pended a hsubmits =>
    have hconnects := s.modify_issue a.connect fun k => { k with pended := true }
    refine ⟨(by rintro _ ⟨⟩), hupdate hconnects (by rintro ⟨⟩), fun c hc => ?_⟩
    obtain rfl := AcceptState.accepting.inj hc
    refine (congrArg (Connect.Watched _ _ _) ((congrFun hconnects _).trans
      (Function.update_self ..))).mpr ?_
    exact ⟨fun _ _ => (by rintro ⟨⟩), fun _ _ => rfl, (by rintro _ _ _ ⟨⟩)⟩
  | settled hpc =>
    refine ⟨(by rintro _ ⟨⟩), h.announced, fun c hc => ⟨fun _ hnot => ?_, (by rintro ⟨⟩), (by rintro _ ⟨⟩)⟩⟩
    exact (h.watched c hc).signalled (hpc ▸ rfl) (hpc ▸ hnot)
  | @parked c w hpc hfuture haccept hquiet' =>
    have hwatched := h.watched c haccept
    refine h.turn rfl haccept rfl (h.announced c) (by rw [Sys.setEvent]; simp [hpc, Pc.polling]) ?_
    refine ⟨hwatched.signalled, hwatched.unobserved, fun w' hf _ hl => .inl ⟨?_, hquiet'⟩⟩
    exact hl
  | @found c w hpc hfuture haccept =>
    refine h.turn rfl haccept rfl (h.announced c) (fun w' hw' => ⟨hfuture, hw'⟩) ?_
    exact ⟨fun _ hc => absurd rfl (hc (.poll w)), fun _ hc => absurd rfl (hc (.poll w)), (by rintro _ _ ⟨⟩)⟩
  | polledConnected hpc hfuture haccept =>
    exact hwaiting hfuture fun c hc => absurd (haccept.symm.trans hc) (by rintro ⟨⟩)
  | polledFree hpc hfuture hfree =>
    refine hwaiting hfuture fun c haccept => ?_
    rcases hfree with hfree | hfree <;> cases haccept.symm.trans hfree
  | abandoned hpc =>
    refine ⟨fun w hw' => ?_, h.announced, fun c hc => ?_⟩
    · rw [hpc] at hw'
      cases hw'
    · exact ⟨(h.watched c hc).signalled, (by rintro ⟨⟩), (by rintro _ ⟨⟩)⟩
  | disconnected hcall =>
    exact .vacant h.announced (by rintro _ ⟨⟩) (congrArg Pc.polling (hidle hcall))
  | declined => exact h
  | dropped hcall haccept => exact .vacant h.announced haccept rfl
  | @tearing c hcall haccept =>
    refine h.turn rfl haccept rfl (h.announced c) (fun w hpolling => ?_)
      (.tearing (c := c) ?_ (Sys.callable_iff.mp hcall).2)
    · dsimp only at hpolling
      split at hpolling <;> cases hpolling
    · dsimp only
      split <;> rfl
  | @collected caller c event a =>
    have hconnects := s.closeSlot_observe c event
    cases caller <;> exact .vacant (hupdate hconnects (h.announced c)) (by rintro _ ⟨⟩) rfl
  | @uncollected caller c a hpc haccept hresult =>
    have hpend := Connect.pending_of_result (hw.placed c).finished hresult
    have hobserved : ((s.connects c).observed || (s.connects c).completed) = false := by
      rw [hpend, hpending c hpend]
      rfl
    cases caller with
    | accept =>
      refine h.turn rfl haccept rfl (h.announced c) (by rintro _ ⟨⟩)
        ⟨fun _ _ hdone => ?_, fun _ _ => hobserved, (by rintro _ _ _ ⟨⟩)⟩
      cases hpend.symm.trans hdone
    | poll w =>
      refine h.turn rfl haccept rfl (h.announced c) (fun w' hpolling => ?_)
        ⟨fun _ _ hdone => ?_, fun _ _ => hobserved, (by rintro _ _ ⟨⟩)⟩
      · obtain rfl := Option.some.inj hpolling
        exact h.polling w (hpc ▸ rfl)
      · cases hpend.symm.trans hdone
  | @failed caller c hr a hpc haccept hresult hreports hfinished =>
    have hdone := Connect.completed_of_result (k := s.connects c) (by
      rw [hresult]
      exact fun heq => hfinished (Except.error.inj heq))
    have hobserved : ((s.connects c).observed || (s.connects c).completed) = true := by
      rw [hdone, Bool.or_true]
    cases caller <;> exact h.turn rfl haccept rfl (h.announced c) (by rintro _ ⟨⟩)
      ⟨fun _ _ _ _ => .inr hobserved, (by rintro ⟨⟩), (by rintro _ ⟨⟩)⟩
  | collectedNothing hpc haccept => exact hcollecting hpc haccept
  | @reparked w c a hpc haccept hquiet' =>
    have hwatched := h.watched c haccept
    obtain ⟨hfuture, hlatest⟩ := h.polling w (hpc ▸ rfl)
    have hnot : ∀ caller, s.pc ≠ .collecting caller := by
      rw [hpc]
      rintro _ ⟨⟩
    refine h.turn rfl haccept rfl (h.announced c) (by rintro _ ⟨⟩)
      ⟨fun _ _ => hwatched.signalled (hpc ▸ rfl) hnot, fun hf _ => hwatched.unobserved hf hnot,
        fun w' _ _ hl => .inl ⟨hlatest.symm.trans hl, hquiet'⟩⟩
  | @rewoken w c a hpc haccept hsignalled =>
    have hwatched := h.watched c haccept
    obtain ⟨hfuture, hlatest⟩ := h.polling w (hpc ▸ rfl)
    have hnot : ∀ caller, s.pc ≠ .collecting caller := by
      rw [hpc]
      rintro _ ⟨⟩
    refine h.turn rfl haccept rfl (h.announced c) (by rintro _ ⟨⟩)
      ⟨fun _ _ hdone hdelivered => ?_, fun hf _ => hwatched.unobserved hf hnot, fun w' _ _ hl => ?_⟩
    · have hdelivered : (s.connects c).delivered = true := hdelivered
      have hdone : (s.connects c).completed = true := hdone
      simp [Undisturbed, disturbs, hpc, haccept, hsignalled, hdone, hdelivered] at hok
    · refine .inr (.inr ((Bool.or_eq_true _ _).mpr (.inl (decide_eq_true ?_))))
      exact Option.some.inj (hlatest.symm.trans hl)
  | @reparkedNothing w a hpc haccept =>
    obtain ⟨hfuture, -⟩ := h.polling w (hpc ▸ rfl)
    exact hwaiting hfuture haccept
  | @cancelled c outcome a hpc =>
    obtain ⟨haccept, hnone⟩ := hw.tearing c (hpc ▸ rfl)
    exact h.rest rfl haccept rfl (by rintro _ ⟨⟩)
      (.tearing rfl hnone)
  | @permitted c outcome a hpc =>
    obtain ⟨haccept, hnone⟩ := hw.tearing c (hpc ▸ rfl)
    exact h.turn rfl haccept rfl (h.announced c) (by rintro _ ⟨⟩)
      (.tearing rfl hnone)
  | @released c event a hpc =>
    obtain ⟨haccept, hnone⟩ := hw.tearing c (hpc ▸ rfl)
    exact h.turn rfl haccept rfl (h.announced c) (by rintro _ ⟨⟩)
      (.tearing rfl hnone)
  | @returned c a hpc =>
    obtain ⟨haccept, hnone⟩ := hw.tearing c (hpc ▸ rfl)
    exact h.rest rfl haccept rfl (by rintro _ ⟨⟩)
      (.tearing rfl hnone)
  | @uncancelled c outcome a hpc =>
    exact .vacant (hupdate (s.leakSlot_observe c) (h.announced c)) (by rintro _ ⟨⟩) rfl
  | @unreleased c release event a hpc =>
    exact .vacant (hupdate (s.leakSlot_setEvent c event) (h.announced c)) (by rintro _ ⟨⟩) rfl
  | @freed c event a hpc =>
    exact .vacant (hupdate (s.closeSlot_observe c event) (h.announced c)) (by rintro _ ⟨⟩) rfl
  | @unfinished c a hpc =>
    exact .vacant (hupdate (s.leakSlot_observe c) (h.announced c)) (by rintro _ ⟨⟩) rfl

end Wakes

theorem wakes_of_reachableBy (hr : machine.ReachableBy Undisturbed s) : Wakes s :=
  hr.invariant (fun _ h => h ▸ Wakes.new) fun _ _ _ hr h hok hs =>
    h.move (wf_of_reachable hr.reachable) (step_move hs) hok

-- ---------------------------------------------------------------------------
-- The poll that resolves
-- ---------------------------------------------------------------------------

/-- A drop returns once no callback is running. -/
theorem ArmedEvent.drop_of_quiet {e : ArmedEvent} (h : e.running = false) (succeeds : Bool) :
    ∃ e', e.drop succeeds = some e' := by
  unfold ArmedEvent.drop ArmedEvent.releaseRegistration
  rw [h]
  split
  · exact ⟨_, rfl⟩
  · cases succeeds <;> exact ⟨_, rfl⟩

/-- A poll is in its collect, and the connect has completed. -/
structure Collects (s : Sys) (c : ConnectId) (w : Waker) : Prop where
  pc : s.pc = .collecting (.poll w)
  accept : s.accept = .accepting c
  future : s.future = some .waiting
  completed : (s.connects c).completed = true

/-- Only the poll itself goes on from there. -/
theorem Collects.move (h : Collects s c w) (hw : Wf s) (hm : Move s act s')
    (hact : ∀ a, act ≠ .advance a) : Collects s' c w := by
  have hplaced := hw.placed c
  have hdone := (hm.evolves hw (hplaced.bounded (hplaced.slot h.accept).1)).completed h.completed
  have hkeep : s'.pc = s.pc → s'.accept = s.accept → s'.future = s.future → Collects s' c w :=
    fun hpc haccept hfuture =>
      ⟨hpc.trans h.pc, haccept.trans h.accept, hfuture.trans h.future, hdone⟩
  have hpcs : s.pc = .idle → Collects s' c w := fun hpc => nomatch h.pc.symm.trans hpc
  have hcall : s.callable = true → Collects s' c w := fun hcall => hpcs (Sys.callable_iff.mp hcall).1
  cases hm with
  | completed | signalled | dispatched | calledBack | woke | clientGone => exact hkeep rfl rfl rfl
  | readied h | rejoined h | resumed h | unarmed h => exact hcall h
  | disconnected h | declined h | dropped h | tearing h => exact hcall h
  | joined h | pended h | refused h => exact hcall h.callable
  | settled h | parked h | found h | abandoned h => exact hpcs h
  | polledConnected h | polledFree h => exact hpcs h
  | _ => exact absurd rfl (hact _)

theorem Collects.resolves (h : Collects s c w) (hw : Wf s) (hm : Move s (.advance a) s') :
    ∃ r, Resolves s s' r := by
  have hpending : s.future ≠ some .done := fun hf => nomatch h.future.symm.trans hf
  have hpcs : ∀ {pc}, s.pc = pc → pc ≠ .collecting (.poll w) → ∃ r, Resolves s s' r :=
    fun hpc hne => absurd (hpc.symm.trans h.pc) hne
  cases hm with
  | @collected caller c' event a hpc =>
    obtain rfl := Pc.collecting.inj (hpc.symm.trans h.pc)
    exact ⟨_, hpending, rfl, rfl⟩
  | @failed caller c' hr a hpc =>
    obtain rfl := Pc.collecting.inj (hpc.symm.trans h.pc)
    exact ⟨_, hpending, rfl, rfl⟩
  | @collectedNothing caller a hpc =>
    obtain rfl := Pc.collecting.inj (hpc.symm.trans h.pc)
    exact ⟨_, hpending, rfl, rfl⟩
  | @uncollected caller c' a hpc haccept hresult =>
    obtain rfl := AcceptState.accepting.inj (haccept.symm.trans h.accept)
    have hpending := Connect.pending_of_result (hw.placed c').finished hresult
    cases h.completed.symm.trans hpending
  | reparked hpc | rewoken hpc | reparkedNothing hpc => exact hpcs hpc nofun
  | cancelled hpc | permitted hpc | uncancelled hpc | released hpc => exact hpcs hpc nofun
  | unreleased hpc | returned hpc | freed hpc | unfinished hpc => exact hpcs hpc nofun

/-- Nothing holds it up but a callback that its event's drop waits for. -/
theorem Collects.advances (h : Collects s c w) (hquiet : (s.connects c).event.running = false)
    (a : Answers) : ∃ s', s.step (.advance a) = some s' := by
  have hdrop : ∀ t : Sys, (t.connects c).event = (s.connects c).event →
      ∃ t', t.dropSlot c a.unregister = some t' := by
    intro t hevent
    obtain ⟨event, hevent'⟩ := ArmedEvent.drop_of_quiet hquiet a.unregister
    exact ⟨_, Option.map_eq_some_iff.mpr ⟨event, hevent ▸ hevent', rfl⟩⟩
  obtain ⟨t, ht⟩ := hdrop (s.observe c) (by simp [Sys.observe])
  have hcollect : ∃ x, s.collect a.unregister = some x := by
    simp only [Sys.collect, h.accept, ht]
    split
    · exact ⟨_, rfl⟩
    · split
      · exact ⟨_, rfl⟩
      · split <;> exact ⟨_, rfl⟩
  obtain ⟨x, hx⟩ := hcollect
  simp only [Sys.step, Sys.advance, h.pc, hx]
  exact ⟨_, rfl⟩

theorem Collects.run (h : Collects s c w) (hr : machine.Reachable s)
    (has : ∀ act ∈ as, ∀ a, act ≠ Action.advance a) (hrun : machine.run s as = some s') :
    Collects s' c w ∧ machine.Reachable s' := by
  induction as generalizing s with
  | nil =>
    obtain rfl := Option.some.inj hrun
    exact ⟨h, hr⟩
  | cons act as ih =>
    obtain ⟨s₁, hs, hrest⟩ := Machine.run_cons.mp hrun
    exact ih (h.move (wf_of_reachable hr) (step_move hs) (has act List.mem_cons_self)) (hr.next hs)
      (fun act hact => has act (List.mem_cons_of_mem _ hact)) hrest

-- ---------------------------------------------------------------------------
-- No wakeup is lost
-- ---------------------------------------------------------------------------

theorem Sys.step_found (hpc : s.pc = .idle) (hfuture : s.future = some .waiting)
    (haccept : s.accept = .accepting c) (hsignalled : (s.connects c).event.signalled = true) (w : Waker) :
    s.step (.poll w) = some { (s.emit (.polled w)).setEvent c
      { (s.connects c).event with signalled := false, waker := none } with
        pc := .collecting (.poll w) } := by
  simp only [Sys.step, hpc, if_true, Sys.poll, hfuture, Sys.emit_accept, haccept, Sys.emit_connects,
    ArmedEvent.pollSignalled_signalled hsignalled]

theorem Sys.step_parked (hpc : s.pc = .idle) (hfuture : s.future = some .waiting)
    (haccept : s.accept = .accepting c) (hquiet : (s.connects c).event.signalled = false) (w : Waker) :
    s.step (.poll w) = some ((s.emit (.polled w)).setEvent c
      { (s.connects c).event with waker := some w }) := by
  simp only [Sys.step, hpc, if_true, Sys.poll, hfuture, Sys.emit_accept, haccept, Sys.emit_connects,
    ArmedEvent.pollSignalled_quiet hquiet]
  rfl

/-- Where every step was undisturbed, no wakeup of an accept is lost. -/
theorem accept_woken (hr : machine.ReachableBy Undisturbed s) : AcceptWoken s := by
  intro c w hpc hfuture hlatest haccept hdone hdelivered
  have hwatched := (wakes_of_reachableBy hr).watched c haccept
  have hnot : ∀ caller, s.pc ≠ .collecting caller := by
    rw [hpc]
    rintro _ ⟨⟩
  have hsignalled : (s.connects c).event.signalled = true := by
    refine (hwatched.signalled (hpc ▸ rfl) hnot hdone hdelivered).resolve_right fun hobserved => ?_
    cases hobserved.symm.trans (hwatched.unobserved hfuture hnot)
  refine ⟨?_, fun w' => ?_⟩
  · rcases hwatched.woken w hfuture hpc hlatest with ⟨-, hquiet⟩ | hwaker | hwoken
    · cases hsignalled.symm.trans hquiet
    · exact .inr hwaker
    · exact .inl hwoken
  · obtain ⟨s₁, hs, hcollects⟩ : ∃ s₁, machine.step s (.poll w') = some s₁ ∧
        Collects s₁ c w' :=
      ⟨_, Sys.step_found hpc hfuture haccept hsignalled w', rfl, haccept, hfuture, by
        simpa [Sys.setEvent, Connect.completed] using hdone⟩
    refine ⟨s₁, hs, fun as s₂ has hrun => ?_⟩
    obtain ⟨h₂, hr₂⟩ := hcollects.run (hr.reachable.next hs) has hrun
    refine ⟨?_, fun a s₃ hs₃ => ?_, fun hquiet => h₂.advances (hquiet c)⟩
    · rw [h₂.pc]
      rintro ⟨⟩
    · exact h₂.resolves (wf_of_reachable hr₂) (step_move hs₃)

/-- The last signal comes before the second look at it, or after the poll has parked
again. -/
def signalledEarly : List Action :=
  [.accept .willing, .poll 1, .signal 0, .dispatch 0, .callback 0, .poolWake 0 1, .poll 1,
    .advance .willing, .advance .willing, .complete 0 (.ok ()), .signal 0, .dispatch 0, .callback 0]

theorem accept_woken_early : ∃ s : Sys, latestPoll s.log = some 1 ∧ (s.connects 0).completed = true ∧
    (s.connects 0).delivered = true ∧ AcceptWoken s := by
  obtain ⟨s, hrun, hlatest, hdone, hdelivered⟩ : ∃ s,
      (machine.guarded fun s act => !disturbs s act).run .new signalledEarly = some s ∧
      latestPoll s.log = some 1 ∧ (s.connects 0).completed = true ∧ (s.connects 0).delivered = true :=
    ⟨_, rfl, rfl, rfl, rfl⟩
  have hr : machine.ReachableBy Undisturbed s :=
    Machine.Reachable.of_guarded (Machine.Reachable.run (.init rfl) hrun)
      fun s act hcheck => (Bool.not_eq_true' _).mp hcheck
  exact ⟨s, hlatest, hdone, hdelivered, accept_woken hr⟩

/-- The condition is exact: a disturbed step leaves an accept that the next poll
parks for good. -/
theorem not_acceptWoken_of_disturbs (hr : machine.ReachableBy Undisturbed s)
    (hs : s.step act = some s') (hdisturbs : disturbs s act = true) : ¬ AcceptWoken s' := by
  intro hwoken
  unfold disturbs at hdisturbs
  split at hdisturbs
  · rename_i a w c hpc haccept
    simp only [Bool.and_eq_true] at hdisturbs
    obtain ⟨⟨hsignalled, hdone⟩, hdelivered⟩ := hdisturbs
    obtain ⟨hfuture, hlatest⟩ := (wakes_of_reachableBy hr).polling w (hpc ▸ rfl)
    have hrewoken : s' = ({ s.setEvent c
        { (s.connects c).event with signalled := false, waker := none } with
        pc := .idle }).emit (.wake w) := by
      simp only [Sys.step, Sys.advance, hpc, Sys.repark, haccept,
        ArmedEvent.pollSignalled_signalled hsignalled, if_true] at hs
      exact (Option.some.inj hs).symm
    have hconnect : s'.connects c = { s.connects c with
        event := { (s.connects c).event with signalled := false, waker := none } } := by
      rw [hrewoken]
      simp [Sys.setEvent]
    have hpc' : s'.pc = .idle := by rw [hrewoken]; rfl
    have hfuture' : s'.future = some .waiting := by rw [hrewoken]; exact hfuture
    have haccept' : s'.accept = .accepting c := by rw [hrewoken]; exact haccept
    obtain ⟨-, hresolves⟩ := hwoken c w hpc' hfuture' (by rw [hrewoken]; exact hlatest) haccept'
      (by rw [hconnect]; exact hdone) (by rw [hconnect]; exact hdelivered)
    obtain ⟨s₁, hs₁, hrest⟩ := hresolves w
    have hquiet : (s'.connects c).event.signalled = false := by rw [hconnect]
    have hparks := Sys.step_parked hpc' hfuture' haccept' hquiet w
    obtain rfl := Option.some.inj (hparks.symm.trans hs₁)
    exact (hrest [] _ (by rintro _ ⟨⟩) rfl).1 hpc'
  · cases hdisturbs

/-- An early signal is taken by a poll, the connect completes and signals before the
second look, and the next poll parks. -/
def signalledWithin : List Action :=
  [.accept .willing, .poll 1, .signal 0, .dispatch 0, .callback 0, .poolWake 0 1, .poll 1,
    .advance .willing, .complete 0 (.ok ()), .signal 0, .dispatch 0, .callback 0, .advance .willing,
    .poll 1]

theorem not_every_accept_woken : ¬ ∀ s, machine.Reachable s → AcceptWoken s := by
  intro hall
  obtain ⟨s, hrun, hpc, hfuture, hlatest, haccept, hdone, hdelivered, hwoken, hwakes⟩ : ∃ s,
      machine.run .new signalledWithin = some s ∧ s.pc = .idle ∧ s.future = some .waiting ∧
      latestPoll s.log = some 1 ∧ s.accept = .accepting 0 ∧ (s.connects 0).completed = true ∧
      (s.connects 0).delivered = true ∧ wokenSince 1 s.log = false ∧
      (s.connects 0).event.poolWakes = [] :=
    ⟨_, rfl, rfl, rfl, rfl, rfl, rfl, rfl, rfl, rfl⟩
  rcases (hall s (reachable_of_run hrun) 0 1 hpc hfuture hlatest haccept hdone hdelivered).1 with h | h
  · cases hwoken.symm.trans h
  · rw [hwakes] at h
    cases h

end WinIoring.Pipe
