import WinIoring.Pipe.Moves

/-!
# Accepts are safe

One connect is outstanding at most, its `OVERLAPPED` stays where the kernel was
told it is, an accept abandoned is resumed, and an accept that resolves has a
client to show for it.
-/

namespace WinIoring.Pipe

open WinIoring.Runtime (Waker)

variable {s s' : Sys} {c c' : ConnectId} {k k' : Connect} {e : Event} {act : Action}

/-- Whether the platform has reported a client since the instance was last
disconnected. -/
def clientReported : List Event → Bool
  | [] => false
  | .disconnected :: _ => false
  | .issued _ result :: log | .collected _ result :: log => reportsClient result || clientReported log
  | _ :: log => clientReported log

/-- An event that reports nothing about the instance's client. -/
def Event.neutral : Event → Bool
  | .issued .. | .collected .. | .disconnected => false
  | _ => true

def Event.collects (c : ConnectId) : Event → Bool
  | .collected c' _ => c' = c
  | _ => false

/-- The collects of one connect. -/
def Sys.collects (s : Sys) (c : ConnectId) : Nat := s.log.countP (Event.collects c)

-- ---------------------------------------------------------------------------
-- The invariant
-- ---------------------------------------------------------------------------

/-- A connect is in the slot, or the kernel is done with it, or it was leaked with
the server. -/
structure Connect.Placed (accept : AcceptState) (pc : Pc) (next c : ConnectId) (k : Connect) :
    Prop where
  slot : accept = .accepting c → k.pended = true ∧ k.overlapped = .owned ∧ k.event.dropped = false
  gone : k.pended = true → accept ≠ .accepting c →
    (k.overlapped = .freed ∧ k.observed = true) ∨ (k.overlapped = .leaked ∧ pc = .dropped)
  leaked : k.overlapped = .leaked → pc = .dropped
  observed : k.observed = true → k.completed = true
  finished : k.internal ≠ .terminal (.error errorIoIncomplete)
  bounded : k.pended = true → c < next

/-- The accept state, the connects and the code's position agree. -/
structure Wf (s : Sys) : Prop where
  placed : ∀ c, (s.connects c).Placed s.accept s.pc s.nextConnect c
  connected : s.accept = .connected → clientReported s.log = true
  ready : s.future = some .ready → s.accept = .connected
  waiting : s.future = some .waiting → ∃ c, s.accept = .accepting c
  collecting : ∀ caller, s.pc = .collecting caller → ∃ c, s.accept = .accepting c
  tearing : ∀ c, s.pc.tearing = some c → s.accept = .accepting c ∧ s.future = none
  ended : s.pc = .dropped → ∀ c, s.accept ≠ .accepting c
  sole : ∀ c c', (s.connects c).overlapped = .leaked → (s.connects c').overlapped = .leaked → c = c'
  uncollected : ∀ c, s.accept = .accepting c ∨ s.nextConnect ≤ c → s.collects c = 0
  once : ∀ c, s.collects c ≤ 1

/-- A connect that the kernel or a callback has moved along, or whose status has
been read. -/
structure Connect.Stirred (k k' : Connect) : Prop where
  pended : k'.pended = k.pended
  overlapped : k'.overlapped = k.overlapped
  dropped : k'.event.dropped = k.event.dropped
  observes : k.observed = true → k'.observed = true
  observed : k'.observed = true → k'.completed = true
  finished : k'.internal ≠ .terminal (.error errorIoIncomplete)

theorem Connect.Placed.stirredEvent (h : k.Placed accept pc next c) {event : ArmedEvent}
    (hdropped : event.dropped = k.event.dropped) : k.Stirred { k with event } where
  pended := rfl
  overlapped := rfl
  dropped := hdropped
  observes := id
  observed := h.observed
  finished := h.finished

theorem Connect.Placed.stirredObserved (h : k.Placed accept pc next c) :
    k.Stirred { k with observed := k.observed || k.completed } where
  pended := rfl
  overlapped := rfl
  dropped := rfl
  observes ho := by rw [ho]; rfl
  observed ho := ((Bool.or_eq_true _ _).mp ho).elim h.observed id
  finished := h.finished

/-- A connect that the kernel never took, its slot dropped. -/
theorem Connect.placed_closed (event : ArmedEvent) (hslot : accept ≠ .accepting c) :
    { Connect.new with overlapped := .freed, event }.Placed accept pc next c where
  slot hc := absurd hc hslot
  gone := nofun
  leaked := nofun
  observed := nofun
  finished := nofun
  bounded := nofun

theorem Connect.placed_pended :
    { Connect.new with pended := true }.Placed (.accepting c) pc (c + 1) c where
  slot _ := ⟨rfl, rfl, rfl⟩
  gone _ hc := absurd rfl hc
  leaked := nofun
  observed := nofun
  finished := nofun
  bounded _ := Nat.lt_succ_self c

theorem Event.not_collects (h : e.neutral = true) (c : ConnectId) : ¬ Event.collects c e = true := by
  cases e with
  | collected c' r => cases h
  | _ => exact nofun

theorem Sys.collects_emit (h : e.neutral = true) (c : ConnectId) : (s.emit e).collects c = s.collects c :=
  List.countP_cons_of_neg (Event.not_collects h c)

theorem clientReported_neutral (h : e.neutral = true) (log : List Event) :
    clientReported (e :: log) = clientReported log := by
  cases e with
  | issued | collected | disconnected => cases h
  | _ => rfl

theorem Sys.modify_issue (s : Sys) (answer : Except HResult Unit) (f : Connect → Connect) :
    ((s.issue answer).modify s.nextConnect f).connects =
      Function.update s.connects s.nextConnect (f .new) := by
  simp [Sys.issue]

theorem Sys.closeSlot_issue (s : Sys) (answer : Except HResult Unit) (event : ArmedEvent) :
    ((s.issue answer).closeSlot s.nextConnect event).connects =
      Function.update s.connects s.nextConnect { Connect.new with overlapped := .freed, event } :=
  s.modify_issue answer _

theorem Sys.closeSlot_observe (s : Sys) (c : ConnectId) (event : ArmedEvent) :
    ((s.observe c).closeSlot c event).connects = Function.update s.connects c
      { s.connects c with
        observed := (s.connects c).observed || (s.connects c).completed
        overlapped := .freed
        event } := by
  simp [Sys.closeSlot, Sys.observe]

theorem Sys.leakSlot_observe (s : Sys) (c : ConnectId) :
    ((s.observe c).leakSlot c).connects = Function.update s.connects c
      { s.connects c with
        observed := (s.connects c).observed || (s.connects c).completed
        overlapped := .leaked } := by
  simp [Sys.leakSlot, Sys.observe]

theorem Sys.leakSlot_setEvent (s : Sys) (c : ConnectId) (event : ArmedEvent) :
    ((s.setEvent c event).leakSlot c).connects =
      Function.update s.connects c { s.connects c with event, overlapped := .leaked } := by
  simp [Sys.leakSlot, Sys.setEvent]

theorem Sys.afterCollect_connects (s : Sys) (r : Except Error Bool) (caller : Caller) :
    (s.afterCollect r caller).connects = s.connects := by
  match caller, r with
  | .accept, _ => rfl
  | .poll _, .ok true | .poll _, .ok false | .poll _, .error _ => rfl

theorem Connect.completed_of_result (h : k.getOverlappedResult ≠ .error errorIoIncomplete) :
    k.completed = true := by
  unfold Connect.getOverlappedResult at h
  unfold Connect.completed
  split at h
  · exact absurd rfl h
  · rfl

theorem ne_incomplete_of_reports {r : Except HResult Unit} (h : reportsClient r = true) :
    r ≠ .error errorIoIncomplete := by
  rintro rfl
  revert h
  decide

namespace Wf

theorem new : Wf .new where
  placed _ := ⟨nofun, nofun, nofun, nofun, nofun, nofun⟩
  connected := nofun
  ready := nofun
  waiting := nofun
  collecting := nofun
  tearing := nofun
  ended := nofun
  sole := nofun
  uncollected _ _ := rfl
  once _ := Nat.zero_le _

/-- One connect is changed where it stays, and nothing else. -/
theorem modify (h : Wf s) (hk : k.Placed s.accept s.pc s.nextConnect c)
    (hstays : k.overlapped = (s.connects c).overlapped) :
    Wf { s with connects := Function.update s.connects c k } := by
  have hsame : ∀ c', (Function.update s.connects c k c').overlapped = (s.connects c').overlapped :=
    (Function.forall_update_iff s.connects fun c' k' =>
      k'.overlapped = (s.connects c').overlapped).mpr ⟨hstays, fun _ _ => rfl⟩
  exact
    { h with
      placed := (Function.forall_update_iff s.connects fun c k =>
        k.Placed s.accept s.pc s.nextConnect c).mpr ⟨hk, fun c _ => h.placed c⟩
      sole := fun c₁ c₂ h₁ h₂ => h.sole c₁ c₂ ((hsame c₁).symm.trans h₁) ((hsame c₂).symm.trans h₂) }

/-- A connect is stirred. -/
theorem stir (h : Wf s) (hk : (s.connects c).Stirred k) :
    Wf { s with connects := Function.update s.connects c k } := by
  refine h.modify ⟨fun hslot => ?_, fun hpended hc => ?_, fun hleaked => ?_, hk.observed, hk.finished,
    fun hpended => ?_⟩ hk.overlapped
  · rw [hk.pended, hk.overlapped, hk.dropped]
    exact (h.placed c).slot hslot
  · rw [hk.overlapped]
    exact ((h.placed c).gone (hk.pended ▸ hpended) hc).imp_left fun hfreed =>
      ⟨hfreed.1, hk.observes hfreed.2⟩
  · exact (h.placed c).leaked (hk.overlapped ▸ hleaked)
  · exact (h.placed c).bounded (hk.pended ▸ hpended)

/-- Something that says nothing of the client goes on record. -/
theorem emit (h : Wf s) (he : e.neutral = true) : Wf (s.emit e) :=
  { h with
    connected := fun hconnected => (clientReported_neutral he s.log).trans (h.connected hconnected)
    uncollected := fun c hc => (Sys.collects_emit he c).trans (h.uncollected c hc)
    once := fun c => (Sys.collects_emit he c).trans_le (h.once c) }

/-- The code goes on, with the connects and the accept state as they were. -/
theorem turn (h : Wf s) (hdropped : s.pc = .dropped → pc = .dropped)
    (hready : future = some .ready → s.accept = .connected)
    (hslot : future = some .waiting ∨ (∃ caller, pc = .collecting caller) →
      ∃ c, s.accept = .accepting c)
    (htearing : ∀ c, pc.tearing = some c → s.accept = .accepting c ∧ future = none)
    (hended : pc = .dropped → ∀ c, s.accept ≠ .accepting c) : Wf { s with future, pc } :=
  { h with
    placed := fun c =>
      { h.placed c with
        gone := fun hpended hc => ((h.placed c).gone hpended hc).imp_right fun hleaked =>
          ⟨hleaked.1, hdropped hleaked.2⟩
        leaked := fun hleaked => hdropped ((h.placed c).leaked hleaked) }
    ready := hready
    waiting := fun hw => hslot (.inl hw)
    collecting := fun caller hpc => hslot (.inr ⟨caller, hpc⟩)
    tearing := htearing
    ended := hended }

theorem returnAccept (h : Wf s) {r : Except Error Bool} (hrunning : s.pc ≠ .dropped)
    (hready : r = .ok true → s.accept = .connected)
    (hwaiting : r = .ok false → ∃ c, s.accept = .accepting c) : Wf (s.returnAccept r) := by
  have hturn : ∀ future, (future = AcceptFuture.ready → r = .ok true) →
      (future = .waiting → r = .ok false) → Wf { s with future := some future, pc := .idle } := by
    intro future hr hw
    refine h.turn (fun hpc => absurd hpc hrunning) (fun hf => ?_) ?_ nofun nofun
    · exact hready (hr (Option.some.inj hf))
    · rintro (hf | ⟨caller, hpc⟩)
      · exact hwaiting (hw (Option.some.inj hf))
      · cases hpc
  match r with
  | .ok true => exact (hturn .ready (fun _ => rfl) nofun).emit rfl
  | .ok false => exact (hturn .waiting nofun fun _ => rfl).emit rfl
  | .error e => exact (hturn (.failed e) nofun nofun).emit rfl

theorem resolve (h : Wf s) (r : Except Error Unit) (hrunning : s.pc ≠ .dropped) : Wf (s.resolve r) := by
  have hturn : Wf { s with future := some .done, pc := .idle } := by
    refine h.turn (fun hpc => absurd hpc hrunning) nofun ?_ nofun nofun
    rintro (hf | ⟨caller, hpc⟩)
    · cases hf
    · cases hpc
  exact hturn.emit rfl

/-- The slot is emptied: its `OVERLAPPED` is freed once its status has been read, or
is leaked with the server. -/
theorem vacate (h : Wf s) (haccept : s.accept = .accepting c) (hrunning : s.pc ≠ .dropped)
    (hconnects : s'.connects = Function.update s.connects c k)
    (hnext : s'.nextConnect = s.nextConnect) (hempty : ∀ c', s'.accept ≠ .accepting c')
    (hk : (k.overlapped = .freed ∧ k.observed = true) ∨ (k.overlapped = .leaked ∧ s'.pc = .dropped))
    (hobserved : k.observed = true → k.completed = true)
    (hfinished : k.internal ≠ .terminal (.error errorIoIncomplete))
    (hconnected : s'.accept = .connected → clientReported s'.log = true)
    (hready : s'.future = some .ready → s'.accept = .connected) (hwaiting : s'.future ≠ some .waiting)
    (hcollecting : ∀ caller, s'.pc ≠ .collecting caller) (htearing : s'.pc.tearing = none)
    (hcollects : ∀ c', c' ≠ c → s'.collects c' = s.collects c') (honce : s'.collects c ≤ 1) : Wf s' where
  placed c' := by
    rw [hconnects, hnext]
    refine (Function.forall_update_iff s.connects fun c' k =>
      k.Placed s'.accept s'.pc s.nextConnect c').mpr ⟨?_, fun c' hc => ?_⟩ c'
    · refine ⟨fun hslot => absurd hslot (hempty c), fun _ _ => hk, fun hleaked => ?_, hobserved, hfinished,
        fun _ => (h.placed c).bounded ((h.placed c).slot haccept).1⟩
      rcases hk with ⟨hfreed, -⟩ | ⟨-, hpc⟩
      · cases hfreed.symm.trans hleaked
      · exact hpc
    · have hother : s.accept ≠ .accepting c' := fun hslot =>
        hc (AcceptState.accepting.inj (hslot.symm.trans haccept))
      refine { h.placed c' with
        slot := fun hslot => absurd hslot (hempty c')
        gone := fun hpended _ => ((h.placed c').gone hpended hother).imp_right fun hleaked =>
          absurd hleaked.2 hrunning
        leaked := fun hleaked => absurd ((h.placed c').leaked hleaked) hrunning }
  connected := hconnected
  ready := hready
  waiting hw := absurd hw hwaiting
  collecting caller hpc := absurd hpc (hcollecting caller)
  tearing c' hpc := by rw [htearing] at hpc; cases hpc
  ended _ := hempty
  sole c₁ c₂ h₁ h₂ := by
    have honly : ∀ c', (s'.connects c').overlapped = .leaked → c' = c := by
      rw [hconnects]
      refine (Function.forall_update_iff s.connects fun c' k => k.overlapped = .leaked → c' = c).mpr
        ⟨fun _ => rfl, fun c' _ hleaked => ?_⟩
      exact absurd ((h.placed c').leaked hleaked) hrunning
    exact (honly c₁ h₁).trans (honly c₂ h₂).symm
  uncollected c' := by
    rintro (hslot | hle)
    · exact absurd hslot (hempty c')
    · have hlt := (h.placed c).bounded ((h.placed c).slot haccept).1
      rw [hnext] at hle
      rw [hcollects c' (by rintro rfl; exact Nat.not_lt_of_le hle hlt)]
      exact h.uncollected c' (.inr hle)
  once c' := by
    by_cases hc : c' = c
    · rw [hc]
      exact honce
    · rw [hcollects c' hc]
      exact h.once c'

/-- A connect is submitted to an instance whose slot is empty. -/
theorem submit (h : Wf s) (hfree : s.accept = .fresh ∨ s.accept = .idle)
    (hk : k.Placed s'.accept s.pc (s.nextConnect + 1) s.nextConnect)
    (hconnects : s'.connects = Function.update s.connects s.nextConnect k)
    (hnext : s'.nextConnect = s.nextConnect + 1)
    (hslot : ∀ c, s'.accept = .accepting c → c = s.nextConnect) (hpc : s'.pc = s.pc)
    (hfuture : s'.future = s.future) (hidle : s.pc = .idle) (hnone : s.future = none)
    (hconnected : s'.accept = .connected → clientReported s'.log = true)
    (hcollects : ∀ c, s'.collects c = s.collects c) : Wf s' where
  placed c := by
    rw [hconnects, hnext, hpc]
    refine (Function.forall_update_iff s.connects fun c k =>
      k.Placed s'.accept s.pc (s.nextConnect + 1) c).mpr ⟨hk, fun c hc => ?_⟩ c
    have hother : s.accept ≠ .accepting c := by
      intro haccept
      rcases hfree with hfree | hfree <;> cases haccept.symm.trans hfree
    exact
      { h.placed c with
        slot := fun haccept => absurd (hslot c haccept) hc
        gone := fun hpended _ => (h.placed c).gone hpended hother
        bounded := fun hpended => Nat.lt_succ_of_lt ((h.placed c).bounded hpended) }
  connected := hconnected
  ready hf := by rw [hfuture, hnone] at hf; cases hf
  waiting hf := by rw [hfuture, hnone] at hf; cases hf
  collecting caller hc := by rw [hpc, hidle] at hc; cases hc
  tearing c hc := by rw [hpc, hidle] at hc; cases hc
  ended hd := by rw [hpc, hidle] at hd; cases hd
  sole c₁ c₂ h₁ h₂ := by
    have hnever : ∀ c, (s'.connects c).overlapped ≠ .leaked := by
      rw [hconnects]
      refine (Function.forall_update_iff s.connects fun c k => k.overlapped ≠ .leaked).mpr
        ⟨fun hleaked => ?_, fun c _ hleaked => ?_⟩
      · cases hidle.symm.trans (hk.leaked hleaked)
      · cases hidle.symm.trans ((h.placed c).leaked hleaked)
    exact absurd h₁ (hnever c₁)
  uncollected c := by
    rw [hcollects, hnext]
    rintro (haccept | hle)
    · exact h.uncollected c (.inr (Nat.le_of_eq (hslot c haccept).symm))
    · exact h.uncollected c (.inr (Nat.le_of_succ_le hle))
  once c := by rw [hcollects]; exact h.once c

theorem setEvent (h : Wf s) {event : ArmedEvent} (hdropped : event.dropped = (s.connects c).event.dropped) :
    Wf (s.setEvent c event) :=
  h.stir ((h.placed c).stirredEvent hdropped)

theorem observe (h : Wf s) (c : ConnectId) : Wf (s.observe c) := h.stir (h.placed c).stirredObserved

/-- The code's position moves within the code. -/
theorem goto (h : Wf s) (hrunning : s.pc ≠ .dropped) (hslot : ∃ c, s.accept = .accepting c)
    (htearing : ∀ c, pc.tearing = some c → s.accept = .accepting c ∧ s.future = none)
    (hlive : pc ≠ .dropped) : Wf { s with pc } :=
  h.turn (fun hpc => absurd hpc hrunning) h.ready (fun _ => hslot) htearing fun hpc => absurd hpc hlive

theorem leakSlot (h : Wf s) (haccept : s.accept = .accepting c) (hrunning : s.pc ≠ .dropped)
    (hnone : s.future = none) : Wf (s.leakSlot c) := by
  have hplaced := h.placed c
  refine h.vacate haccept hrunning rfl rfl nofun (.inr ⟨rfl, rfl⟩) hplaced.observed hplaced.finished
    nofun (fun hf => absurd (hnone.symm.trans hf) nofun) ?_ nofun rfl (fun _ _ => rfl) (h.once c)
  exact fun hf => absurd (hnone.symm.trans hf) nofun

/-- A client is collected. -/
theorem collect (h : Wf s) (haccept : s.accept = .accepting c) (hrunning : s.pc ≠ .dropped)
    (hresult : reportsClient (s.connects c).getOverlappedResult = true) (event : ArmedEvent)
    (hconnects : s'.connects = ((s.observe c).closeSlot c event).connects)
    (hnext : s'.nextConnect = s.nextConnect) (hconnected : s'.accept = .connected)
    (hlog : s'.log = e :: .collected c (s.connects c).getOverlappedResult :: s.log)
    (he : e.neutral = true) (hpc : s'.pc = .idle) (hwaiting : s'.future ≠ some .waiting) : Wf s' := by
  have hdone := Connect.completed_of_result (ne_incomplete_of_reports hresult)
  have hcollects : ∀ c', s'.collects c' =
      (Sys.emit s (.collected c (s.connects c).getOverlappedResult)).collects c' := by
    intro c'
    rw [Sys.collects, hlog, List.countP_cons_of_neg (Event.not_collects he c')]
    rfl
  refine h.vacate haccept hrunning (hconnects.trans (s.closeSlot_observe c event)) hnext
    (by rw [hconnected]; nofun) (.inl ⟨rfl, ?_⟩) (fun _ => hdone) (h.placed c).finished (fun _ => ?_)
    (fun _ => hconnected) hwaiting (by rw [hpc]; nofun) (by rw [hpc]; rfl) (fun c' hc => ?_) ?_
  · rw [hdone]
    exact Bool.or_true _
  · rw [hlog, clientReported_neutral he]
    exact (Bool.or_eq_true _ _).mpr (.inl hresult)
  · rw [hcollects]
    exact List.countP_cons_of_neg fun heq => hc (of_decide_eq_true heq).symm
  · rw [hcollects]
    have hnone := h.uncollected c (.inl haccept)
    refine Nat.le_of_eq ((List.countP_cons_of_pos ?_).trans ?_)
    · exact decide_eq_true rfl
    · exact congrArg (· + 1) hnone

theorem move (h : Wf s) (hm : Move s act s') : Wf s' := by
  cases hm with
  | @completed c result hout hresult =>
    refine Wf.emit (h.stir ⟨rfl, rfl, rfl, id, fun _ => rfl, fun heq => ?_⟩) rfl
    exact hresult (Internal.terminal.inj heq)
  | signalled => exact h.setEvent rfl
  | dispatched hevent => exact h.setEvent (ArmedEvent.frame_step (a := .dispatch) hevent rfl).2.1
  | @calledBack c event hevent =>
    have hplaced := h.placed c
    exact h.stir ⟨rfl, rfl, (ArmedEvent.frame_step (a := .callback) hevent rfl).2.1, id,
      hplaced.observed, hplaced.finished⟩
  | @woke c w event hevent =>
    exact (h.setEvent (ArmedEvent.frame_step (a := .wake w) hevent rfl).2.1).emit rfl
  | clientGone => exact { h with }
  | readied hcall haccept =>
    obtain ⟨hidle, -⟩ := Sys.callable_iff.mp hcall
    exact h.returnAccept (by rw [hidle]; nofun) (fun _ => haccept) nofun
  | rejoined hcall haccept =>
    obtain ⟨hidle, -⟩ := Sys.callable_iff.mp hcall
    exact h.returnAccept (by rw [hidle]; nofun) nofun fun _ => ⟨_, haccept⟩
  | @resumed c a hcall haccept =>
    obtain ⟨hidle, -⟩ := Sys.callable_iff.mp hcall
    have hrunning : (s.observe c).pc ≠ .dropped := fun hpc => absurd (hidle.symm.trans hpc) nofun
    exact (h.observe c).goto hrunning ⟨_, haccept⟩ nofun nofun
  | unarmed hcall =>
    obtain ⟨hidle, -⟩ := Sys.callable_iff.mp hcall
    exact h.returnAccept (by rw [hidle]; nofun) nofun nofun
  | @joined a event hsubmits harm hreports hdrop =>
    obtain ⟨hidle, hnone⟩ := Sys.callable_iff.mp hsubmits.callable
    have hsubmit : Wf { (s.issue a.connect).closeSlot s.nextConnect event with
        accept := .connected, line := .listening } := by
      refine h.submit hsubmits.free (Connect.placed_closed event nofun)
        (s.closeSlot_issue a.connect event) rfl nofun rfl rfl hidle hnone (fun _ => ?_) fun _ => rfl
      exact (Bool.or_eq_true _ _).mpr (.inl hreports)
    exact hsubmit.returnAccept (fun hpc => absurd (hidle.symm.trans hpc) nofun) (fun _ => rfl) nofun
  | @pended a hsubmits harm hanswer =>
    obtain ⟨hidle, hnone⟩ := Sys.callable_iff.mp hsubmits.callable
    have hsubmit : Wf { (s.issue a.connect).modify s.nextConnect fun k => { k with pended := true } with
        accept := .accepting s.nextConnect, line := .listening } := by
      refine h.submit hsubmits.free Connect.placed_pended (s.modify_issue a.connect fun k =>
        { k with pended := true }) rfl ?_ rfl rfl hidle hnone nofun
        fun _ => rfl
      exact fun c hslot => (AcceptState.accepting.inj hslot).symm
    exact hsubmit.returnAccept (fun hpc => absurd (hidle.symm.trans hpc) nofun) nofun
      fun _ => ⟨_, rfl⟩
  | @refused a hr event hsubmits harm hanswer hpending hreports hdrop =>
    obtain ⟨hidle, hnone⟩ := Sys.callable_iff.mp hsubmits.callable
    have hslot : ∀ c, s.accept ≠ .accepting c := by
      intro c haccept
      rcases hsubmits.free with hfree | hfree <;> cases haccept.symm.trans hfree
    have hsubmit : Wf ((s.issue a.connect).closeSlot s.nextConnect event) := by
      refine h.submit hsubmits.free (Connect.placed_closed event (hslot _))
        (s.closeSlot_issue a.connect event) rfl (fun c hc => absurd hc (hslot c)) rfl rfl hidle hnone
        (fun hconnected => ?_) fun _ => rfl
      rcases hsubmits.free with hfree | hfree <;> cases hfree.symm.trans hconnected
    exact hsubmit.returnAccept (fun hpc => absurd (hidle.symm.trans hpc) nofun) nofun nofun
  | settled hidle => exact h.resolve _ (by rw [hidle]; nofun)
  | parked => exact Wf.setEvent (h.emit rfl) rfl
  | @found c w hidle hfuture haccept =>
    have hset : Wf ((s.emit (.polled w)).setEvent c
        { (s.connects c).event with signalled := false, waker := none }) := (h.emit rfl).setEvent rfl
    exact hset.goto (fun hpc => absurd (hidle.symm.trans hpc) nofun) ⟨_, haccept⟩ nofun nofun
  | polledConnected hidle hfuture haccept =>
    obtain ⟨c, hslot⟩ := h.waiting hfuture
    cases haccept.symm.trans hslot
  | polledFree hidle hfuture hfree =>
    obtain ⟨c, hslot⟩ := h.waiting hfuture
    rcases hfree with hfree | hfree <;> cases hfree.symm.trans hslot
  | abandoned hidle =>
    refine h.turn id nofun ?_ (fun c hc => ?_) h.ended
    · rintro (hf | hc)
      · cases hf
      · obtain ⟨caller, hc⟩ := hc
        cases hidle.symm.trans hc
    · rw [hidle] at hc
      cases hc
  | disconnected hcall haccept =>
    obtain ⟨hidle, hnone⟩ := Sys.callable_iff.mp hcall
    exact
      { placed := fun c =>
          { h.placed c with
            slot := nofun
            gone := fun hpended _ => (h.placed c).gone hpended (by rw [haccept]; nofun) }
        connected := nofun
        ready := fun hf => absurd (hnone.symm.trans hf) nofun
        waiting := fun hf => absurd (hnone.symm.trans hf) nofun
        collecting := fun _ hpc => absurd (hidle.symm.trans hpc) nofun
        tearing := fun c hpc => absurd (hidle ▸ hpc : Pc.idle.tearing = some c) nofun
        ended := fun _ => nofun
        sole := h.sole
        uncollected := fun c hc => h.uncollected c (hc.imp_left nofun)
        once := h.once }
  | declined => exact h
  | dropped hcall haccept =>
    obtain ⟨hidle, hnone⟩ := Sys.callable_iff.mp hcall
    refine h.turn (fun _ => rfl) h.ready ?_ nofun fun _ => haccept
    rintro (hf | ⟨caller, hpc⟩)
    · cases hnone.symm.trans hf
    · cases hpc
  | @tearing c hcall haccept =>
    obtain ⟨hidle, hnone⟩ := Sys.callable_iff.mp hcall
    refine (h.observe c).goto (fun hpc => absurd (hidle.symm.trans hpc) nofun) ⟨_, haccept⟩
      (fun c' hc => ?_) ?_
    · have hc' : some c = some c' := by
        rw [← hc]
        cases (s.connects c).completed <;> rfl
      obtain rfl := Option.some.inj hc'
      exact ⟨haccept, hnone⟩
    · cases (s.connects c).completed <;> nofun
  | @collected caller c event a hpc haccept hresult hdrop =>
    have hrunning : s.pc ≠ .dropped := fun hd => absurd (hpc.symm.trans hd) nofun
    cases caller with
    | accept =>
      exact h.collect (e := .began) haccept hrunning hresult event rfl rfl rfl rfl rfl rfl nofun
    | poll w =>
      exact h.collect (e := .resolved _) haccept hrunning hresult event rfl rfl rfl rfl rfl rfl nofun
  | @uncollected caller c a hpc haccept =>
    have hrunning : s.pc ≠ .dropped := fun hd => absurd (hpc.symm.trans hd) nofun
    cases caller with
    | accept => exact (h.observe c).returnAccept (r := .ok false) hrunning nofun fun _ => ⟨_, haccept⟩
    | poll w => exact (h.observe c).goto hrunning ⟨_, haccept⟩ nofun nofun
  | @failed caller c hr a hpc haccept =>
    have hrunning : s.pc ≠ .dropped := fun hd => absurd (hpc.symm.trans hd) nofun
    cases caller with
    | accept => exact (h.observe c).returnAccept (r := .error _) hrunning nofun nofun
    | poll w => exact (h.observe c).resolve _ hrunning
  | collectedNothing hpc haccept =>
    obtain ⟨c, hslot⟩ := h.collecting _ hpc
    exact absurd hslot (haccept c)
  | @reparked w c a hpc haccept =>
    have hset : Wf (s.setEvent c { (s.connects c).event with waker := some w }) := h.setEvent rfl
    exact hset.goto (fun hd => absurd (hpc.symm.trans hd) nofun) ⟨_, haccept⟩ nofun nofun
  | @rewoken w c a hpc haccept =>
    have hset : Wf (s.setEvent c { (s.connects c).event with signalled := false, waker := none }) :=
      h.setEvent rfl
    have hgone : Wf { s.setEvent c { (s.connects c).event with signalled := false, waker := none } with
        pc := .idle } := hset.goto (fun hd => absurd (hpc.symm.trans hd) nofun) ⟨_, haccept⟩ nofun nofun
    exact hgone.emit rfl
  | reparkedNothing hpc =>
    refine h.turn (fun hd => absurd (hpc.symm.trans hd) nofun) h.ready ?_ nofun nofun
    rintro (hf | ⟨caller, hc⟩)
    · exact h.waiting hf
    · cases hc
  | @cancelled c outcome a hpc =>
    obtain ⟨haccept, hnone⟩ := h.tearing c (hpc ▸ rfl)
    have hgone : Wf { s with pc := .cancelled c outcome } :=
      h.goto (fun hd => absurd (hpc.symm.trans hd) nofun) ⟨_, haccept⟩
        (fun c' hc => by obtain rfl := Option.some.inj hc; exact ⟨haccept, hnone⟩) nofun
    exact hgone.emit rfl
  | @permitted c outcome a hpc =>
    obtain ⟨haccept, hnone⟩ := h.tearing c (hpc ▸ rfl)
    refine (h.observe c).goto (fun hd => absurd (hpc.symm.trans hd) nofun) ⟨_, haccept⟩
      (fun c' hc => ?_) nofun
    obtain rfl := Option.some.inj hc
    exact ⟨haccept, hnone⟩
  | @uncancelled c outcome a hpc =>
    obtain ⟨haccept, hnone⟩ := h.tearing c (hpc ▸ rfl)
    exact (h.observe c).leakSlot haccept (fun hd => absurd (hpc.symm.trans hd) nofun) hnone
  | @released c event a hpc hrelease =>
    obtain ⟨haccept, hnone⟩ := h.tearing c (hpc ▸ rfl)
    have hset : Wf (s.setEvent c event) := h.setEvent (ArmedEvent.dropped_releaseRegistration hrelease)
    refine hset.goto (fun hd => absurd (hpc.symm.trans hd) nofun) ⟨_, haccept⟩
      (fun c' hc => ?_) nofun
    obtain rfl := Option.some.inj hc
    exact ⟨haccept, hnone⟩
  | @unreleased c release event a hpc hr hrelease =>
    obtain ⟨haccept, hnone⟩ := h.tearing c (hpc ▸ rfl)
    have hset : Wf (s.setEvent c event) := h.setEvent (ArmedEvent.dropped_releaseRegistration hrelease)
    exact hset.leakSlot haccept (fun hd => absurd (hpc.symm.trans hd) nofun) hnone
  | @returned c a hpc =>
    obtain ⟨haccept, hnone⟩ := h.tearing c (hpc ▸ rfl)
    refine h.goto (fun hd => absurd (hpc.symm.trans hd) nofun) ⟨_, haccept⟩
      (fun c' hc => ?_) nofun
    obtain rfl := Option.some.inj hc
    exact ⟨haccept, hnone⟩
  | @freed c event a hpc hdone hdrop =>
    obtain ⟨haccept, hnone⟩ := h.tearing c (hpc ▸ rfl)
    have hplaced := h.placed c
    refine h.vacate haccept (fun hd => absurd (hpc.symm.trans hd) nofun)
      (s.closeSlot_observe c event) rfl nofun (.inl ⟨rfl, ?_⟩) (fun _ => hdone) hplaced.finished nofun
      (fun hf => absurd (hnone.symm.trans hf) nofun) ?_ nofun rfl (fun _ _ => rfl) (h.once c)
    · rw [hdone]
      exact Bool.or_true _
    · exact fun hf => absurd (hnone.symm.trans hf) nofun
  | @unfinished c a hpc =>
    obtain ⟨haccept, hnone⟩ := h.tearing c (hpc ▸ rfl)
    exact (h.observe c).leakSlot haccept (fun hd => absurd (hpc.symm.trans hd) nofun) hnone

end Wf

theorem wf_of_reachable (hr : machine.Reachable s) : Wf s :=
  hr.invariant (fun _ h => h ▸ Wf.new) fun _ _ _ _ h _ hs => h.move (step_move hs)

-- ---------------------------------------------------------------------------
-- How a connect changes
-- ---------------------------------------------------------------------------

/-- A terminal status stays, and the event does what an armed event does. -/
structure Connect.Evolves (k k' : Connect) : Prop where
  internal : k.completed = true → k'.internal = k.internal
  event : k'.event = k.event ∨ ∃ a, k.event.step a = some k'.event

theorem Connect.Evolves.of_same (hinternal : k'.internal = k.internal) (hevent : k'.event = k.event) :
    k.Evolves k' := ⟨fun _ => hinternal, .inl hevent⟩

theorem Connect.Evolves.of_step (hinternal : k'.internal = k.internal)
    (hevent : k.event.step a = some k'.event) : k.Evolves k' := ⟨fun _ => hinternal, .inr ⟨a, hevent⟩⟩

theorem Connect.Evolves.completed (h : k.Evolves k') (hdone : k.completed = true) :
    k'.completed = true := by
  rw [Connect.completed, h.internal hdone]
  exact hdone

/-- A move changes one connect at most: one there was, or one it submits. -/
theorem Move.connects (hm : Move s act s') (h : Wf s) :
    s'.connects = s.connects ∨
    (∃ c k, s'.connects = Function.update s.connects c k ∧ (s.connects c).Evolves k) ∨
    ∃ k, s'.connects = Function.update s.connects s.nextConnect k ∧ Connect.new.Evolves k := by
  have hheld : ∀ {c}, s.accept = .accepting c → ¬ (s.connects c).event.dropped = true := by
    intro c haccept hdropped
    cases ((h.placed c).slot haccept).2.2.symm.trans hdropped
  cases hm with
  | @completed c result hout =>
    refine .inr (.inl ⟨c, _, rfl, fun hdone => ?_, .inl rfl⟩)
    rw [Connect.outstanding, hdone, Bool.not_true, Bool.and_false] at hout
    cases hout
  | @signalled c => exact .inr (.inl ⟨c, _, rfl, .of_step (a := .signal) rfl rfl⟩)
  | @dispatched c event hevent => exact .inr (.inl ⟨c, _, rfl, .of_step (a := .dispatch) rfl hevent⟩)
  | @calledBack c event hevent => exact .inr (.inl ⟨c, _, rfl, .of_step (a := .callback) rfl hevent⟩)
  | @woke c w event hevent => exact .inr (.inl ⟨c, _, rfl, .of_step (a := .wake w) rfl hevent⟩)
  | @resumed c => exact .inr (.inl ⟨c, _, rfl, .of_same rfl rfl⟩)
  | @tearing c => exact .inr (.inl ⟨c, _, rfl, .of_same rfl rfl⟩)
  | @joined a event hsubmits harm hreports hdrop =>
    exact .inr (.inr ⟨_, s.closeSlot_issue a.connect event, .of_step (a := .drop _) rfl hdrop⟩)
  | @refused a hr event hsubmits harm hanswer hpending hreports hdrop =>
    exact .inr (.inr ⟨_, s.closeSlot_issue a.connect event, .of_step (a := .drop _) rfl hdrop⟩)
  | @pended a =>
    exact .inr (.inr ⟨_, s.modify_issue a.connect fun k => { k with pended := true },
      .of_same rfl rfl⟩)
  | @parked c w hidle hfuture haccept hquiet =>
    refine .inr (.inl ⟨c, _, rfl, .of_step (a := .pollSignalled w) rfl ?_⟩)
    rw [ArmedEvent.step, if_neg (hheld haccept), ArmedEvent.pollSignalled_quiet hquiet]
  | @found c w hidle hfuture haccept hsignalled =>
    refine .inr (.inl ⟨c, _, rfl, .of_step (a := .pollSignalled w) rfl ?_⟩)
    rw [ArmedEvent.step, if_neg (hheld haccept), ArmedEvent.pollSignalled_signalled hsignalled]
  | @reparked w c a hpc haccept hquiet =>
    refine .inr (.inl ⟨c, _, rfl, .of_step (a := .pollSignalled w) rfl ?_⟩)
    rw [ArmedEvent.step, if_neg (hheld haccept), ArmedEvent.pollSignalled_quiet hquiet]
  | @rewoken w c a hpc haccept hsignalled =>
    refine .inr (.inl ⟨c, _, rfl, .of_step (a := .pollSignalled w) rfl ?_⟩)
    rw [ArmedEvent.step, if_neg (hheld haccept), ArmedEvent.pollSignalled_signalled hsignalled]
  | @collected caller c event a hpc haccept hresult hdrop =>
    refine .inr (.inl ⟨c, _, (Sys.afterCollect_connects ..).trans (s.closeSlot_observe c event),
      .of_step (a := .drop a.unregister) rfl ?_⟩)
    rw [ArmedEvent.step, if_neg (hheld haccept), hdrop]
  | @uncollected caller c =>
    exact .inr (.inl ⟨c, _, Sys.afterCollect_connects .., .of_same rfl rfl⟩)
  | @failed caller c => exact .inr (.inl ⟨c, _, Sys.afterCollect_connects .., .of_same rfl rfl⟩)
  | collectedNothing => exact .inl (Sys.afterCollect_connects ..)
  | @permitted c => exact .inr (.inl ⟨c, _, rfl, .of_same rfl rfl⟩)
  | @uncancelled c => exact .inr (.inl ⟨c, _, s.leakSlot_observe c, .of_same rfl rfl⟩)
  | @released c event a hpc hrelease =>
    obtain ⟨haccept, -⟩ := h.tearing c (hpc ▸ rfl)
    refine .inr (.inl ⟨c, _, rfl, .of_step (a := .releaseRegistration a.unregister) rfl ?_⟩)
    rw [ArmedEvent.step, if_neg (hheld haccept), hrelease]
    rfl
  | @unreleased c release event a hpc hr hrelease =>
    obtain ⟨haccept, -⟩ := h.tearing c (hpc ▸ rfl)
    refine .inr (.inl ⟨c, _, s.leakSlot_setEvent c event,
      .of_step (a := .releaseRegistration a.unregister) rfl ?_⟩)
    rw [ArmedEvent.step, if_neg (hheld haccept), hrelease]
    rfl
  | @freed c event a hpc hdone hdrop =>
    obtain ⟨haccept, -⟩ := h.tearing c (hpc ▸ rfl)
    refine .inr (.inl ⟨c, _, s.closeSlot_observe c event, .of_step (a := .drop a.unregister) rfl ?_⟩)
    rw [ArmedEvent.step, if_neg (hheld haccept), hdrop]
  | @unfinished c => exact .inr (.inl ⟨c, _, s.leakSlot_observe c, .of_same rfl rfl⟩)
  | _ => exact .inl rfl

/-- A connect of before the step is as it was, or has evolved. -/
theorem Move.evolves (hm : Move s act s') (h : Wf s) (hlt : c < s.nextConnect) :
    (s.connects c).Evolves (s'.connects c) := by
  rcases hm.connects h with hsame | ⟨c', k, hupdate, hk⟩ | ⟨k, hupdate, -⟩
  · rw [hsame]
    exact .of_same rfl rfl
  · rw [hupdate, Function.update_apply]
    split
    · rename_i hc
      subst hc
      exact hk
    · exact .of_same rfl rfl
  · rw [hupdate, Function.update_of_ne (Nat.ne_of_lt hlt)]
    exact .of_same rfl rfl

-- ---------------------------------------------------------------------------
-- Safety
-- ---------------------------------------------------------------------------

/-- Where the kernel has a connect, its slot is: with the server, or leaked with
it. -/
theorem Wf.place (h : Wf s) (hout : (s.connects c).outstanding = true) :
    (s.accept = .accepting c ∧ (s.connects c).overlapped = .owned) ∨
      ((s.connects c).overlapped = .leaked ∧ s.pc = .dropped) := by
  obtain ⟨hpended, hpending⟩ := (Bool.and_eq_true _ _).mp hout
  by_cases hslot : s.accept = .accepting c
  · exact .inl ⟨hslot, ((h.placed c).slot hslot).2.1⟩
  · rcases (h.placed c).gone hpended hslot with ⟨-, hobserved⟩ | hleaked
    · have hdone := (h.placed c).observed hobserved
      rw [hdone] at hpending
      cases hpending
    · exact .inr hleaked

theorem Wf.alone (h : Wf s) (hout : (s.connects c).outstanding = true)
    (hout' : (s.connects c').outstanding = true) : c = c' := by
  rcases h.place hout with ⟨hslot, -⟩ | ⟨hleaked, hd⟩ <;>
    rcases h.place hout' with ⟨hslot', -⟩ | ⟨hleaked', hd'⟩
  · exact AcceptState.accepting.inj (hslot.symm.trans hslot')
  · exact absurd hslot (h.ended hd' c)
  · exact absurd hslot' (h.ended hd c')
  · exact h.sole c c' hleaked hleaked'

/-- A connect is submitted only by `Server::accept` on an empty slot. -/
theorem Move.submits (hm : Move s act s') (hnext : s'.nextConnect ≠ s.nextConnect) :
    s.pc = .idle ∧ ∀ c, s.accept ≠ .accepting c := by
  have hsubmits : ∀ {a}, s.Submits a → s.pc = .idle ∧ ∀ c, s.accept ≠ .accepting c := by
    intro a h
    refine ⟨(Sys.callable_iff.mp h.callable).1, fun c haccept => ?_⟩
    rcases h.free with hfree | hfree <;> cases haccept.symm.trans hfree
  cases hm with
  | joined h => exact hsubmits h
  | pended h => exact hsubmits h
  | refused h => exact hsubmits h
  | @collected caller => cases caller <;> exact absurd rfl hnext
  | @uncollected caller => cases caller <;> exact absurd rfl hnext
  | @failed caller => cases caller <;> exact absurd rfl hnext
  | @collectedNothing caller => cases caller <;> exact absurd rfl hnext
  | _ => exact absurd rfl hnext

/-- An accept future resolves in a step. -/
structure Resolves (s s' : Sys) (r : Except Error Unit) : Prop where
  pending : s.future ≠ some .done
  done : s'.future = some .done
  result : s'.log.head? = some (.resolved r)

/-- A future that resolves without error leaves the instance connected. -/
theorem Move.resolves_ok (hm : Move s act s') (hw : Wf s) (hres : Resolves s s' (.ok ())) :
    s'.accept = .connected := by
  obtain ⟨hpending, hdone, hresult⟩ := hres
  cases hm with
  | settled hidle hfuture =>
    rcases hfuture with ⟨hready, rfl⟩ | ⟨e, -, rfl⟩
    · exact hw.ready hready
    · cases hresult
  | @collected caller => cases caller <;> rfl
  | @uncollected caller c a hpc =>
    cases caller with
    | accept => cases hdone
    | poll w => exact absurd hdone hpending
  | @failed caller =>
    cases caller with
    | accept => cases hdone
    | poll w => cases hresult
  | collectedNothing hpc haccept =>
    obtain ⟨c, hslot⟩ := hw.collecting _ hpc
    exact absurd hslot (haccept c)
  | polledFree => cases hresult
  | readied | rejoined | unarmed | joined | pended | refused | abandoned => cases hdone
  | _ => exact absurd hdone hpending

theorem Sys.collects_of_log (hlog : s'.log = es ++ s.log) (hes : es.countP (Event.collects c) = 0) :
    s'.collects c = s.collects c := by
  rw [Sys.collects, hlog, List.countP_append, hes, Nat.zero_add]
  rfl

/-- A connect is collected where the slot has it and the kernel is done with it. -/
theorem Move.collects (hm : Move s act s') (hcollects : s'.collects c ≠ s.collects c) :
    s.accept = .accepting c ∧ (s.connects c).completed = true ∧ s'.accept = .connected := by
  have hnone : ∀ es : List Event, s'.log = es ++ s.log → es.countP (Event.collects c) ≠ 0 :=
    fun es hlog hes => hcollects (Sys.collects_of_log hlog hes)
  cases hm with
  | @collected caller c' event a hpc haccept hresult =>
    have hdone := Connect.completed_of_result (ne_incomplete_of_reports hresult)
    have hc : c' = c := by
      by_contra hne
      cases caller with
      | accept => exact hnone [.began, .collected c' _] rfl (by simp [Event.collects, hne])
      | poll w => exact hnone [.resolved _, .collected c' _] rfl (by simp [Event.collects, hne])
    subst hc
    cases caller <;> exact ⟨haccept, hdone, rfl⟩
  | @uncollected caller =>
    cases caller with
    | accept => exact absurd rfl (hnone [.began] rfl)
    | poll w => exact absurd rfl hcollects
  | @failed caller =>
    cases caller with
    | accept => exact absurd rfl (hnone [.began] rfl)
    | poll w => exact absurd rfl (hnone [.resolved _] rfl)
  | @collectedNothing caller =>
    cases caller with
    | accept => exact absurd rfl (hnone [.began] rfl)
    | poll w => exact absurd rfl (hnone [.resolved _] rfl)
  | joined | pended | refused => exact absurd rfl (hnone [.began, .issued _ _] rfl)
  | polledFree => exact absurd rfl (hnone [.resolved _, .polled _] rfl)
  | completed | woke | readied | rejoined | unarmed | settled | parked | found | polledConnected |
    disconnected | rewoken | cancelled => exact absurd rfl (hnone [_] rfl)
  | _ => exact absurd rfl hcollects

/-- An accept in progress is resumed, and nothing is submitted for it. -/
theorem Move.resumes (hm : Move s (.accept a) s') (haccept : s.accept = .accepting c) :
    s'.accept = .accepting c ∧ s'.nextConnect = s.nextConnect := by
  have hslot : ¬ (s.accept = .fresh ∨ s.accept = .idle) := by
    rintro (hfree | hfree) <;> cases haccept.symm.trans hfree
  cases hm with
  | readied hcall hconnected => cases haccept.symm.trans hconnected
  | rejoined | resumed => exact ⟨haccept, rfl⟩
  | unarmed hcall hfree => exact absurd hfree hslot
  | joined h => exact absurd h.free hslot
  | pended h => exact absurd h.free hslot
  | refused h => exact absurd h.free hslot

/-- What holds of a server at every state, and of every step from there. -/
structure AcceptSafe (s : Sys) : Prop where
  /-- The kernel has one connect at most, -/
  alone : ∀ c c', (s.connects c).outstanding = true → (s.connects c').outstanding = true → c = c'
  /-- and none is submitted while it has. -/
  unsubmitted : ∀ act s', s.step act = some s' → s'.nextConnect ≠ s.nextConnect →
    ∀ c, (s.connects c).outstanding = false
  /-- The `OVERLAPPED` stays in the server's slot until a terminal status has been
  read, unless it is leaked with the server. -/
  inPlace : ∀ c, (s.connects c).pended = true →
    (s.accept = .accepting c ∧ (s.connects c).overlapped = .owned) ∨
    ((s.connects c).overlapped = .leaked ∧ s.pc = .dropped) ∨
    ((s.connects c).overlapped = .freed ∧ (s.connects c).observed = true ∧
      (s.connects c).completed = true)
  /-- A future dropped leaves the accept in progress, -/
  abandoned : ∀ s', s.step .dropFuture = some s' → s'.accept = s.accept
  /-- and the next accept resumes it. -/
  resumed : ∀ a c s', s.accept = .accepting c → s.step (.accept a) = some s' →
    s'.accept = .accepting c ∧ s'.nextConnect = s.nextConnect
  /-- A connect is collected once at most, -/
  once : ∀ c, s.collects c ≤ 1
  /-- when the kernel has completed it, and the instance goes from accepting it to
  connected. -/
  collected : ∀ act s' c, s.step act = some s' → s'.collects c ≠ s.collects c →
    s.accept = .accepting c ∧ (s.connects c).completed = true ∧ s'.accept = .connected
  /-- A future resolves without error only with the instance connected, the platform
  having reported a client since it was last disconnected. -/
  resolved : ∀ act s', s.step act = some s' → Resolves s s' (.ok ()) →
    s'.accept = .connected ∧ clientReported s'.log = true

theorem accept_safe (hr : machine.Reachable s) : AcceptSafe s := by
  have h := wf_of_reachable hr
  refine
    { alone := fun c c' => h.alone
      unsubmitted := fun act s' hs hnext c => ?_
      inPlace := fun c hpended => ?_
      abandoned := fun s' hs => ?_
      resumed := fun a c s' haccept hs => (step_move hs).resumes haccept
      once := h.once
      collected := fun act s' c hs => (step_move hs).collects
      resolved := fun act s' hs hres => ?_ }
  · obtain ⟨hidle, hslot⟩ := (step_move hs).submits hnext
    refine Bool.eq_false_iff.mpr fun hout => ?_
    rcases h.place hout with ⟨haccept, -⟩ | ⟨-, hd⟩
    · exact hslot c haccept
    · cases hidle.symm.trans hd
  · by_cases hslot : s.accept = .accepting c
    · exact .inl ⟨hslot, ((h.placed c).slot hslot).2.1⟩
    · rcases (h.placed c).gone hpended hslot with ⟨hfreed, hobserved⟩ | hleaked
      · exact .inr (.inr ⟨hfreed, hobserved, (h.placed c).observed hobserved⟩)
      · exact .inr (.inl hleaked)
  · obtain ⟨-, rfl⟩ := ofIfSome hs
    rfl
  · have hconnected := (step_move hs).resolves_ok h hres
    exact ⟨hconnected, (h.move (step_move hs)).connected hconnected⟩

/-- An accept is abandoned, its connect completes, and the next accept collects it. -/
def resumedAccept : List Action :=
  [.accept .willing, .poll 1, .dropFuture, .complete 0 (.ok ()), .accept .willing, .advance .willing,
    .poll 2]

theorem accept_safe_resumed : ∃ s : Sys, s.nextConnect = 1 ∧ s.collects 0 = 1 ∧
    s.accept = .connected ∧ AcceptSafe s := by
  obtain ⟨s, hrun, hnext, hcollects, haccept⟩ : ∃ s, machine.run .new resumedAccept = some s ∧
      s.nextConnect = 1 ∧ s.collects 0 = 1 ∧ s.accept = .connected :=
    ⟨_, rfl, rfl, rfl, rfl⟩
  exact ⟨s, hnext, hcollects, haccept, accept_safe (reachable_of_run hrun)⟩

end WinIoring.Pipe
