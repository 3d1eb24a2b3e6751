import WinIoring.Pipe.Safety

/-!
# Accepts that fail

An accept that resolves with an error leaves the server usable only if no connect
is left in its slot and the platform does not ask for a disconnect first.
-/

namespace WinIoring.Pipe

open WinIoring.Runtime (Waker)

variable {s s' : Sys} {c : ConnectId} {act : Action}

/-- The server's own calls, and the code they run. -/
def Action.own : Action → Bool
  | .accept _ | .poll _ | .dropFuture | .disconnect _ | .advance _ => true
  | _ => false

/-- Some of the server's own calls submit a fresh connect, on an instance of which
the platform does not demand a disconnect, or no longer does. -/
def Recovers (s : Sys) : Prop :=
  ∃ as a s₁ s₂, (∀ act ∈ as, Action.own act = true) ∧ machine.run s as = some s₁ ∧
    s₁.step (.accept a) = some s₂ ∧ s₂.nextConnect ≠ s₁.nextConnect ∧ s₁.line ≠ .closing

/-- The connect has finished without a client. -/
def Connect.Failed (k : Connect) : Prop :=
  ∃ hr, k.internal = .terminal (.error hr) ∧ hr ≠ errorPipeConnected

theorem Connect.Failed.completed {k : Connect} (h : k.Failed) : k.completed = true := by
  obtain ⟨hr, hinternal, -⟩ := h
  rw [Connect.completed, hinternal]

theorem Connect.Failed.not_reports {k : Connect} (h : k.Failed) :
    reportsClient k.getOverlappedResult = false := by
  obtain ⟨hr, hinternal, hne⟩ := h
  rw [Connect.getOverlappedResult, hinternal]
  exact decide_eq_false hne

theorem Connect.failed_of_result {k : Connect} (hresult : k.getOverlappedResult = .error hr)
    (hreports : reportsClient k.getOverlappedResult = false) (hfinished : hr ≠ errorIoIncomplete) :
    k.Failed := by
  rw [hresult] at hreports
  unfold Connect.getOverlappedResult at hresult
  split at hresult
  · exact absurd (Except.error.inj hresult).symm hfinished
  · rename_i hinternal
    exact ⟨hr, hresult ▸ hinternal, of_decide_eq_false hreports⟩

theorem Connect.Failed.evolves {k k' : Connect} (h : k.Failed) (he : k.Evolves k') : k'.Failed := by
  obtain ⟨hr, hinternal, hne⟩ := h
  exact ⟨hr, (he.internal (Connect.Failed.completed ⟨hr, hinternal, hne⟩)).trans hinternal, hne⟩

-- ---------------------------------------------------------------------------
-- What a failed future leaves
-- ---------------------------------------------------------------------------

/-- A future that has failed leaves nothing in the slot, or a connect that finished
without a client. -/
def FailedFuture (s : Sys) : Prop :=
  ∀ e, s.future = some (.failed e) → s.accept ≠ .connected ∧
    ∀ c, s.accept = .accepting c → (s.connects c).Failed

theorem FailedFuture.of_free (hfree : s.accept = .fresh ∨ s.accept = .idle) : FailedFuture s := by
  rintro e -
  rcases hfree with hfree | hfree <;> rw [hfree] <;> exact ⟨nofun, nofun⟩

theorem FailedFuture.move (h : FailedFuture s) (hw : Wf s) (hm : Move s act s') : FailedFuture s' := by
  have hevolves : ∀ c, s.accept = .accepting c → (s.connects c).Evolves (s'.connects c) :=
    fun c hc => hm.evolves hw ((hw.placed c).bounded ((hw.placed c).slot hc).1)
  have hkeep : s'.accept = s.accept → s'.future = s.future → FailedFuture s' := by
    intro haccept hfuture e hf
    rw [hfuture] at hf
    rw [haccept]
    exact ⟨(h e hf).1, fun c hc => ((h e hf).2 c hc).evolves (hevolves c hc)⟩
  have hnone : s'.future = s.future → s.future = none → FailedFuture s' := by
    intro hfuture hs e hf
    cases (hfuture.symm.trans hf).symm.trans hs
  have htear : ∀ {pc c}, s.pc = pc → pc.tearing = some c → s'.future = s.future → FailedFuture s' :=
    fun hpc hc hfuture => hnone hfuture (hw.tearing _ (hpc ▸ hc)).2
  cases hm with
  | readied | rejoined | joined | pended | settled | polledFree | abandoned => exact nofun
  | unarmed hcall hfree => exact .of_free hfree
  | refused hsubmits => exact .of_free hsubmits.free
  | @failed caller c hr a hpc haccept hresult hreports hfinished =>
    have hfailed := Connect.failed_of_result hresult hreports hfinished
    cases caller with
    | poll w => exact nofun
    | accept =>
      rintro e -
      refine ⟨fun hc => absurd (haccept.symm.trans hc) nofun, fun c' hc => ?_⟩
      obtain rfl := AcceptState.accepting.inj (haccept.symm.trans hc)
      exact hfailed.evolves (hevolves c haccept)
  | @collected caller => cases caller <;> exact nofun
  | @uncollected caller =>
    cases caller with
    | accept => exact nofun
    | poll w => exact hkeep rfl rfl
  | @collectedNothing caller => cases caller <;> exact nofun
  | disconnected hcall => exact hnone rfl (Sys.callable_iff.mp hcall).2
  | dropped hcall => exact hnone rfl (Sys.callable_iff.mp hcall).2
  | tearing hcall => exact hnone rfl (Sys.callable_iff.mp hcall).2
  | cancelled hpc => exact htear hpc rfl rfl
  | permitted hpc => exact htear hpc rfl rfl
  | uncancelled hpc => exact htear hpc rfl rfl
  | released hpc => exact htear hpc rfl rfl
  | unreleased hpc => exact htear hpc rfl rfl
  | returned hpc => exact htear hpc rfl rfl
  | freed hpc => exact htear hpc rfl rfl
  | unfinished hpc => exact htear hpc rfl rfl
  | _ => exact hkeep rfl rfl

theorem failedFuture_of_reachable (hr : machine.Reachable s) : FailedFuture s :=
  hr.invariant (fun _ h => h ▸ (nofun : FailedFuture .new)) fun _ _ _ hr h _ hs =>
    h.move (wf_of_reachable hr) (step_move hs)

-- ---------------------------------------------------------------------------
-- Stuck servers
-- ---------------------------------------------------------------------------

/-- A connect that failed is still in the slot, or the platform wants a disconnect
that the server refuses. -/
inductive Stuck (s : Sys) : Prop
  | failed {slot : ConnectId} (haccept : s.accept = .accepting slot)
      (hfailed : (s.connects slot).Failed) (hpc : s.pc = .idle ∨ s.pc = .collecting .accept)
      (hfuture : s.future ≠ some .waiting)
  | closing (hfree : s.accept = .fresh ∨ s.accept = .idle) (hline : s.line = .closing)
      (hpc : s.pc = .idle) (hfuture : s.future ≠ some .waiting)

/-- A platform that wants a disconnect refuses every connect. -/
theorem Sys.answers_closing (hline : s.line = .closing) (h : s.answers r = true) :
    r = .error errorNoData := by
  match r with
  | .ok () => exact absurd hline (of_decide_eq_true h)
  | .error hr => exact congrArg _ ((of_decide_eq_true h : hr = errorNoData ↔ _).mpr hline)

theorem Stuck.move (h : Stuck s) (hw : Wf s) (hm : Move s act s') (hown : act.own = true) : Stuck s' := by
  cases h with
  | @failed slot haccept hfailed hpc hfuture =>
    have hnotfree : ¬ (s.accept = .fresh ∨ s.accept = .idle) := by
      rintro (hfree | hfree) <;> cases haccept.symm.trans hfree
    have hevolves := hm.evolves hw ((hw.placed slot).bounded ((hw.placed slot).slot haccept).1)
    have hstays : s'.accept = s.accept → s'.pc = .idle ∨ s'.pc = .collecting .accept →
        s'.future ≠ some .waiting → Stuck s' :=
      fun ha hpc' hf => .failed (ha.trans haccept) (hfailed.evolves hevolves) hpc' hf
    have hslot : ∀ {c}, s.accept = .accepting c → c = slot :=
      fun hc => AcceptState.accepting.inj (hc.symm.trans haccept)
    have hpcs : ∀ {pc}, s.pc = pc → pc ≠ .idle → pc ≠ .collecting .accept → Stuck s' := by
      intro pc heq hidle hcollecting
      rcases hpc with hpc | hpc
      · exact absurd (heq.symm.trans hpc) hidle
      · exact absurd (heq.symm.trans hpc) hcollecting
    cases hm with
    | completed | signalled | dispatched | calledBack | woke | clientGone | dropped | tearing => cases hown
    | readied hcall hconnected => cases haccept.symm.trans hconnected
    | rejoined hcall hc hpending =>
      obtain rfl := hslot hc
      cases hpending.symm.trans hfailed.completed
    | resumed => exact hstays rfl (.inr rfl) hfuture
    | unarmed hcall hfree => exact absurd hfree hnotfree
    | joined hsubmits => exact absurd hsubmits.free hnotfree
    | pended hsubmits => exact absurd hsubmits.free hnotfree
    | refused hsubmits => exact absurd hsubmits.free hnotfree
    | settled => exact hstays rfl (.inl rfl) nofun
    | parked hidle hwaiting => exact absurd hwaiting hfuture
    | found hidle hwaiting => exact absurd hwaiting hfuture
    | polledConnected hidle hwaiting => exact absurd hwaiting hfuture
    | polledFree hidle hwaiting => exact absurd hwaiting hfuture
    | abandoned hidle => exact hstays rfl (.inl hidle) nofun
    | disconnected hcall hconnected => cases haccept.symm.trans hconnected
    | declined => exact hstays rfl hpc hfuture
    | @collected caller c event a hc hslot' hresult =>
      obtain rfl := hslot hslot'
      cases hresult.symm.trans hfailed.not_reports
    | @uncollected caller c a hc hslot' hresult =>
      obtain rfl := hslot hslot'
      obtain ⟨hr, hinternal, -⟩ := hfailed
      rw [Connect.getOverlappedResult, hinternal] at hresult
      exact absurd (hinternal.trans (congrArg _ hresult)) (hw.placed c).finished
    | @failed caller c hr a hc =>
      cases caller with
      | accept => exact hstays rfl (.inl rfl) nofun
      | poll w => exact hpcs hc nofun nofun
    | collectedNothing hc hnone => exact absurd haccept (hnone slot)
    | reparked hc => exact hpcs hc nofun nofun
    | rewoken hc => exact hpcs hc nofun nofun
    | reparkedNothing hc => exact hpcs hc nofun nofun
    | cancelled hc => exact hpcs hc nofun nofun
    | permitted hc => exact hpcs hc nofun nofun
    | uncancelled hc => exact hpcs hc nofun nofun
    | released hc => exact hpcs hc nofun nofun
    | unreleased hc => exact hpcs hc nofun nofun
    | returned hc => exact hpcs hc nofun nofun
    | freed hc => exact hpcs hc nofun nofun
    | unfinished hc => exact hpcs hc nofun nofun
  | closing hfree hline hpc hfuture =>
    have hslot : ∀ {c}, s.accept ≠ .accepting c := by
      intro c haccept
      rcases hfree with hfree | hfree <;> cases haccept.symm.trans hfree
    have hconnected : s.accept ≠ .connected := by
      intro haccept
      rcases hfree with hfree | hfree <;> cases haccept.symm.trans hfree
    have hpcs : ∀ {pc}, s.pc = pc → pc ≠ .idle → Stuck s' :=
      fun heq hidle => absurd (heq.symm.trans hpc) hidle
    cases hm with
    | completed | signalled | dispatched | calledBack | woke | clientGone | dropped | tearing => cases hown
    | readied hcall hc => exact absurd hc hconnected
    | rejoined hcall hc => exact absurd hc hslot
    | resumed hcall hc => exact absurd hc hslot
    | unarmed => exact .closing hfree hline rfl nofun
    | joined hsubmits harm hreports =>
      rw [Sys.answers_closing hline hsubmits.answers] at hreports
      exact absurd hreports (by decide)
    | pended hsubmits harm hanswer =>
      have hcodes := (Sys.answers_closing hline hsubmits.answers).symm.trans hanswer
      exact absurd (Except.error.inj hcodes) (by decide)
    | refused => exact .closing hfree hline rfl nofun
    | settled => exact .closing hfree hline rfl nofun
    | parked hidle hwaiting => exact absurd hwaiting hfuture
    | found hidle hwaiting => exact absurd hwaiting hfuture
    | polledConnected hidle hwaiting => exact absurd hwaiting hfuture
    | polledFree hidle hwaiting => exact absurd hwaiting hfuture
    | abandoned => exact .closing hfree hline hpc nofun
    | disconnected hcall hc => exact absurd hc hconnected
    | declined => exact .closing hfree hline hpc hfuture
    | collected hc => exact hpcs hc nofun
    | uncollected hc => exact hpcs hc nofun
    | failed hc => exact hpcs hc nofun
    | collectedNothing hc => exact hpcs hc nofun
    | reparked hc => exact hpcs hc nofun
    | rewoken hc => exact hpcs hc nofun
    | reparkedNothing hc => exact hpcs hc nofun
    | cancelled hc => exact hpcs hc nofun
    | permitted hc => exact hpcs hc nofun
    | uncancelled hc => exact hpcs hc nofun
    | released hc => exact hpcs hc nofun
    | unreleased hc => exact hpcs hc nofun
    | returned hc => exact hpcs hc nofun
    | freed hc => exact hpcs hc nofun
    | unfinished hc => exact hpcs hc nofun

/-- However the server's calls go on, no connect is submitted where the platform
would take it. -/
theorem Stuck.not_recovers (h : Stuck s) (hw : Wf s) : ¬ Recovers s := by
  rintro ⟨as, a, s₁, s₂, hown, hrun, hs, hnext, hline⟩
  have hstuck : Stuck s₁ ∧ Wf s₁ := by
    clear hs hnext hline
    induction as generalizing s with
    | nil =>
      obtain rfl := Option.some.inj hrun
      exact ⟨h, hw⟩
    | cons act as ih =>
      obtain ⟨s', hs', hrest⟩ := Machine.run_cons.mp hrun
      have hm := step_move hs'
      exact ih (h.move hw hm (hown act List.mem_cons_self)) (hw.move hm)
        (fun act hact => hown act (List.mem_cons_of_mem _ hact)) hrest
  obtain ⟨hstuck, hw⟩ := hstuck
  have hm := step_move hs
  cases hstuck with
  | failed haccept => exact absurd haccept ((hm.submits hnext).2 _)
  | closing hfree hclosing => exact hline hclosing

/-- An empty slot is filled as soon as an accept is asked for. -/
theorem Sys.step_accept (hcall : s.callable = true) (hfree : s.accept = .fresh ∨ s.accept = .idle)
    (hline : s.line ≠ .closing) :
    ∃ s', s.step (.accept .willing) = some s' ∧ s'.nextConnect = s.nextConnect + 1 := by
  have hanswers : s.answers (.error errorIoPending) = true := by
    have hcode : errorIoPending ≠ errorNoData := by decide
    simp [Sys.answers, hline, hcode]
  have hconnect : s.connect .willing = some
      ({ (s.issue (.error errorIoPending)).modify s.nextConnect fun k => { k with pended := true } with
        accept := .accepting s.nextConnect
        line := .listening }, .ok false) := by
    simp only [Sys.connect, Answers.willing, hanswers, if_true]
  have hbegin : s.beginAccept .willing = (s.connect .willing).map fun p => p.1.returnAccept p.2 := by
    rcases hfree with hfree | hfree <;> simp only [Sys.beginAccept, hfree]
  rw [hconnect] at hbegin
  exact ⟨_, (if_pos hcall).trans hbegin, rfl⟩

/-- An instance with an empty slot, of which no disconnect is wanted, recovers. -/
theorem recovers_of_free (hfree : s.accept = .fresh ∨ s.accept = .idle) (hline : s.line ≠ .closing)
    (hpc : s.pc = .idle) (hfuture : s.future = some .done) : Recovers s := by
  have hdropped : s.step .dropFuture = some { s with future := none } := by
    simp [Sys.step, hpc, hfuture]
  obtain ⟨s₂, hs₂, hnext⟩ := Sys.step_accept (s := { s with future := none })
    (Sys.callable_iff.mpr ⟨hpc, rfl⟩) hfree hline
  refine ⟨[.dropFuture], .willing, _, s₂, ?_, Machine.run_cons.mpr ⟨_, hdropped, rfl⟩, hs₂, ?_, hline⟩
  · intro act hact
    obtain rfl := List.mem_singleton.mp hact
    rfl
  · rw [hnext]
    exact Nat.succ_ne_self _

-- ---------------------------------------------------------------------------
-- Which failed accepts leave a server usable
-- ---------------------------------------------------------------------------

/-- A future that resolves with an error leaves the instance as it found it, with
nothing in the slot or a connect that finished without a client. -/
structure FailedFrom (s s' : Sys) : Prop where
  accept : s'.accept = s.accept
  line : s'.line = s.line
  idle : s'.pc = .idle
  done : s'.future = some .done
  disconnected : s'.accept ≠ .connected
  failed : ∀ c, s'.accept = .accepting c → (s'.connects c).Failed

theorem Move.resolves_error (hm : Move s act s') (hw : Wf s) (hf : FailedFuture s)
    (hres : Resolves s s' (.error e)) : FailedFrom s s' := by
  obtain ⟨hpending, hdone, hresult⟩ := hres
  cases hm with
  | settled hidle hfuture =>
    rcases hfuture with ⟨hready, rfl⟩ | ⟨e', hfuture, rfl⟩
    · cases hresult
    · obtain ⟨hconnected, hfailed⟩ := hf e' hfuture
      exact ⟨rfl, rfl, rfl, rfl, hconnected, hfailed⟩
  | polledFree hidle hfuture hfree =>
    obtain ⟨c, haccept⟩ := hw.waiting hfuture
    rcases hfree with hfree | hfree <;> cases haccept.symm.trans hfree
  | @failed caller c hr a hpc haccept hout hreports hfinished =>
    cases caller with
    | accept => cases hdone
    | poll w =>
      refine ⟨rfl, rfl, rfl, rfl, fun hconnected => ?_, fun c' hc => ?_⟩
      · cases haccept.symm.trans hconnected
      · obtain rfl := AcceptState.accepting.inj (haccept.symm.trans hc)
        have hfailed := Connect.failed_of_result hout hreports hfinished
        exact hfailed.evolves (.of_same (by simp [Sys.afterCollect, Sys.resolve, Sys.observe])
          (by simp [Sys.afterCollect, Sys.resolve, Sys.observe]))
  | @collected caller | @collectedNothing caller =>
    cases caller with
    | accept => cases hdone
    | poll w => cases hresult
  | @uncollected caller =>
    cases caller with
    | accept => cases hdone
    | poll w => exact absurd hdone hpending
  | readied | rejoined | unarmed | joined | pended | refused | abandoned => cases hdone
  | _ => exact absurd hdone hpending

/-- A failed accept leaves the server usable exactly when the connect was refused at
once and no disconnect is wanted. -/
theorem recovers_iff (hr : machine.Reachable s) (hs : s.step act = some s')
    (hres : Resolves s s' (.error e)) :
    Recovers s' ↔ (s.accept = .fresh ∨ s.accept = .idle) ∧ s.line ≠ .closing := by
  have hm := step_move hs
  have hw := wf_of_reachable hr
  have h := hm.resolves_error hw (failedFuture_of_reachable hr) hres
  have hfuture : s'.future ≠ some .waiting := by
    rw [h.done]
    exact nofun
  constructor
  · intro hrecovers
    have hunstuck : ¬ Stuck s' := fun hstuck => hstuck.not_recovers (hw.move hm) hrecovers
    have hfree : s.accept = .fresh ∨ s.accept = .idle := by
      rw [← h.accept]
      cases haccept : s'.accept with
      | fresh => exact .inl rfl
      | idle => exact .inr rfl
      | accepting c => exact absurd (.failed haccept (h.failed c haccept) (.inl h.idle) hfuture) hunstuck
      | connected => exact absurd haccept h.disconnected
    refine ⟨hfree, fun hline => hunstuck ?_⟩
    exact .closing (h.accept ▸ hfree) (h.line.trans hline) h.idle hfuture
  · rintro ⟨hfree, hline⟩
    rw [← h.accept] at hfree
    rw [← h.line] at hline
    exact recovers_of_free hfree hline h.idle h.done

/-- `ERROR_ACCESS_DENIED`, on an instance that has had no client. -/
theorem recovers_iff_denied : ∃ s s' : Sys, Resolves s s' (.error (.ofHResult (toHResult 5))) ∧
    (Recovers s' ↔ (s.accept = .fresh ∨ s.accept = .idle) ∧ s.line ≠ .closing) := by
  obtain ⟨s, s', hrun, hs, hres⟩ : ∃ s s', machine.run .new
      [.accept { Answers.willing with connect := .error (toHResult 5) }] = some s ∧
      s.step (.poll 1) = some s' ∧ Resolves s s' (.error (.ofHResult (toHResult 5))) :=
    ⟨_, _, rfl, rfl, nofun, rfl, rfl⟩
  exact ⟨s, s', hres, recovers_iff (reachable_of_run hrun) hs hres⟩

/-- A client connects to a fresh instance and closes its end, and `ConnectNamedPipe`
reports `ERROR_NO_DATA`. -/
def closedBeforeAccept : List Action :=
  [.clientGone, .accept { Answers.willing with connect := .error errorNoData }]

theorem not_every_failed_accept_recovers :
    ¬ ∀ s act s' e, machine.Reachable s → s.step act = some s' → Resolves s s' (.error e) →
      Recovers s' := by
  intro hall
  obtain ⟨s, s', hrun, hs, hres, hstuck⟩ : ∃ s s', machine.run .new closedBeforeAccept = some s ∧
      s.step (.poll 1) = some s' ∧ Resolves s s' (.error (.ofHResult errorNoData)) ∧ Stuck s' :=
    ⟨_, _, rfl, rfl, ⟨nofun, rfl, rfl⟩, .closing (.inl rfl) rfl rfl nofun⟩
  have hr := reachable_of_run hrun
  exact hstuck.not_recovers ((wf_of_reachable hr).move (step_move hs)) (hall _ _ _ _ hr hs hres)

end WinIoring.Pipe
