import WinIoring.Bench.Trace
import WinIoring.Bench.Unbuffered

/-!
# The fairness ledger

One backend measured after another over one ledger. The first trace for a scenario
and depth is the reference, later ones are compared with it, and a measurement
counts only if its session was also torn down.
-/

namespace WinIoring.Bench

abbrev Depth := Nat

inductive Which where
  | tokioOne
  | tokioMany
  | ringPlain
  | ringRegistered
  | compio
  | ringPlainSync
  | ringRegisteredSync
  deriving DecidableEq

inductive Weakness where
  | none
  | skipsWork
  | hollowDelivery
  | hollowFromRun (run : Nat)
  deriving DecidableEq

/-- Where the opens sit relative to the region the timer measures. -/
inductive Opens where
  | perIteration
  | hoisted
  deriving DecidableEq

-- ---------------------------------------------------------------------------
-- The ledger
-- ---------------------------------------------------------------------------

/-- The first backend to run one scenario and depth, and what it did. -/
structure Reference where
  scenario : Scenario
  depth : Depth
  backend : String
  trace : Trace

structure FairnessFailure where
  scenario : Scenario
  depth : Depth
  reference : String
  backend : String
  mismatch : Mismatch
  deriving DecidableEq

structure Ledger where
  references : List Reference

namespace Ledger

def new : Ledger := ⟨[]⟩

def find (l : Ledger) (scenario : Scenario) (depth : Depth) : Option Reference :=
  l.references.find? fun r => r.scenario = scenario ∧ r.depth = depth

/-- Records what a backend did, or reports that it disagreed with the one that ran
this combination first. -/
def observe (l : Ledger) (scenario : Scenario) (depth : Depth) (backend : String) (trace : Trace) :
    Except FairnessFailure Ledger :=
  match l.find scenario depth with
  | some reference =>
    match reference.trace.agreesWith trace with
    | .ok () => .ok l
    | .error mismatch => .error { scenario, depth, reference := reference.backend, backend, mismatch }
  | none => .ok ⟨l.references ++ [{ scenario, depth, backend, trace }]⟩

end Ledger

-- ---------------------------------------------------------------------------
-- One measurement
-- ---------------------------------------------------------------------------

/-- What one iteration did. `figures` stands for the depth achieved, the shape check
and the submission counts, which are only passed on. -/
structure Outcome (φ : Type u) where
  trace : Trace
  figures : φ

/-- What the measured iterations produced. -/
structure Evidence (φ : Type u) where
  first : Option (Outcome φ)
  last : Option (Outcome φ)
  iterations : Nat
  failure : Option IoError

namespace Evidence

variable {φ : Type u}

def new : Evidence φ := { first := none, last := none, iterations := 0, failure := none }

def record (e : Evidence φ) (outcome : Outcome φ) : Evidence φ :=
  { e with
    iterations := e.iterations + 1
    first := if e.first.isNone then some outcome else e.first
    last := some outcome }

/-- Only the first error is kept. -/
def recordFailure (e : Evidence φ) (error : IoError) : Evidence φ :=
  { e with
    iterations := e.iterations + 1
    failure := if e.failure.isNone then some error else e.failure }

def recordResult (e : Evidence φ) : Except IoError (Outcome φ) → Evidence φ
  | .ok outcome => e.record outcome
  | .error error => e.recordFailure error

end Evidence

/-- What a timer needs in order to name and scale one benchmark. -/
structure Timed where
  scenario : Scenario
  depth : Depth
  which : Which
  ioCount : Nat

/-- What a prepared backend answers. -/
structure Prepared (φ : Type u) where
  name : String
  configuration : String
  openRead : Except IoError Unit
  /-- Whether a hoisted handle is in the mode it is meant to be in. -/
  handleMode : Bool
  warmUp : Except IoError (Outcome φ)
  /-- The iterations a timer runs, in order. -/
  time : Timed → List (Except IoError (Outcome φ))
  finish : Except IoError Unit

structure Unavailable where
  name : String
  reason : String

/-- One call of `measure_combination_with`, with what comes of preparing it. -/
structure Combination (φ : Type u) where
  which : Which
  weakness : Weakness
  opens : Opens
  scenario : Scenario
  depth : Depth
  prepare : Except Unavailable (Prepared φ)

/-- What became of one combination. -/
inductive Record (φ : Type u) where
  | measured (name configuration : String) (figures : φ) (trace : Trace) (iterations : Nat) (timed : Bool)
  | unavailable (name reason : String)
  | failed (name configuration : String) (error : IoError)

inductive Result (φ : Type u) where
  | returned (record : Except FairnessFailure (Record φ))
  | panicked

/-- The caller's ledger, and how often `finish` has been called. -/
structure Harness where
  ledger : Ledger
  finished : Nat

section Measure

variable {φ : Type u}

def Prepared.finishIn (p : Prepared φ) (h : Harness) : Except IoError Unit × Harness :=
  (p.finish, { h with finished := h.finished + 1 })

/-- `teardown.err().unwrap_or(error)`. -/
def teardownOr (teardown : Except IoError Unit) (error : IoError) : IoError :=
  match teardown with
  | .error e => e
  | .ok () => error

/-- The one open of a hoisted file, or none. -/
def Prepared.hoist (p : Prepared φ) : Opens → Except IoError Bool
  | .perIteration => .ok false
  | .hoisted => p.openRead.map fun _ => true

/-- The end of a measurement, its session torn down. -/
def conclude (c : Combination φ) (p : Prepared φ) (warm : Outcome φ) (evidence : Evidence φ)
    (teardown : Except IoError Unit) (h : Harness) : Result φ × Harness :=
  match evidence.failure with
  | some error => (.returned (.ok (.failed p.name p.configuration error)), h)
  | none =>
    match teardown with
    | .error error => (.returned (.ok (.failed p.name p.configuration error)), h)
    | .ok () =>
      let disagreement := match evidence.first, evidence.last with
        | some first, some last => first.trace.agreesWith last.trace
        | _, _ => .ok ()
      match disagreement with
      | .error mismatch => (.returned (.error {
          scenario := c.scenario
          depth := c.depth
          reference := p.name ++ " (first iteration)"
          backend := p.name ++ " (last iteration)"
          mismatch }), h)
      | .ok () =>
        let timed := decide (evidence.iterations > 0)
        let outcome := evidence.last.getD warm
        match h.ledger.observe c.scenario c.depth p.name outcome.trace with
        | .error failure => (.returned (.error failure), h)
        | .ok ledger => (.returned (.ok (.measured p.name p.configuration outcome.figures outcome.trace
            evidence.iterations timed)), { h with ledger })

/-- Prepares one backend, warms it, times it, and puts its trace in front of the
comparator. -/
def measureCombinationWith (c : Combination φ) (h : Harness) : Result φ × Harness :=
  if c.opens = .hoisted ∧ c.weakness ≠ .none then
    (.panicked, h)
  else
    match c.prepare with
    | .error unavailable => (.returned (.ok (.unavailable unavailable.name unavailable.reason)), h)
    | .ok p =>
      match p.hoist c.opens with
      | .error error =>
        let (teardown, h) := p.finishIn h
        (.returned (.ok (.failed p.name p.configuration (teardownOr teardown error))), h)
      | .ok hoisted =>
        if hoisted ∧ ¬ p.handleMode then
          (.panicked, h)
        else
          match p.warmUp with
          | .error error =>
            let (teardown, h) := p.finishIn h
            (.returned (.ok (.failed p.name p.configuration (teardownOr teardown error))), h)
          | .ok warm =>
            let benchmark := {
              scenario := c.scenario
              depth := c.depth
              which := c.which
              ioCount := warm.trace.issued.length }
            let evidence := (p.time benchmark).foldl Evidence.recordResult .new
            let (teardown, h) := p.finishIn h
            conclude c p warm evidence teardown h

/-- A sequence of measurements over one ledger. -/
def measureAll : List (Combination φ) → Harness → List (Result φ) × Harness
  | [], h => ([], h)
  | c :: cs, h =>
    let (r, h) := measureCombinationWith c h
    let (rs, h) := measureAll cs h
    (r :: rs, h)

end Measure


-- ---------------------------------------------------------------------------
-- Evidence
-- ---------------------------------------------------------------------------

section Measure

variable {φ : Type u}

theorem failure_isSome {e : Evidence φ} {l : List (Except IoError (Outcome φ))} (h : e.failure.isSome) :
    (l.foldl Evidence.recordResult e).failure.isSome := by
  induction l generalizing e with
  | nil => exact h
  | cons r l ih =>
    refine ih ?_
    cases r with
    | ok outcome => exact h
    | error error =>
      obtain ⟨first, hfirst⟩ := Option.isSome_iff_exists.mp h
      simp [Evidence.recordResult, Evidence.recordFailure, hfirst]

/-- Evidence without a failure is of iterations that all went through. -/
theorem evidence_of_no_failure {e : Evidence φ} {l : List (Except IoError (Outcome φ))}
    (h : (l.foldl Evidence.recordResult e).failure = none) :
    ∃ outcomes : List (Outcome φ), l = outcomes.map .ok ∧
      (l.foldl Evidence.recordResult e).first = e.first.or outcomes.head? ∧
      (l.foldl Evidence.recordResult e).last = outcomes.getLast?.or e.last ∧
      (l.foldl Evidence.recordResult e).iterations = e.iterations + outcomes.length := by
  induction l generalizing e with
  | nil => exact ⟨[], rfl, by simp, by simp, rfl⟩
  | cons r l ih =>
    cases r with
    | error error =>
      have hsome : (Evidence.recordResult e (.error error)).failure.isSome := by
        cases hf : e.failure <;> simp [Evidence.recordResult, Evidence.recordFailure, hf]
      have := failure_isSome (l := l) hsome
      rw [← List.foldl_cons, h] at this
      cases this
    | ok outcome =>
      obtain ⟨outcomes, rfl, hfirst, hlast, hcount⟩ := ih (e := e.record outcome) h
      refine ⟨outcome :: outcomes, rfl, ?_, ?_, ?_⟩
      · refine Eq.trans hfirst ?_
        cases hf : e.first <;> simp [Evidence.record, hf]
      · refine Eq.trans hlast ?_
        cases outcomes with
        | nil => simp [Evidence.record]
        | cons o os =>
          obtain ⟨last, hsome⟩ : ∃ last, (o :: os).getLast? = some last := by simp [List.getLast?_cons]
          rw [List.getLast?_cons_cons, hsome]
          rfl
      · refine Eq.trans hcount ?_
        simp only [Evidence.record, List.length_cons]
        omega

/-- The outcome a measurement stands for: the last timed iteration's, or the
warm-up's where none ran. -/
def reported (warm : Outcome φ) (outcomes : List (Outcome φ)) : Outcome φ := outcomes.getLast?.getD warm

-- ---------------------------------------------------------------------------
-- How a measurement ends
-- ---------------------------------------------------------------------------

/-- What the timer is told. -/
def Combination.benchmark (c : Combination φ) (warm : Outcome φ) : Timed where
  scenario := c.scenario
  depth := c.depth
  which := c.which
  ioCount := warm.trace.issued.length

/-- A session that prepared, warmed up and ran these iterations without an error. -/
structure Ran (c : Combination φ) (p : Prepared φ) (warm : Outcome φ) (outcomes : List (Outcome φ)) :
    Prop where
  prepare : c.prepare = .ok p
  warmUp : p.warmUp = .ok warm
  time : p.time (c.benchmark warm) = outcomes.map .ok
  finish : p.finish = .ok ()

/-- The harness once a session has been torn down. -/
def Harness.finish (h : Harness) : Harness := { h with finished := h.finished + 1 }

@[simp] theorem Harness.finish_ledger (h : Harness) : h.finish.ledger = h.ledger := rfl
@[simp] theorem Harness.finish_finished (h : Harness) : h.finish.finished = h.finished + 1 := rfl

/-- Every way a measurement can end. -/
inductive Ends (c : Combination φ) (h : Harness) : Result φ → Harness → Prop
  | panicked : Ends c h .panicked h
  | unavailable (hprepare : c.prepare = .error u) :
    Ends c h (.returned (.ok (.unavailable u.name u.reason))) h
  | failed (hprepare : c.prepare = .ok p) :
    Ends c h (.returned (.ok (.failed p.name p.configuration error))) h.finish
  | disagreed (hran : Ran c p warm outcomes) (hfirst : outcomes.head? = some first)
    (hlast : outcomes.getLast? = some last) (hmismatch : first.trace.agreesWith last.trace = .error m) :
    Ends c h (.returned (.error {
      scenario := c.scenario
      depth := c.depth
      reference := p.name ++ " (first iteration)"
      backend := p.name ++ " (last iteration)"
      mismatch := m })) h.finish
  | rejected (hran : Ran c p warm outcomes)
    (hobserve : h.ledger.observe c.scenario c.depth p.name (reported warm outcomes).trace = .error f) :
    Ends c h (.returned (.error f)) h.finish
  | measured (hran : Ran c p warm outcomes)
    (hobserve : h.ledger.observe c.scenario c.depth p.name (reported warm outcomes).trace = .ok ledger) :
    Ends c h (.returned (.ok (.measured p.name p.configuration (reported warm outcomes).figures
      (reported warm outcomes).trace outcomes.length (decide (outcomes.length > 0)))))
      { h.finish with ledger }

theorem conclude_ends {c : Combination φ} {p : Prepared φ} {warm : Outcome φ} (h : Harness)
    (hprepare : c.prepare = .ok p) (hwarm : p.warmUp = .ok warm) :
    Ends c h
      (conclude c p warm ((p.time (c.benchmark warm)).foldl Evidence.recordResult .new) p.finish h.finish).1
      (conclude c p warm ((p.time (c.benchmark warm)).foldl Evidence.recordResult .new) p.finish
        h.finish).2 := by
  generalize hevidence : (p.time (c.benchmark warm)).foldl Evidence.recordResult .new = evidence
  unfold conclude
  cases hfailure : evidence.failure with
  | some error => exact .failed hprepare
  | none =>
    cases hfinish : p.finish with
    | error error => exact .failed hprepare
    | ok =>
      obtain ⟨outcomes, htime, hfirst, hlast, hcount⟩ :=
        evidence_of_no_failure ((congrArg Evidence.failure hevidence).trans hfailure)
      rw [hevidence] at hfirst hlast hcount
      have hran : Ran c p warm outcomes := ⟨hprepare, hwarm, htime, hfinish⟩
      simp only [Evidence.new, Option.none_or, Option.or_none, Nat.zero_add] at hfirst hlast hcount
      have hreported : evidence.last.getD warm = reported warm outcomes := by rw [hlast, reported]
      simp only [hreported, hcount]
      split
      · rename_i m hmismatch
        split at hmismatch
        · rename_i first last he he'
          exact .disagreed hran (hfirst.symm.trans he) (hlast.symm.trans he') hmismatch
        · cases hmismatch
      · simp only [Harness.finish_ledger]
        split
        · exact .rejected hran ‹_›
        · exact .measured hran ‹_›

theorem measure_ends (c : Combination φ) (h : Harness) :
    Ends c h (measureCombinationWith c h).1 (measureCombinationWith c h).2 := by
  unfold measureCombinationWith
  split
  · exact .panicked
  split
  · exact .unavailable ‹_›
  rename_i p hprepare
  split
  · exact .failed hprepare
  split
  · exact .panicked
  split
  · exact .failed hprepare
  rename_i warm hwarm
  exact conclude_ends h hprepare hwarm

end Measure


-- ---------------------------------------------------------------------------
-- References
-- ---------------------------------------------------------------------------

namespace Ledger

variable {l l' : Ledger} {scenario : Scenario} {depth : Depth} {backend : String} {trace : Trace}

/-- What was observed agrees with the reference there then is, and no reference that
was there goes. -/
theorem find_of_observe (h : l.observe scenario depth backend trace = .ok l') :
    (∃ r, l'.find scenario depth = some r ∧ r.trace.Agrees trace) ∧
      ∀ s d r, l.find s d = some r → l'.find s d = some r := by
  unfold observe at h
  cases hfind : l.find scenario depth with
  | some reference =>
    rw [hfind] at h
    dsimp only at h
    split at h
    · rename_i hagrees
      obtain rfl := Except.ok.inj h
      exact ⟨⟨reference, hfind, hagrees⟩, fun _ _ _ hr => hr⟩
    · cases h
  | none =>
    rw [hfind] at h
    obtain rfl := Except.ok.inj h
    refine ⟨⟨{ scenario, depth, backend, trace }, ?_, Trace.agrees_equivalence.refl _⟩, ?_⟩
    · rw [find, List.find?_append, show l.references.find? _ = none from hfind]
      simp
    · intro s d r hr
      rw [find, List.find?_append, show l.references.find? _ = some r from hr]
      rfl

end Ledger

section Measure

variable {φ : Type u}

/-- The trace a measurement recorded. -/
def Result.trace : Result φ → Option Trace
  | .returned (.ok (.measured _ _ _ trace _ _)) => some trace
  | _ => none

theorem Ends.ledger_of_trace {c : Combination φ} {h h' : Harness} {r : Result φ} (hends : Ends c h r h') :
    (r.trace = none ∧ h'.ledger = h.ledger) ∨ ∃ p warm outcomes, Ran c p warm outcomes ∧
      r.trace = some (reported warm outcomes).trace ∧
      h.ledger.observe c.scenario c.depth p.name (reported warm outcomes).trace = .ok h'.ledger := by
  cases hends with
  | measured hran hobserve => exact .inr ⟨_, _, _, hran, rfl, hobserve⟩
  | _ => exact .inl ⟨rfl, rfl⟩

/-- A measurement keeps every reference, and leaves one that agrees with what it
recorded. -/
theorem Ends.find {c : Combination φ} {h h' : Harness} {r : Result φ} (hends : Ends c h r h') :
    (∀ s d x, h.ledger.find s d = some x → h'.ledger.find s d = some x) ∧
      ∀ t, r.trace = some t → ∃ x, h'.ledger.find c.scenario c.depth = some x ∧ x.trace.Agrees t := by
  rcases hends.ledger_of_trace with ⟨hnone, hledger⟩ | ⟨p, warm, outcomes, -, htrace, hobserve⟩
  · exact ⟨fun s d x hx => hledger ▸ hx, fun t ht => nomatch hnone.symm.trans ht⟩
  · obtain ⟨hfind, hkeeps⟩ := Ledger.find_of_observe hobserve
    refine ⟨hkeeps, fun t ht => ?_⟩
    obtain rfl := Option.some.inj (htrace.symm.trans ht)
    exact hfind

theorem measureAll_cons (c : Combination φ) (cs : List (Combination φ)) (h : Harness) :
    measureAll (c :: cs) h = ((measureCombinationWith c h).1 :: (measureAll cs (measureCombinationWith c h).2).1,
      (measureAll cs (measureCombinationWith c h).2).2) := rfl

/-- Over a whole sequence every recorded trace agrees with the reference there is in
the end. -/
theorem measureAll_find (cs : List (Combination φ)) (h : Harness) :
    (∀ s d x, h.ledger.find s d = some x → (measureAll cs h).2.ledger.find s d = some x) ∧
      ∀ (i : Nat) c t, cs[i]? = some c → (measureAll cs h).1[i]?.bind Result.trace = some t →
        ∃ x, (measureAll cs h).2.ledger.find c.scenario c.depth = some x ∧ x.trace.Agrees t := by
  induction cs generalizing h with
  | nil =>
    refine ⟨fun _ _ _ hx => hx, fun i c t hc => ?_⟩
    simp at hc
  | cons c cs ih =>
    obtain ⟨hkeeps, hrecorded⟩ := (measure_ends c h).find
    obtain ⟨hrest, hrecords⟩ := ih (measureCombinationWith c h).2
    simp only [measureAll_cons]
    refine ⟨fun s d x hx => hrest s d x (hkeeps s d x hx), fun i c' t hc ht => ?_⟩
    cases i with
    | zero =>
      obtain rfl := Option.some.inj hc
      rw [List.getElem?_cons_zero, Option.bind_some] at ht
      obtain ⟨x, hx, hagrees⟩ := hrecorded t ht
      exact ⟨x, hrest _ _ x hx, hagrees⟩
    | succ i =>
      rw [List.getElem?_cons_succ] at hc ht
      exact hrecords i c' t hc ht

/-- Whatever the backends do: traces recorded for one scenario and depth agree with
each other; a combination that is not recorded leaves the ledger as it was; what is
recorded, or compared and rejected, is the last timed iteration's trace, or the
warm-up's where none ran; and a session that was prepared is finished exactly once
whenever the measurement returns. -/
theorem ledger_admits_agreeing :
    (∀ (cs : List (Combination φ)) h (i j : Nat) c c' t t', cs[i]? = some c → cs[j]? = some c' →
      (measureAll cs h).1[i]?.bind Result.trace = some t →
      (measureAll cs h).1[j]?.bind Result.trace = some t' →
      c.scenario = c'.scenario → c.depth = c'.depth → t.Agrees t') ∧
    ∀ (c : Combination φ) h r h', measureCombinationWith c h = (r, h') →
      (r.trace = none → h'.ledger = h.ledger) ∧
      (∀ t, r.trace = some t → ∃ p warm outcomes, Ran c p warm outcomes ∧
        t = (reported warm outcomes).trace ∧
        h.ledger.observe c.scenario c.depth p.name t = .ok h'.ledger) ∧
      (∀ f, r = .returned (.error f) → ∃ p warm outcomes, Ran c p warm outcomes ∧
        (h.ledger.observe c.scenario c.depth p.name (reported warm outcomes).trace = .error f ∨
          ∃ first last, outcomes.head? = some first ∧ outcomes.getLast? = some last ∧
            first.trace.agreesWith last.trace = .error f.mismatch)) ∧
      (∀ record, r = .returned record →
        h'.finished = h.finished + if c.prepare.isOk then 1 else 0) := by
  refine ⟨?_, ?_⟩
  · intro cs h i j c c' t t' hc hc' ht ht' hscenario hdepth
    obtain ⟨-, hrecords⟩ := measureAll_find cs h
    obtain ⟨x, hx, hagrees⟩ := hrecords i c t hc ht
    obtain ⟨x', hx', hagrees'⟩ := hrecords j c' t' hc' ht'
    rw [hscenario, hdepth, hx'] at hx
    obtain rfl := Option.some.inj hx
    exact Trace.agrees_equivalence.trans (Trace.agrees_equivalence.symm hagrees) hagrees'
  · intro c h r h' hmeasure
    have hends := measure_ends c h
    rw [hmeasure] at hends
    refine ⟨fun hnone => ?_, fun t ht => ?_, fun f hf => ?_, fun record hrecord => ?_⟩
    · rcases hends.ledger_of_trace with ⟨-, hledger⟩ | ⟨p, warm, outcomes, -, htrace, -⟩
      · exact hledger
      · exact nomatch hnone.symm.trans htrace
    · rcases hends.ledger_of_trace with ⟨hnone, -⟩ | ⟨p, warm, outcomes, hran, htrace, hobserve⟩
      · exact nomatch hnone.symm.trans ht
      · obtain rfl := Option.some.inj (htrace.symm.trans ht)
        exact ⟨p, warm, outcomes, hran, rfl, hobserve⟩
    · cases hends with
      | disagreed hran hfirst hlast hmismatch =>
        cases hf
        exact ⟨_, _, _, hran, .inr ⟨_, _, hfirst, hlast, hmismatch⟩⟩
      | rejected hran hobserve =>
        cases hf
        exact ⟨_, _, _, hran, .inl hobserve⟩
      | _ => cases hf
    · cases hends with
      | panicked => cases hrecord
      | unavailable hprepare => simp [hprepare, Except.isOk, Except.toBool]
      | failed hprepare => simp [hprepare, Except.isOk, Except.toBool]
      | disagreed hran => simp [hran.prepare, Except.isOk, Except.toBool]
      | rejected hran => simp [hran.prepare, Except.isOk, Except.toBool]
      | measured hran => simp [hran.prepare, Except.isOk, Except.toBool]

end Measure

/-- A backend whose every run has the same trace. -/
def Combination.steady (trace : Trace) : Combination Unit where
  which := .ringPlain
  weakness := .none
  opens := .perIteration
  scenario := .sequentialRead
  depth := 1
  prepare := .ok {
    name := "ring"
    configuration := ""
    openRead := .ok ()
    handleMode := true
    warmUp := .ok ⟨trace, ()⟩
    time _ := [.ok ⟨trace, ()⟩]
    finish := .ok () }

def twoReads : List Call := [
  .delivered { phase := .read, offset := 0, transferred := 2, bytes := [1, 2] },
  .delivered { phase := .read, offset := 2, transferred := 2, bytes := [3, 4] }]

/-- Two reads, the same two in the other order, and one of them alone. -/
def twoReadsThrice : List (Combination Unit) :=
  [.steady (trace twoReads), .steady (trace twoReads.reverse), .steady (trace (twoReads.take 1))]

theorem ledger_admits_agreeing_reads : (trace twoReads).Agrees (trace twoReads.reverse) ∧
    (measureAll twoReadsThrice ⟨.new, 0⟩).1[2]?.bind Result.trace = none ∧
    (measureAll twoReadsThrice ⟨.new, 0⟩).2.finished = 3 := by
  obtain ⟨hpairwise, -⟩ := @ledger_admits_agreeing Unit
  refine ⟨?_, by decide, by decide⟩
  exact hpairwise twoReadsThrice ⟨.new, 0⟩ 0 1 _ _ _ _ rfl rfl (by decide) (by decide) rfl rfl

end WinIoring.Bench
