import WinIoring.Bench.Scenario

/-!
# The matrix

Backends measured one after another over one ledger, each iteration a run of its
scenario. Where they serve the same files the comparator has nothing to say, and it
does not let a byte go by that is not theirs.
-/

namespace WinIoring.Bench

section Matrix

variable {φ : Type u} {served served' : Served} {jobs : Scenario → Depth → Job}

/-- A combination whose every iteration that goes through is one of its job, on a
backend that serves these files. -/
def Combination.Serves (served : Served) (jobs : Scenario → Depth → Job) (c : Combination φ) : Prop :=
  ∀ p, c.prepare = .ok p → ∀ outcome, (p.warmUp = .ok outcome ∨ ∃ timed, .ok outcome ∈ p.time timed) →
    ∃ s, (iteration (jobs c.scenario c.depth)).ReachableBy (Bench.Serves served) s ∧
      s.pc = .returned (.ok ()) ∧ outcome.trace = s.trace

-- ---------------------------------------------------------------------------
-- Its ledger
-- ---------------------------------------------------------------------------

/-- A ledger whose references are the jobs' own traces. -/
def Ledger.Plans (l : Ledger) (served : Served) (jobs : Scenario → Depth → Job) : Prop :=
  ∀ scenario depth reference, l.find scenario depth = some reference →
    (jobs scenario depth).Plans served reference.trace

namespace Ledger

variable {l l' : Ledger} {scenario : Scenario} {depth : Depth} {backend : String} {trace : Trace}

/-- A reference there is after an observation was there before, or is what was
observed. -/
theorem find_observe (h : l.observe scenario depth backend trace = .ok l')
    (hfind : l'.find scenario' depth' = some reference) :
    l.find scenario' depth' = some reference ∨
      scenario' = scenario ∧ depth' = depth ∧ reference.trace = trace := by
  unfold observe at h
  split at h
  · split at h
    · exact .inl (Except.ok.inj h ▸ hfind)
    · cases h
  · obtain rfl := Except.ok.inj h
    rw [find, List.find?_append] at hfind
    cases hold : l.references.find? fun r => r.scenario = scenario' ∧ r.depth = depth' with
    | some r =>
      rw [hold] at hfind
      exact .inl (hold.trans hfind)
    | none =>
      rw [hold, Option.none_or] at hfind
      have hnew := List.find?_some hfind
      obtain rfl := List.mem_singleton.mp (List.mem_of_find?_eq_some hfind)
      simp only [decide_eq_true_eq] at hnew
      exact .inr ⟨hnew.1.symm, hnew.2.symm, rfl⟩

theorem Plans.observe (hl : l.Plans served jobs) (htrace : (jobs scenario depth).Plans served trace)
    (h : l.observe scenario depth backend trace = .ok l') : l'.Plans served jobs := by
  intro scenario' depth' reference hfind
  rcases find_observe h hfind with hold | ⟨rfl, rfl, rfl⟩
  · exact hl _ _ _ hold
  · exact htrace

/-- Such a ledger takes the job's trace. -/
theorem Plans.takes (hl : l.Plans served jobs) (htrace : (jobs scenario depth).Plans served trace)
    (backend : String) : ∃ l', l.observe scenario depth backend trace = .ok l' := by
  cases hfind : l.find scenario depth with
  | some reference => exact ⟨l, observe_of_agrees hfind ((hl _ _ _ hfind).agrees htrace) backend⟩
  | none =>
    unfold Ledger.observe
    rw [hfind]
    exact ⟨_, rfl⟩

end Ledger

-- ---------------------------------------------------------------------------
-- Its measurements
-- ---------------------------------------------------------------------------

namespace Combination.Serves

variable {c : Combination φ} {p : Prepared φ} {warm : Outcome φ} {outcomes : List (Outcome φ)}

theorem plans_of_mem (hc : c.Serves served jobs) (hran : Ran c p warm outcomes) (hmem : outcome ∈ outcomes) :
    (jobs c.scenario c.depth).Plans served outcome.trace := by
  have htimed : .ok outcome ∈ p.time (c.benchmark warm) := hran.time ▸ List.mem_map_of_mem hmem
  obtain ⟨s, hs, hpc, htrace⟩ := hc p hran.prepare outcome (.inr ⟨_, htimed⟩)
  exact htrace ▸ .of_reachable hs hpc

theorem plans_reported (hc : c.Serves served jobs) (hran : Ran c p warm outcomes) :
    (jobs c.scenario c.depth).Plans served (reported warm outcomes).trace := by
  unfold reported
  cases hlast : outcomes.getLast? with
  | some last => exact hc.plans_of_mem hran (List.mem_of_getLast? hlast)
  | none =>
    obtain ⟨s, hs, hpc, htrace⟩ := hc p hran.prepare warm (.inl hran.warmUp)
    exact htrace ▸ .of_reachable hs hpc

/-- A measurement of such a combination accuses nobody and leaves such a ledger. -/
theorem ends {h h' : Harness} {r : Result φ} (hc : c.Serves served jobs) (hl : h.ledger.Plans served jobs)
    (hends : Ends c h r h') : (∀ f, r ≠ .returned (.error f)) ∧ h'.ledger.Plans served jobs := by
  cases hends with
  | panicked => exact ⟨by rintro f ⟨⟩, hl⟩
  | unavailable => exact ⟨by rintro f ⟨⟩, hl⟩
  | failed => exact ⟨by rintro f ⟨⟩, hl⟩
  | disagreed hran hfirst hlast hmismatch =>
    have hagrees := (hc.plans_of_mem hran (List.mem_of_head? hfirst)).agrees
      (hc.plans_of_mem hran (List.mem_of_getLast? hlast))
    cases hmismatch.symm.trans hagrees
  | rejected hran hobserve =>
    obtain ⟨l, htakes⟩ := hl.takes (hc.plans_reported hran) _
    cases hobserve.symm.trans htakes
  | measured hran hobserve => exact ⟨by rintro f ⟨⟩, hl.observe (hc.plans_reported hran) hobserve⟩

end Combination.Serves

theorem measureAll_serves (cs : List (Combination φ)) (h : Harness) (hcs : ∀ c ∈ cs, c.Serves served jobs)
    (hl : h.ledger.Plans served jobs) : (∀ r ∈ (measureAll cs h).1, ∀ f, r ≠ .returned (.error f)) ∧
      (measureAll cs h).2.ledger.Plans served jobs := by
  induction cs generalizing h with
  | nil => exact ⟨by simp [measureAll], hl⟩
  | cons c cs ih =>
    obtain ⟨hnone, hledger⟩ := (hcs c List.mem_cons_self).ends hl (measure_ends c h)
    obtain ⟨hrest, hend⟩ := ih (measureCombinationWith c h).2
      (fun c hc => hcs c (List.mem_cons_of_mem _ hc)) hledger
    rw [measureAll_cons]
    refine ⟨fun r hr => ?_, hend⟩
    rcases List.mem_cons.mp hr with rfl | hr
    · exact hnone
    · exact hrest r hr

/-- Over a whole matrix of backends that serve the same files nobody is accused, and
every reference is its job's own trace. A backend whose files are one byte off then
records nothing where there is a reference. -/
theorem matrix_accuses_nobody {cs : List (Combination φ)} (hcs : ∀ c ∈ cs, c.Serves served jobs) (finished : Nat) :
    (∀ r ∈ (measureAll cs ⟨.new, finished⟩).1, ∀ f, r ≠ .returned (.error f)) ∧
    (measureAll cs ⟨.new, finished⟩).2.ledger.Plans served jobs ∧
    ∀ served' (c : Combination φ) reference, c.Serves served' jobs →
      (∀ offsets, (jobs c.scenario c.depth).offsets = some offsets →
        served.OneByteApart served' (jobs c.scenario c.depth).scenario offsets) →
      (measureAll cs ⟨.new, finished⟩).2.ledger.find c.scenario c.depth = some reference →
      (measureCombinationWith c (measureAll cs ⟨.new, finished⟩).2).1.trace = none := by
  have hnew : Ledger.new.Plans served jobs := by rintro _ _ _ ⟨⟩
  obtain ⟨haccuse, hledger⟩ := measureAll_serves cs ⟨.new, finished⟩ hcs hnew
  refine ⟨haccuse, hledger, fun served' c reference hc hapart hfind => ?_⟩
  rcases (measure_ends c _).ledger_of_trace with ⟨hnone, -⟩ | ⟨p, warm, outcomes, hran, -, hobserve⟩
  · exact hnone
  · obtain ⟨⟨r, hr, hagrees⟩, hkeeps⟩ := Ledger.find_of_observe hobserve
    obtain rfl : reference = r := Option.some.inj ((hkeeps _ _ _ hfind).symm.trans hr)
    exact absurd hagrees ((hledger _ _ _ hfind).not_agrees (hc.plans_reported hran) hapart)

end Matrix

/-- A batch read in the order it was issued. -/
def inOrder (b : UInt8) : List BackendAction :=
  [.opened (.ok ()), .advance, .make (.ok ()), .make (.ok ()), .advance, .finish 0 (.ok (2, [1, 2])), .advance,
    .finish 0 (.ok (2, [3, b])), .advance, .advance, .advance]

/-- A backend that reads two blocks over and over. -/
def Combination.bulk (trace : Trace) : Combination Unit := { steady trace with scenario := .bulkRead, depth := 2 }

/-- What it leaves. -/
def bulkTrace (b : UInt8) : Trace :=
  tally (Scenario.bulkRead.issues [0, 2] 2) (Scenario.bulkRead.deliveries [0, 2] (twoBlocks b))

theorem Combination.bulk_serves {b : UInt8} {s : Iteration}
    (hrun : ((iteration bulkTwo).guarded (serves (twoBlocks b))).run (.new bulkTwo [0, 2]) as = some s)
    (hpc : s.pc = .returned (.ok ())) : (bulk (bulkTrace b)).Serves (twoBlocks b) fun _ _ => bulkTwo := by
  have hreach := reachable_of_serves rfl hrun
  have htrace : s.trace = bulkTrace b := (Job.Plans.of_reachable hreach hpc).eq ⟨[0, 2], rfl, rfl⟩
  intro p hprepare outcome houtcome
  obtain rfl := Except.ok.inj hprepare
  refine ⟨s, hreach, hpc, ?_⟩
  rcases houtcome with hwarm | ⟨_, htimed⟩
  · exact Except.ok.inj hwarm ▸ htrace.symm
  · exact Except.ok.inj (List.mem_singleton.mp htimed) ▸ htrace.symm

/-- A backend measured twice, and one that reads a byte wrong. -/
theorem matrix_accuses_nobody_bulk :
    let h := (measureAll [.bulk (bulkTrace 4), .bulk (bulkTrace 4)] ⟨.new, 0⟩).2
    (∀ r ∈ (measureAll [.bulk (bulkTrace 4), .bulk (bulkTrace 4)] ⟨.new, 0⟩).1, ∀ f, r ≠ .returned (.error f)) ∧
      (measureCombinationWith (.bulk (bulkTrace 5)) h).1.trace = none := by
  obtain ⟨s, hrun, hpc⟩ : ∃ s, ((iteration bulkTwo).guarded (serves (twoBlocks 4))).run
      (.new bulkTwo [0, 2]) bothAtOnce = some s ∧ s.pc = .returned (.ok ()) := ⟨_, rfl, rfl⟩
  obtain ⟨s', hrun', hpc'⟩ : ∃ s, ((iteration bulkTwo).guarded (serves (twoBlocks 5))).run
      (.new bulkTwo [0, 2]) (inOrder 5) = some s ∧ s.pc = .returned (.ok ()) := ⟨_, rfl, rfl⟩
  have hcs : ∀ c ∈ [Combination.bulk (bulkTrace 4), .bulk (bulkTrace 4)],
      c.Serves (twoBlocks 4) fun _ _ => bulkTwo := by
    simpa using Combination.bulk_serves hrun hpc
  obtain ⟨hnobody, -, hrejects⟩ := matrix_accuses_nobody hcs 0
  exact ⟨hnobody, hrejects (twoBlocks 5) _ ⟨.bulkRead, 2, "ring", bulkTrace 4⟩
    (Combination.bulk_serves hrun' hpc') (fun _ => twoBlocks_apart) rfl⟩

end WinIoring.Bench
