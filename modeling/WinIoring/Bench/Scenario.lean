import WinIoring.Bench.Fairness

/-!
# Scenarios

One iteration of the benchmarks: a scenario's operations, driven at a bounded depth
against a backend that finishes them in the order it likes, and the trace of what was
delivered. Backends that serve the same bytes leave the same trace.
-/

namespace WinIoring.Bench

-- ---------------------------------------------------------------------------
-- Offsets
-- ---------------------------------------------------------------------------

structure Rng where
  state : UInt64

namespace Rng

def new (seed : UInt64) : Rng := ⟨seed ||| 1⟩

/-- SplitMix64. -/
def nextValue (r : Rng) : Rng × UInt64 :=
  let state := r.state + 0x9E3779B97F4A7C15
  let z := (state ^^^ (state >>> 30)) * 0xBF58476D1CE4E5B9
  let z := (z ^^^ (z >>> 27)) * 0x94D049BB133111EB
  (⟨state⟩, z ^^^ (z >>> 31))

def below (r : Rng) (bound : UInt64) : Rng × UInt64 :=
  if bound = 0 then
    (r, 0)
  else
    let (r, value) := r.nextValue
    (r, value % bound)

end Rng

/-- The seed every randomised scenario uses. -/
def seed : UInt64 := 0x5EED1234ABCD0001

def Scenario.shape : Scenario → Shape
  | .sequentialRead | .randomRead | .writeThenRead => .rolling
  | .bulkRead => .batched

/-- The random scenario's offsets, each a whole number of blocks. -/
def randomOffsets (blocks block : UInt64) (r : Rng) : Nat → List UInt64
  | 0 => []
  | n + 1 => (r.below blocks).2 * block :: randomOffsets blocks block (r.below blocks).1 n

/-- What a single run is asked to do. `readBytes` is the length of the file it reads. -/
structure Job where
  scenario : Scenario
  readBytes : UInt64
  block : UInt32
  operations : Nat
  depth : Depth

/-- The offsets of a job's operations, in order. Dividing a file into empty blocks
panics. -/
def Job.offsets (j : Job) : Option (List UInt64) :=
  match j.scenario with
  | .randomRead =>
    if j.block = 0 then
      none
    else
      some (randomOffsets (max (j.readBytes / j.block.toUInt64) 1) j.block.toUInt64 (.new seed) j.operations)
  | _ => some ((List.range j.operations).map fun i => .ofNat i * j.block.toUInt64)

-- ---------------------------------------------------------------------------
-- An iteration
-- ---------------------------------------------------------------------------

/-- Where an iteration awaits its backend. -/
inductive ScenarioPc where
  | opening (phase : Phase)
  | running (phase : Phase)
  | syncing
  | returned (result : Except IoError Unit)

structure Iteration where
  scenario : Scenario
  depth : Depth
  block : UInt32
  offsets : List UInt64
  runner : Runner
  trace : Trace
  pc : ScenarioPc

/-- What the backend answers, and in which order. A finished operation comes with what
it transferred and the bytes of its buffer. -/
inductive BackendAction where
  | opened (result : Except IoError Unit)
  | synced (result : Except IoError Unit)
  | advance
  | make (result : Except IoError Unit)
  | finish (i : Nat) (outcome : Except IoError (UInt32 × List UInt8))

def Trace.issueAll (t : Trace) (offsets : List UInt64) (block : UInt32) : Trace :=
  offsets.foldl (fun t offset => t.issue { offset, len := block }) t

namespace Iteration

/-- Writing notes both of its phases before it opens anything. -/
def new (j : Job) (offsets : List UInt64) : Iteration where
  scenario := j.scenario
  depth := j.depth
  block := j.block
  offsets
  runner := .new j.scenario.shape offsets.length j.depth
  trace := match j.scenario with
    | .writeThenRead => (Trace.new.issueAll offsets j.block).issueAll offsets j.block
    | _ => .new
  pc := .opening (match j.scenario with
    | .writeThenRead => .write
    | _ => .read)

/-- The file is open. A read scenario notes its operations only now. -/
def start (s : Iteration) (phase : Phase) : Iteration :=
  { s with
    trace := match s.scenario with
      | .writeThenRead => s.trace
      | _ => s.trace.issueAll s.offsets s.block
    runner := .new s.scenario.shape s.offsets.length s.depth
    pc := .running phase }

/-- What follows a step of the runner. -/
def follow (s : Iteration) (phase : Phase) (runner : Runner) : Iteration :=
  { s with
    runner
    pc := match runner.pc, phase with
      | .returned (.error e), _ => .returned (.error e)
      | .returned (.ok _), .write => .syncing
      | .returned (.ok _), .read => .returned (.ok ())
      | _, _ => .running phase }

/-- `offset_of`. -/
def offsetOf (s : Iteration) (op : Nat) : UInt64 := s.offsets.getD op 0

def step (s : Iteration) (action : BackendAction) : Option Iteration :=
  match s.pc, action with
  | .opening phase, .opened (.ok _) => some (s.start phase)
  | .opening _, .opened (.error e) => some { s with pc := .returned (.error e) }
  | .running phase, .advance => (s.runner.step .advance).map (s.follow phase)
  | .running phase, .make result => (s.runner.step (.make result)).map (s.follow phase)
  | .running phase, .finish i (.error e) => (s.runner.step (.finish i (.error e))).map (s.follow phase)
  | .running phase, .finish i (.ok d) =>
    s.runner.pending[i]?.bind fun op => (s.runner.step (.finish i (.ok d.1.toNat))).map fun runner =>
      { s.follow phase runner with
        trace := s.trace.delivered { phase, offset := s.offsetOf op, transferred := d.1, bytes := d.2 } }
  | .syncing, .synced (.ok _) => some { s with pc := .opening .read }
  | .syncing, .synced (.error e) => some { s with pc := .returned (.error e) }
  | _, _ => none

end Iteration

/-- A job on any backend. -/
def iteration (j : Job) : Machine Iteration BackendAction where
  init s := ∃ offsets, j.offsets = some offsets ∧ s = .new j offsets
  step := Iteration.step

-- ---------------------------------------------------------------------------
-- What a backend serves
-- ---------------------------------------------------------------------------

/-- What an operation at an offset transfers and finds in its buffer. -/
abbrev Served := Phase → UInt64 → UInt32 × List UInt8

def Served.delivery (served : Served) (phase : Phase) (offset : UInt64) : Delivery where
  phase
  offset
  transferred := (served phase offset).1
  bytes := (served phase offset).2

/-- A step of a backend that serves these files: what it delivers is theirs, and
otherwise it does what it likes. -/
def Serves (served : Served) (s : Iteration) : BackendAction → Prop
  | .finish i (.ok d) => ∀ phase op, s.pc = .running phase → s.runner.pending[i]? = some op →
    ({ phase, offset := s.offsetOf op, transferred := d.1, bytes := d.2 } : Delivery).seen =
      (served.delivery phase (s.offsetOf op)).seen
  | _ => True

/-- The phases of a scenario, in order. -/
def Scenario.phases : Scenario → List Phase
  | .writeThenRead => [.write, .read]
  | _ => [.read]

/-- What a scenario issues. -/
def Scenario.issues (scenario : Scenario) (offsets : List UInt64) (block : UInt32) : List Issued :=
  scenario.phases.flatMap fun _ => offsets.map fun offset => { offset, len := block }

/-- What a scenario is delivered, taken in the order it issues. -/
def Scenario.deliveries (scenario : Scenario) (offsets : List UInt64) (served : Served) : List Delivery :=
  scenario.phases.flatMap fun phase => offsets.map (served.delivery phase)

/-- The trace of operations and deliveries. -/
def tally (ops : List Issued) (ds : List Delivery) : Trace := trace (ops.map .issued ++ ds.map .delivered)

section Tally

variable {ops : List Issued} {ds ds' : List Delivery}

theorem tally_eq : tally ops ds =
    { issued := ops
      digest := Machine.digest Delivery.hash ds
      deliveredBytes := .ofNat (readableBytes ds)
      completions := ds.length } := by
  have hissues : issues (ops.map .issued ++ ds.map .delivered) = ops := by
    simp [issues, List.filterMap_append, List.filterMap_map]
  have hdeliveries : deliveries (ops.map .issued ++ ds.map .delivered) = ds := by
    simp [deliveries, List.filterMap_append, List.filterMap_map]
  rw [tally, trace_eq, hissues, hdeliveries]

/-- The order of deliveries does not show. -/
theorem tally_perm (h : ds.Perm ds') : tally ops ds = tally ops ds' := by
  have hdigest : Machine.digest Delivery.hash _ = Machine.digest Delivery.hash _ := Machine.digest_perm h
  have hbytes : readableBytes _ = readableBytes _ := Machine.digest_perm h
  rw [tally_eq, tally_eq, hdigest, hbytes, h.length_eq]

theorem tally_delivered (d : Delivery) : (tally ops ds).delivered d = tally ops (ds ++ [d]) := by
  simp [tally, trace, List.foldl_append, Trace.record]

theorem tally_issueAll (offsets : List UInt64) (block : UInt32) : (tally ops []).issueAll offsets block =
    tally (ops ++ offsets.map fun offset => { offset, len := block }) [] := by
  simp [tally, trace, Trace.issueAll, List.foldl_append, List.foldl_map, Trace.record]

end Tally

/-- What lies beyond what was transferred does not show. -/
theorem Trace.delivered_congr {d d' : Delivery} (h : d.seen = d'.seen) (t : Trace) :
    t.delivered d = t.delivered d' := by
  have hhash : d.hash = d'.hash := by rw [← d.hash_seen, h, d'.hash_seen]
  have hreadable : d.readable = d'.readable := congrArg Delivery.bytes h
  rw [Trace.delivered, Trace.delivered, hhash, hreadable]

-- ---------------------------------------------------------------------------
-- The runner within an iteration
-- ---------------------------------------------------------------------------

namespace Runner

variable {r r' : Runner} {a : RunnerAction}

/-- A step returns an error, or is one of a run whose operations succeed. -/
theorem turn_or_failed (h : r.step a = some r') : (∃ e, r'.pc = .returned (.error e)) ∨ Turn r a.refuses r' := by
  by_cases hok : Successful r a
  · exact .inr (turn_of_step hok h)
  refine .inl ?_
  unfold step at h
  split at h
  · exact absurd trivial hok
  · exact absurd trivial hok
  · split at h
    · split at h
      · exact absurd trivial hok
      · rename_i e
        split at h
        · exact absurd ‹_› hok
        · exact ⟨e, Option.some.inj h ▸ rfl⟩
    · cases h
  · exact absurd trivial hok
  · rename_i i outcome hpc
    obtain ⟨op, hop, rfl⟩ := Option.map_eq_some_iff.mp h
    cases outcome with
    | ok => exact absurd trivial hok
    | error e => exact ⟨e, rfl⟩
  · cases h

/-- Only a finished operation is delivered. -/
theorem deliveries_step (h : r.step a = some r') (ha : ∀ i n, a ≠ .finish i (.ok n)) :
    r'.deliveries = r.deliveries := by
  unfold step at h
  split at h
  · exact Option.some.inj h ▸ rfl
  · split at h
    · cases h
    · exact Option.some.inj h ▸ rfl
  · split at h
    · split at h
      · exact Option.some.inj h ▸ rfl
      · split at h
        · exact Option.some.inj h ▸ rfl
        · exact Option.some.inj h ▸ rfl
    · cases h
  · split at h
    · exact Option.some.inj h ▸ rfl
    · cases h
  · rename_i i outcome hpc
    obtain ⟨op, hop, rfl⟩ := Option.map_eq_some_iff.mp h
    cases outcome with
    | ok n => exact absurd rfl (ha i n)
    | error e => rfl
  · cases h

theorem deliveries_finish (h : r.step (.finish i (.ok n)) = some r') (hop : r.pending[i]? = some op) :
    r'.deliveries = r.deliveries ++ [op] := by
  unfold step at h
  split at h
  · cases ‹RunnerAction.finish i (.ok n) = _›
  · cases ‹RunnerAction.finish i (.ok n) = _›
  · cases ‹RunnerAction.finish i (.ok n) = _›
  · cases ‹RunnerAction.finish i (.ok n) = _›
  · rename_i heq
    obtain ⟨rfl, rfl⟩ := RunnerAction.finish.inj heq
    rw [hop] at h
    exact Option.some.inj h ▸ rfl
  · cases h

end Runner

-- ---------------------------------------------------------------------------
-- On plan
-- ---------------------------------------------------------------------------

namespace Iteration

variable {served : Served} {s t : Iteration} {a : BackendAction}

/-- What a phase comes after. -/
def earlier (s : Iteration) (served : Served) : Phase → List Delivery
  | .write => []
  | .read => match s.scenario with
    | .writeThenRead => s.offsets.map (served.delivery .write)
    | _ => []

/-- What is noted before the file of a phase is open. -/
def noted (s : Iteration) : List Issued :=
  match s.scenario with
  | .writeThenRead => s.scenario.issues s.offsets s.block
  | _ => []

/-- What a runner was delivered, at its offsets. -/
def delivered (s : Iteration) (served : Served) (phase : Phase) (r : Runner) : List Delivery :=
  r.deliveries.map fun op => served.delivery phase (s.offsetOf op)

/-- An iteration of a backend that serves these files has in its trace what it issued
and what it was delivered so far, in some order. -/
inductive OnPlan (served : Served) (s : Iteration) : Prop
  | opening (hpc : s.pc = .opening phase) (hphase : phase = .write → s.scenario = .writeThenRead)
    (hds : ds.Perm (s.earlier served phase)) (htrace : s.trace = tally s.noted ds)
  | running (hpc : s.pc = .running phase) (hphase : phase = .write → s.scenario = .writeThenRead)
    (hds : ds.Perm (s.earlier served phase)) (hrunner : s.runner.Accounted)
    (hcount : s.runner.count = s.offsets.length)
    (htrace : s.trace = tally (s.scenario.issues s.offsets s.block) (ds ++ s.delivered served phase s.runner))
  | syncing (hpc : s.pc = .syncing) (hscenario : s.scenario = .writeThenRead)
    (hds : ds.Perm (s.earlier served .read)) (htrace : s.trace = tally s.noted ds)
  | finished (hpc : s.pc = .returned (.ok ()))
    (htrace : s.trace = tally (s.scenario.issues s.offsets s.block) (s.scenario.deliveries s.offsets served))
  | failed (hpc : s.pc = .returned (.error e))

theorem deliveries_eq (s : Iteration) (served : Served) : s.scenario.deliveries s.offsets served =
    s.earlier served .read ++ s.offsets.map (served.delivery .read) := by
  unfold Scenario.deliveries earlier
  cases s.scenario <;> simp [Scenario.phases]

/-- Every operation delivered is every offset read. -/
theorem delivered_perm {r : Runner} (h : r.deliveries.Perm (List.range s.offsets.length)) :
    (s.delivered served phase r).Perm (s.offsets.map (served.delivery phase)) := by
  have hall : (List.range s.offsets.length).map (fun op => served.delivery phase (s.offsetOf op)) =
      s.offsets.map (served.delivery phase) := by
    refine List.ext_getElem (by simp) fun i hi hi' => ?_
    rw [List.length_map] at hi'
    simp [offsetOf, List.getD_eq_getElem?_getD, List.getElem?_eq_getElem hi']
  exact hall ▸ h.map _

namespace OnPlan

theorem new {j : Job} (offsets : List UInt64) : OnPlan served (.new j offsets) := by
  cases hscenario : j.scenario with
  | writeThenRead =>
    have hds : List.Perm [] ((Iteration.new j offsets).earlier served .write) := .refl _
    refine .opening ?_ (fun _ => hscenario) hds ?_
    · simp [Iteration.new, hscenario]
    · have hnew : Trace.new = tally [] [] := rfl
      simp only [Iteration.new, noted, hscenario, hnew, tally_issueAll, Scenario.issues, Scenario.phases]
      simp
  | sequentialRead | randomRead | bulkRead =>
    have hds : List.Perm [] ((Iteration.new j offsets).earlier served .read) := by
      simp [earlier, Iteration.new, hscenario]
    refine .opening ?_ ?_ hds ?_
    · simp [Iteration.new, hscenario]
    · rintro ⟨⟩
    · simp only [Iteration.new, noted, hscenario]
      rfl

/-- A step of the runner keeps to the plan, and the last one completes a phase of it. -/
theorem follow {r : Runner} {trace : Trace} (hphase : phase = .write → s.scenario = .writeThenRead)
    (hds : ds.Perm (s.earlier served phase)) (hrunner : s.runner.Accounted)
    (hcount : s.runner.count = s.offsets.length) (hstep : s.runner.step act = some r)
    (htrace : trace = tally (s.scenario.issues s.offsets s.block) (ds ++ s.delivered served phase r)) :
    OnPlan served { s.follow phase r with trace } := by
  rcases Runner.turn_or_failed hstep with ⟨e, hpc⟩ | hturn
  · exact .failed (e := e) (by simp [Iteration.follow, hpc])
  have hnext := hrunner.turn hturn
  have hlength : r.count = s.offsets.length := hturn.config.2.1.trans hcount
  cases hpc : r.pc with
  | returned result =>
    obtain ⟨rfl, hpending, hissued⟩ := hnext.returned result hpc
    have hsplit := hnext.split
    rw [hnext.issues, hpending, hissued, hlength, List.nil_append] at hsplit
    have hall : (ds ++ s.delivered served phase r).Perm
        (s.earlier served phase ++ s.offsets.map (served.delivery phase)) := hds.append (delivered_perm hsplit)
    cases phase with
    | write =>
      have hscenario := hphase rfl
      refine .syncing (by simp [Iteration.follow, hpc]) hscenario (hall.trans (.of_eq ?_)) ?_
      · simp [earlier, Iteration.follow, hscenario]
      · simp only [noted, Iteration.follow, hscenario] at htrace ⊢
        exact htrace
    | read =>
      refine .finished (by simp [Iteration.follow, hpc]) (htrace.trans (tally_perm (hall.trans (.of_eq ?_))))
      exact (deliveries_eq s served).symm
  | top | refilling | draining =>
    exact .running (by simp [Iteration.follow, hpc]) hphase hds hnext hlength htrace

theorem start (hpc : s.pc = .opening phase) (h : OnPlan served s) : OnPlan served (s.start phase) := by
  cases h with
  | @opening phase' ds hpc' hphase hds htrace =>
    obtain rfl := ScenarioPc.opening.inj (hpc.symm.trans hpc')
    refine .running rfl hphase hds (.new ..) rfl ?_
    cases hscenario : s.scenario with
    | writeThenRead =>
      simp only [Iteration.start, noted, hscenario] at htrace ⊢
      rw [htrace]
      exact (congrArg (tally _) (List.append_nil ds)).symm
    | sequentialRead | randomRead | bulkRead =>
      have hnone : ds = [] := by
        cases phase with
        | write => cases hscenario.symm.trans (hphase rfl)
        | read =>
          simp only [earlier, hscenario] at hds
          exact hds.eq_nil
      subst hnone
      simp only [Iteration.start, noted, hscenario] at htrace ⊢
      rw [htrace, tally_issueAll]
      simp only [Scenario.issues, Scenario.phases, List.flatMap_cons, List.flatMap_nil, List.nil_append,
        List.append_nil]
      rfl
  | running hpc' | syncing hpc' | finished hpc' | failed hpc' => cases hpc.symm.trans hpc'

/-- A step of the runner, and what it adds to the trace. -/
theorem run {r : Runner} {trace : Trace} (h : OnPlan served s) (hpc : s.pc = .running phase)
    (hstep : s.runner.step act = some r)
    (hadds : ∀ ops ds, s.trace = tally ops (ds ++ s.delivered served phase s.runner) →
      trace = tally ops (ds ++ s.delivered served phase r)) : OnPlan served { s.follow phase r with trace } := by
  cases h with
  | running hpc' hphase hds hrunner hcount htrace =>
    obtain rfl := ScenarioPc.running.inj (hpc.symm.trans hpc')
    exact follow hphase hds hrunner hcount hstep (hadds _ _ htrace)
  | opening hpc' | syncing hpc' | finished hpc' | failed hpc' => cases hpc.symm.trans hpc'

theorem undelivered {r : Runner} (h : OnPlan served s) (hpc : s.pc = .running phase)
    (hstep : s.runner.step act = some r) (hact : ∀ i n, act ≠ .finish i (.ok n)) :
    OnPlan served (s.follow phase r) := by
  refine h.run hpc hstep fun ops ds htrace => ?_
  rw [delivered, Runner.deliveries_step hstep hact]
  exact htrace

theorem deliver {r : Runner} {d : Delivery} (h : OnPlan served s) (hpc : s.pc = .running phase)
    (hstep : s.runner.step (.finish i (.ok n)) = some r) (hop : s.runner.pending[i]? = some op)
    (hserved : d.seen = (served.delivery phase (s.offsetOf op)).seen) :
    OnPlan served { s.follow phase r with trace := s.trace.delivered d } := by
  refine h.run hpc hstep fun ops ds htrace => ?_
  rw [delivered, Runner.deliveries_finish hstep hop, Trace.delivered_congr hserved, htrace, tally_delivered,
    List.map_append, List.append_assoc]
  rfl

theorem step (h : OnPlan served s) (ha : Serves served s a) (hs : s.step a = some t) : OnPlan served t := by
  unfold Iteration.step at hs
  split at hs
  · rename_i hpc
    exact Option.some.inj hs ▸ h.start hpc
  · exact Option.some.inj hs ▸ .failed rfl
  · rename_i hpc
    obtain ⟨r, hr, rfl⟩ := Option.map_eq_some_iff.mp hs
    exact h.undelivered hpc hr (by rintro _ _ ⟨⟩)
  · rename_i hpc
    obtain ⟨r, hr, rfl⟩ := Option.map_eq_some_iff.mp hs
    exact h.undelivered hpc hr (by rintro _ _ ⟨⟩)
  · rename_i hpc
    obtain ⟨r, hr, rfl⟩ := Option.map_eq_some_iff.mp hs
    exact h.undelivered hpc hr (by rintro _ _ ⟨⟩)
  · rename_i phase i d hpc
    obtain ⟨op, hop, hs⟩ := Option.bind_eq_some_iff.mp hs
    obtain ⟨r, hr, rfl⟩ := Option.map_eq_some_iff.mp hs
    exact h.deliver hpc hr hop (ha phase op hpc hop)
  · rename_i hpc
    obtain rfl := Option.some.inj hs
    cases h with
    | syncing _ hscenario hds htrace => exact .opening rfl (by rintro ⟨⟩) hds htrace
    | opening hpc' | running hpc' | finished hpc' | failed hpc' => cases hpc.symm.trans hpc'
  · exact Option.some.inj hs ▸ .failed rfl
  · cases hs

end OnPlan

theorem config_of_step (hs : s.step a = some t) :
    t.scenario = s.scenario ∧ t.block = s.block ∧ t.offsets = s.offsets := by
  unfold step at hs
  split at hs
  · exact Option.some.inj hs ▸ ⟨rfl, rfl, rfl⟩
  · exact Option.some.inj hs ▸ ⟨rfl, rfl, rfl⟩
  · obtain ⟨r, -, rfl⟩ := Option.map_eq_some_iff.mp hs
    exact ⟨rfl, rfl, rfl⟩
  · obtain ⟨r, -, rfl⟩ := Option.map_eq_some_iff.mp hs
    exact ⟨rfl, rfl, rfl⟩
  · obtain ⟨r, -, rfl⟩ := Option.map_eq_some_iff.mp hs
    exact ⟨rfl, rfl, rfl⟩
  · obtain ⟨op, -, hs⟩ := Option.bind_eq_some_iff.mp hs
    obtain ⟨r, -, rfl⟩ := Option.map_eq_some_iff.mp hs
    exact ⟨rfl, rfl, rfl⟩
  · exact Option.some.inj hs ▸ ⟨rfl, rfl, rfl⟩
  · exact Option.some.inj hs ▸ ⟨rfl, rfl, rfl⟩
  · cases hs

end Iteration

/-- The trace of a job over the files served. Its depth does not enter. -/
def Job.Plans (j : Job) (served : Served) (t : Trace) : Prop :=
  ∃ offsets, j.offsets = some offsets ∧
    t = tally (j.scenario.issues offsets j.block) (j.scenario.deliveries offsets served)

/-- Files that serve a scenario the same but for one byte of one operation. -/
def Served.OneByteApart (served served' : Served) (scenario : Scenario) (offsets : List UInt64) : Prop :=
  ∃ before d d' after, scenario.deliveries offsets served = before ++ d :: after ∧
    scenario.deliveries offsets served' = before ++ d' :: after ∧ d.DiffersInOneByte d'

namespace Job.Plans

variable {j : Job} {served served' : Served} {t t' : Trace} {s : Iteration}

/-- An iteration that returns has left its job's trace. -/
theorem of_reachable (h : (iteration j).ReachableBy (Serves served) s) (hpc : s.pc = .returned (.ok ())) :
    j.Plans served s.trace := by
  have hinv : s.OnPlan served ∧ s.scenario = j.scenario ∧ s.block = j.block ∧ j.offsets = some s.offsets := by
    refine h.invariant (I := fun s =>
      s.OnPlan served ∧ s.scenario = j.scenario ∧ s.block = j.block ∧ j.offsets = some s.offsets) ?_ ?_
    · rintro s ⟨offsets, hoffsets, rfl⟩
      exact ⟨.new offsets, rfl, rfl, hoffsets⟩
    · rintro s a t - ⟨hplan, hscenario, hblock, hoffsets⟩ ha hs
      obtain ⟨hscenario', hblock', hoffsets'⟩ := Iteration.config_of_step hs
      exact ⟨hplan.step ha hs, hscenario'.trans hscenario, hblock'.trans hblock, hoffsets'.symm ▸ hoffsets⟩
  obtain ⟨hplan, hscenario, hblock, hoffsets⟩ := hinv
  cases hplan with
  | finished _ htrace => exact ⟨s.offsets, hoffsets, hscenario ▸ hblock ▸ htrace⟩
  | opening hpc' | running hpc' | syncing hpc' | failed hpc' => cases hpc.symm.trans hpc'

theorem of_depth {depth : Depth} (h : ({ j with depth } : Job).Plans served t) : j.Plans served t := h

theorem eq (h : j.Plans served t) (h' : j.Plans served t') : t = t' := by
  obtain ⟨offsets, hoffsets, rfl⟩ := h
  obtain ⟨offsets', hoffsets', rfl⟩ := h'
  rw [Option.some.inj (hoffsets.symm.trans hoffsets')]

theorem agrees (h : j.Plans served t) (h' : j.Plans served t') : t.Agrees t' := Trace.agrees_iff.mpr (h.eq h')

theorem not_agrees (h : j.Plans served t) (h' : j.Plans served' t')
    (hapart : ∀ offsets, j.offsets = some offsets → served.OneByteApart served' j.scenario offsets) :
    ¬ t.Agrees t' := by
  obtain ⟨offsets, hoffsets, rfl⟩ := h
  obtain ⟨offsets', hoffsets', rfl⟩ := h'
  obtain rfl := Option.some.inj (hoffsets.symm.trans hoffsets')
  obtain ⟨before, d, d', after, hds, hds', hbyte⟩ := hapart offsets hoffsets
  intro hagrees
  have hdigest := congrArg Trace.digest (Trace.agrees_iff.mp hagrees)
  rw [tally_eq, tally_eq, hds, hds'] at hdigest
  exact Machine.digest_ne_of_perm_cons List.perm_middle List.perm_middle hbyte.hash_ne hdigest

end Job.Plans

/-- A ledger takes a trace that agrees with its reference. -/
theorem Ledger.observe_of_agrees {l : Ledger} {reference : Reference} {t : Trace}
    (hfind : l.find scenario depth = some reference) (hagrees : reference.trace.Agrees t) (backend : String) :
    l.observe scenario depth backend t = .ok l := by
  unfold observe
  rw [hfind]
  dsimp only
  rw [show reference.trace.agreesWith t = .ok () from hagrees]

/-- Two iterations of one job that return, on backends that serve the same files, leave
the same trace: whatever their depths, the orders they finish in and the refusals of
their pools, so the ledger that has one takes the other. On files one byte apart they
do not agree. -/
theorem backends_agree {j : Job} {served : Served} {s : Iteration}
    (h : (iteration j).ReachableBy (Serves served) s) (hpc : s.pc = .returned (.ok ())) :
    (∀ depth s', (iteration { j with depth }).ReachableBy (Serves served) s' → s'.pc = .returned (.ok ()) →
      s'.trace = s.trace ∧ ∀ (l l' : Ledger) (backend backend' : String),
        l.observe j.scenario j.depth backend s.trace = .ok l' →
        l'.observe j.scenario j.depth backend' s'.trace = .ok l') ∧
    (∀ served' depth s', (iteration { j with depth }).ReachableBy (Serves served') s' →
      s'.pc = .returned (.ok ()) → (∀ offsets, j.offsets = some offsets →
        served.OneByteApart served' j.scenario offsets) → ¬ s.trace.Agrees s'.trace) := by
  have hplans : j.Plans served s.trace := .of_reachable h hpc
  constructor
  · intro depth s' h' hpc'
    have hplans' : j.Plans served s'.trace := .of_depth (.of_reachable h' hpc')
    have hsame := hplans'.eq hplans
    refine ⟨hsame, fun l l' backend backend' hobserve => ?_⟩
    obtain ⟨⟨reference, hfind, hagrees⟩, -⟩ := Ledger.find_of_observe hobserve
    exact Ledger.observe_of_agrees hfind (hsame ▸ hagrees) backend'
  · intro served' depth s' h' hpc' hapart
    have hplans' : j.Plans served' s'.trace := .of_depth (.of_reachable h' hpc')
    exact hplans.not_agrees hplans' hapart

/-- Whether a step is one of a backend that serves these files, byte for byte. -/
def serves (served : Served) (s : Iteration) : BackendAction → Bool
  | .finish i (.ok d) =>
    match s.pc, s.runner.pending[i]? with
    | .running phase, some op => d = served phase (s.offsetOf op)
    | _, _ => true
  | _ => true

theorem Serves.of_check {served : Served} (s : Iteration) (a : BackendAction) (h : serves served s a = true) :
    Serves served s a := by
  unfold Serves
  split
  · intro phase op hpc hop
    simp only [serves, hpc, hop, decide_eq_true_eq] at h
    rw [h]
    rfl
  · trivial

theorem reachable_of_serves {j : Job} {served : Served} {offsets : List UInt64} {s : Iteration}
    (hoffsets : j.offsets = some offsets)
    (hrun : ((iteration j).guarded (serves served)).run (.new j offsets) as = some s) :
    (iteration j).ReachableBy (Serves served) s := by
  have hinit : ((iteration j).guarded (serves served)).Reachable (.new j offsets) := .init ⟨offsets, hoffsets, rfl⟩
  exact (hinit.run hrun).of_guarded Serves.of_check

def bulkTwo : Job := { scenario := .bulkRead, readBytes := 4, block := 2, operations := 2, depth := 2 }

/-- Two blocks, of which the second ends in a byte of choice. -/
def twoBlocks (b : UInt8) : Served := fun _ offset => (2, if offset = 0 then [1, 2] else [3, b])

/-- Both read at once, the second finished first. -/
def bothAtOnce : List BackendAction :=
  [.opened (.ok ()), .advance, .make (.ok ()), .make (.ok ()), .advance, .finish 1 (.ok (2, [3, 4])), .advance,
    .finish 0 (.ok (2, [1, 2])), .advance, .advance, .advance]

/-- One read after the other. -/
def oneByOne (b : UInt8) : List BackendAction :=
  [.opened (.ok ()), .advance, .make (.ok ()), .advance, .finish 0 (.ok (2, [1, 2])), .advance, .make (.ok ()),
    .advance, .finish 0 (.ok (2, [3, b])), .advance, .advance, .advance]

theorem twoBlocks_apart {offsets : List UInt64} (hoffsets : bulkTwo.offsets = some offsets) :
    (twoBlocks 4).OneByteApart (twoBlocks 5) bulkTwo.scenario offsets := by
  obtain rfl : [0, 2] = offsets := Option.some.inj hoffsets
  exact ⟨[(twoBlocks 4).delivery .read 0], (twoBlocks 4).delivery .read 2, (twoBlocks 5).delivery .read 2, [],
    rfl, rfl, rfl, rfl, rfl, [3], 4, 5, [], by decide, rfl, rfl⟩

theorem backends_agree_bulk : ∃ s s' t : Iteration,
    s.runner.deliveries = [1, 0] ∧ s'.runner.deliveries = [0, 1] ∧
    s'.trace = s.trace ∧ ¬ s.trace.Agrees t.trace := by
  obtain ⟨s, hrun, hpc, hs⟩ : ∃ s,
      ((iteration bulkTwo).guarded (serves (twoBlocks 4))).run (.new bulkTwo [0, 2]) bothAtOnce = some s ∧
      s.pc = .returned (.ok ()) ∧ s.runner.deliveries = [1, 0] := ⟨_, rfl, rfl, rfl⟩
  obtain ⟨s', hrun', hpc', hs'⟩ : ∃ s,
      ((iteration { bulkTwo with depth := 1 }).guarded (serves (twoBlocks 4))).run
        (.new { bulkTwo with depth := 1 } [0, 2]) (oneByOne 4) = some s ∧
      s.pc = .returned (.ok ()) ∧ s.runner.deliveries = [0, 1] := ⟨_, rfl, rfl, rfl⟩
  obtain ⟨t, hrunt, hpct⟩ : ∃ s,
      ((iteration { bulkTwo with depth := 1 }).guarded (serves (twoBlocks 5))).run
        (.new { bulkTwo with depth := 1 } [0, 2]) (oneByOne 5) = some s ∧
      s.pc = .returned (.ok ()) := ⟨_, rfl, rfl⟩
  obtain ⟨hsame, hapart⟩ := backends_agree (reachable_of_serves rfl hrun) hpc
  refine ⟨s, s', t, hs, hs', (hsame 1 s' (reachable_of_serves rfl hrun') hpc').1, ?_⟩
  exact hapart (twoBlocks 5) 1 t (reachable_of_serves rfl hrunt) hpct fun _ => twoBlocks_apart

end WinIoring.Bench
