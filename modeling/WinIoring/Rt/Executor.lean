import WinIoring.Machine.Along
import WinIoring.Machine.Watch

/-!
# The executor

The loop that polls spawned tasks: a queue of tasks to poll, a map of tasks that
wait, and two registries that record wakes by id. The loop is a program counter
here, since wakes come in between any two of its steps and the tasks it polls,
and drops, are code of their own.
-/

namespace WinIoring.Rt

/-- A `u64`. -/
abbrev TaskId := Nat

/-- Type of waker to use for a task. -/
inductive WakerType where
  | singleThreaded
  | threadSafe
  deriving DecidableEq

structure Task where
  id : TaskId
  wakerType : WakerType
  deriving DecidableEq

/-- `WakerRegistry` and `ThreadSafeWakerRegistry`, which differ in their locks
alone. A registered waker says no more than the id it is registered under. -/
structure WakerRegistry where
  wakers : List TaskId
  wokenTasks : List TaskId
  deriving DecidableEq

namespace WakerRegistry

def new : WakerRegistry := { wakers := [], wokenTasks := [] }

def registerWaker (r : WakerRegistry) (id : TaskId) : WakerRegistry :=
  { r with wakers := if id ∈ r.wakers then r.wakers else id :: r.wakers }

def removeWaker (r : WakerRegistry) (id : TaskId) : WakerRegistry :=
  { r with wakers := r.wakers.filter (· ≠ id) }

def wakeTask (r : WakerRegistry) (id : TaskId) : WakerRegistry :=
  if id ∈ r.wakers then { r with wokenTasks := r.wokenTasks ++ [id] } else r

end WakerRegistry

/-- Where the loop is. While it is `idle`, while a task is polled and while a
finished one is dropped, code other than the loop's runs. -/
inductive Pc where
  | idle
  | top
  | popping
  | polling (task : Task)
  | dropping
  | checking
  | wakingThreadSafe
  deriving DecidableEq

/-- The runtime with the spawner it shares with its handles, where its loop is,
and, while a `block_on` runs, the task it awaits and whether the result is
there. -/
structure Runtime where
  readyQueue : List Task
  waitingTasks : List Task
  running : Bool
  wakerRegistry : WakerRegistry
  threadSafeWakerRegistry : WakerRegistry
  nextTaskId : TaskId
  pendingSpawns : List Task
  pc : Pc
  awaited : Option TaskId
  result : Bool
  deriving DecidableEq

namespace Runtime

def new : Runtime where
  readyQueue := []
  waitingTasks := []
  running := false
  wakerRegistry := .new
  threadSafeWakerRegistry := .new
  nextTaskId := 0
  pendingSpawns := []
  pc := .idle
  awaited := none
  result := false

/-- A spawn from the runtime or a handle; the count of ids panics when it
overflows. -/
def spawn (s : Runtime) (wakerType : WakerType) : Option Runtime :=
  if s.nextTaskId + 1 < 2 ^ 64 then
    let task := { id := s.nextTaskId, wakerType }
    some { s with nextTaskId := s.nextTaskId + 1, pendingSpawns := s.pendingSpawns ++ [task] }
  else
    none

/-- A wake through a task's own waker or through a handle: what it does depends
on the registry and the id alone. -/
def wake (s : Runtime) (wakerType : WakerType) (id : TaskId) : Runtime :=
  match wakerType with
  | .singleThreaded => { s with wakerRegistry := s.wakerRegistry.wakeTask id }
  | .threadSafe => { s with threadSafeWakerRegistry := s.threadSafeWakerRegistry.wakeTask id }

/-- `create_task_waker` and `create_thread_safe_waker`. -/
def createWaker (s : Runtime) (task : Task) : Runtime :=
  match task.wakerType with
  | .singleThreaded => { s with wakerRegistry := s.wakerRegistry.registerWaker task.id }
  | .threadSafe =>
    { s with threadSafeWakerRegistry := s.threadSafeWakerRegistry.registerWaker task.id }

def processNewSpawns (s : Runtime) : Runtime :=
  { s with readyQueue := s.readyQueue ++ s.pendingSpawns, pendingSpawns := [] }

/-- The loop of both `process_woken_tasks`: the queue and the map afterwards. -/
def requeue (ready waiting : List Task) : List TaskId → List Task × List Task
  | [] => (ready, waiting)
  | id :: ids =>
    match waiting.find? (·.id = id) with
    | some task => requeue (ready ++ [task]) (waiting.eraseP (·.id = id)) ids
    | none => requeue ready waiting ids

def processWokenTasks (s : Runtime) : Runtime :=
  let woken := s.wakerRegistry.wokenTasks
  let (readyQueue, waitingTasks) := requeue s.readyQueue s.waitingTasks woken
  { s with readyQueue, waitingTasks, wakerRegistry := { s.wakerRegistry with wokenTasks := [] } }

def processThreadSafeWokenTasks (s : Runtime) : Runtime :=
  let woken := s.threadSafeWakerRegistry.wokenTasks
  let (readyQueue, waitingTasks) := requeue s.readyQueue s.waitingTasks woken
  { s with
    readyQueue
    waitingTasks
    threadSafeWakerRegistry := { s.threadSafeWakerRegistry with wokenTasks := [] } }

/-- `block_on` stops on its result, `run` on nothing. -/
def shouldStop (s : Runtime) : Bool := s.awaited.isSome && s.result

def leave (s : Runtime) : Runtime := { s with pc := .idle, running := false }

/-- The number of pending tasks. -/
def pendingTasks (s : Runtime) : Nat :=
  s.readyQueue.length + s.waitingTasks.length + s.pendingSpawns.length

/-- Whether code other than the loop's is running. -/
def userCode (s : Runtime) : Bool :=
  match s.pc with
  | .idle | .polling _ | .dropping => true
  | .top | .popping | .checking | .wakingThreadSafe => false

/-- The loop's own next step. -/
def advance (s : Runtime) : Option Runtime :=
  match s.pc with
  | .idle | .polling _ => none
  | .top =>
    if !s.running || s.shouldStop then
      some s.leave
    else
      let s := s.processNewSpawns
      if s.readyQueue.isEmpty && s.waitingTasks.isEmpty then
        some s.leave
      else
        some { s with pc := .popping }
  | .popping =>
    match s.readyQueue with
    | task :: readyQueue => some { ({ s with readyQueue }).createWaker task with pc := .polling task }
    | [] => some { s with pc := .checking }
  | .dropping => some { s with pc := if s.shouldStop then .checking else .popping }
  | .checking =>
    if s.shouldStop then
      some s.leave
    else
      some { s.processWokenTasks with pc := .wakingThreadSafe }
  | .wakingThreadSafe => some { s.processThreadSafeWokenTasks with pc := .top }

/-- The polled task finishes: its wakers go, and with it, once the queue has
taken the new spawns, the task. -/
def pollReady (s : Runtime) : Option Runtime :=
  match s.pc with
  | .polling task =>
    let s := { s with
      wakerRegistry := s.wakerRegistry.removeWaker task.id
      threadSafeWakerRegistry := s.threadSafeWakerRegistry.removeWaker task.id
      result := s.result || s.awaited = some task.id }
    some { s.processNewSpawns with pc := .dropping }
  | _ => none

/-- The polled task is not ready: it is put with those that wait. -/
def pollPending (s : Runtime) : Option Runtime :=
  match s.pc with
  | .polling task =>
    let s := { s with waitingTasks := task :: s.waitingTasks.eraseP (·.id = task.id) }
    some { s.processNewSpawns with pc := if s.shouldStop then .checking else .popping }
  | _ => none

end Runtime

/-- What happens to a runtime: calls from outside or from the tasks themselves,
wakes, the loop's own steps, and what a polled future answers. -/
inductive Happening where
  | spawn (wakerType : WakerType)
  | wake (wakerType : WakerType) (id : TaskId)
  | run
  | blockOn
  | stop
  | advance
  | pollReady
  | pollPending
  deriving DecidableEq

def Runtime.step (s : Runtime) : Happening → Option Runtime
  | .spawn wakerType => if s.userCode then s.spawn wakerType else none
  | .wake wakerType id => some (s.wake wakerType id)
  | .run =>
    if s.pc = .idle then
      some { s with pc := .top, running := true, awaited := none, result := false }
    else
      none
  | .blockOn =>
    if s.pc = .idle then
      (s.spawn .singleThreaded).map fun s' =>
        { s' with pc := .top, running := true, awaited := some s.nextTaskId, result := false }
    else
      none
  | .stop => if s.pc = .idle then some { s with running := false } else none
  | .advance => s.advance
  | .pollReady => s.pollReady
  | .pollPending => s.pollPending

/-- Every run of a new runtime. -/
def executorMachine : Machine Runtime Happening where
  init s := s = .new
  step := Runtime.step

-- ---------------------------------------------------------------------------
-- What one step does
-- ---------------------------------------------------------------------------

namespace Runtime

/-- The steps of the runtime, each with the part of the state that decides it. -/
inductive Move : Runtime → Happening → Runtime → Prop
  | spawn (ty : WakerType) (huser : s.userCode) (hs : s.spawn ty = some s') : Move s (.spawn ty) s'
  | wake (ty : WakerType) (id : TaskId) : Move s (.wake ty id) (s.wake ty id)
  | run (hpc : s.pc = .idle) :
    Move s .run { s with pc := .top, running := true, awaited := none, result := false }
  | blockOn (hpc : s.pc = .idle) (hs : s.spawn .singleThreaded = some s') :
    Move s .blockOn
      { s' with pc := .top, running := true, awaited := some s.nextTaskId, result := false }
  | stop (hpc : s.pc = .idle) : Move s .stop { s with running := false }
  | leave (hpc : s.pc = .top ∨ s.pc = .checking) : Move s .advance s.leave
  | leaveEmpty (hpc : s.pc = .top) : Move s .advance s.processNewSpawns.leave
  | enter (hpc : s.pc = .top) : Move s .advance { s.processNewSpawns with pc := .popping }
  | pop (task : Task) (ready : List Task) (hpc : s.pc = .popping)
    (hready : s.readyQueue = task :: ready) :
    Move s .advance { ({ s with readyQueue := ready }).createWaker task with pc := .polling task }
  | passed (hpc : s.pc = .popping) (hready : s.readyQueue = []) :
    Move s .advance { s with pc := .checking }
  | dropped (next : Pc) (hpc : s.pc = .dropping)
    (hnext : next = .checking ∧ s.shouldStop ∨ next = .popping) :
    Move s .advance { s with pc := next }
  | woken (hpc : s.pc = .checking) (hstop : ¬ s.shouldStop) :
    Move s .advance { s.processWokenTasks with pc := .wakingThreadSafe }
  | wokenThreadSafe (hpc : s.pc = .wakingThreadSafe) :
    Move s .advance { s.processThreadSafeWokenTasks with pc := .top }
  | ready (task : Task) (hpc : s.pc = .polling task) :
    Move s .pollReady { ({ s with
      wakerRegistry := s.wakerRegistry.removeWaker task.id
      threadSafeWakerRegistry := s.threadSafeWakerRegistry.removeWaker task.id
      result := s.result || s.awaited = some task.id }).processNewSpawns with pc := .dropping }
  | pending (task : Task) (next : Pc) (hpc : s.pc = .polling task)
    (hnext : next = .checking ∧ s.shouldStop ∨ next = .popping) :
    Move s .pollPending { ({ s with
      waitingTasks := task :: s.waitingTasks.eraseP (·.id = task.id) }).processNewSpawns with
        pc := next }

variable {s s' : Runtime} {t : Task} {a : Happening}

theorem advance_move (h : s.advance = some s') : Move s .advance s' := by
  unfold advance at h
  split at h
  · cases h
  · cases h
  · rename_i hpc
    split at h
    · cases h
      exact .leave (.inl hpc)
    · dsimp only at h
      split at h
      · cases h
        exact .leaveEmpty hpc
      · cases h
        exact .enter hpc
  · rename_i hpc
    split at h
    · rename_i task ready hready
      cases h
      exact .pop task ready hpc hready
    · rename_i hready
      cases h
      exact .passed hpc hready
  · rename_i hpc
    cases h
    exact .dropped _ hpc (by split <;> simp [*])
  · rename_i hpc
    split at h
    · cases h
      exact .leave (.inr hpc)
    · cases h
      exact .woken hpc ‹_›
  · rename_i hpc
    cases h
    exact .wokenThreadSafe hpc

theorem step_move (h : s.step a = some s') : Move s a s' := by
  cases a with
  | spawn ty =>
    simp only [step] at h
    split at h
    · exact .spawn ty ‹_› h
    · cases h
  | wake ty id =>
    cases h
    exact .wake ty id
  | run =>
    simp only [step] at h
    split at h
    · cases h
      exact .run ‹_›
    · cases h
  | blockOn =>
    simp only [step] at h
    split at h
    · obtain ⟨s', hs, rfl⟩ := Option.map_eq_some_iff.mp h
      exact .blockOn ‹_› hs
    · cases h
  | stop =>
    simp only [step] at h
    split at h
    · cases h
      exact .stop ‹_›
    · cases h
  | advance => exact advance_move h
  | pollReady =>
    simp only [step, pollReady] at h
    split at h
    · rename_i hpc
      cases h
      exact .ready _ hpc
    · cases h
  | pollPending =>
    simp only [step, pollPending] at h
    split at h
    · rename_i hpc
      cases h
      refine .pending _ _ hpc ?_
      split
      · exact .inl ⟨rfl, ‹_›⟩
      · exact .inr rfl
    · cases h

theorem spawn_eq (h : s.spawn ty = some s') :
    s.nextTaskId + 1 < 2 ^ 64 ∧ s' = { s with
      nextTaskId := s.nextTaskId + 1
      pendingSpawns := s.pendingSpawns ++ [⟨s.nextTaskId, ty⟩] } := by
  unfold spawn at h
  split at h
  · exact ⟨‹_›, (Option.some.inj h).symm⟩
  · cases h

-- ---------------------------------------------------------------------------
-- The queues
-- ---------------------------------------------------------------------------

theorem perm_cons_eraseP {p : Task → Bool} {l : List Task} (h : l.find? p = some t) :
    l.Perm (t :: l.eraseP p) := by
  induction l with
  | nil => cases h
  | cons x l ih =>
    by_cases hx : p x
    · rw [List.find?_cons_of_pos hx] at h
      obtain rfl := Option.some.inj h
      rw [List.eraseP_cons_of_pos hx]
    · rw [List.find?_cons_of_neg hx] at h
      rw [List.eraseP_cons_of_neg hx]
      exact ((ih h).cons x).trans (.swap t x _)

/-- Requeueing moves tasks and loses none. -/
theorem requeue_perm (ready waiting : List Task) (woken : List TaskId) :
    ((requeue ready waiting woken).1 ++ (requeue ready waiting woken).2).Perm (ready ++ waiting) := by
  induction woken generalizing ready waiting with
  | nil => exact .refl _
  | cons id ids ih =>
    simp only [requeue]
    split
    · rename_i task hfind
      refine (ih _ _).trans ?_
      rw [List.append_assoc, List.singleton_append]
      exact (perm_cons_eraseP hfind).symm.append_left ready
    · exact ih _ _

/-- What is queued stays queued. -/
theorem mem_requeue (woken : List TaskId) {ready waiting : List Task} (h : t ∈ ready) :
    t ∈ (requeue ready waiting woken).1 := by
  induction woken generalizing ready waiting with
  | nil => exact h
  | cons id ids ih =>
    simp only [requeue]
    split
    · exact ih (List.mem_append_left _ h)
    · exact ih h

theorem requeue_subset (ready waiting : List Task) (woken : List TaskId) :
    (requeue ready waiting woken).2 ⊆ waiting := by
  induction woken generalizing ready waiting with
  | nil => exact List.Subset.refl _
  | cons id ids ih =>
    simp only [requeue]
    split
    · exact fun u hu => List.mem_of_mem_eraseP (ih _ _ hu)
    · exact ih _ _

/-- A task that waits and was woken is queued. -/
theorem requeue_woken {woken : List TaskId} {ready waiting : List Task}
    (hnodup : (waiting.map Task.id).Nodup) (h : t ∈ waiting) (hwoken : t.id ∈ woken) :
    t ∈ (requeue ready waiting woken).1 := by
  induction woken generalizing ready waiting with
  | nil => cases hwoken
  | cons id ids ih =>
    have hinj : ∀ u ∈ waiting, u.id = t.id → u = t := fun u hu heq =>
      List.inj_on_of_nodup_map hnodup hu h heq
    simp only [requeue]
    split
    · rename_i task hfind
      have hid : task.id = id := by simpa using List.find?_some hfind
      by_cases htask : task = t
      · exact mem_requeue _ (by simp [htask])
      · have hne : t.id ≠ id := by
          intro heq
          exact htask (hinj task (List.mem_of_find?_eq_some hfind) (hid.trans heq.symm))
        refine ih ?_ ((List.mem_eraseP_of_neg (by simpa using hne)).mpr h) ?_
        · exact (List.eraseP_sublist.map _).nodup hnodup
        · exact (List.mem_cons.mp hwoken).resolve_left hne
    · rename_i hnone
      refine ih hnodup h ((List.mem_cons.mp hwoken).resolve_left ?_)
      rintro rfl
      simpa using List.find?_eq_none.mp hnone t h

end Runtime

-- ---------------------------------------------------------------------------
-- Where the tasks are
-- ---------------------------------------------------------------------------

/-- The ids handed out and the tasks that have finished, newest first. -/
structure Ledger where
  spawned : List TaskId
  finished : List TaskId

/-- What a step adds. -/
def Ledger.observe (s : Runtime) (a : Happening) (_ : Runtime) (l : Ledger) : Ledger :=
  match a, s.pc with
  | .spawn _, _ | .blockOn, _ => { l with spawned := s.nextTaskId :: l.spawned }
  | .pollReady, .polling task => { l with finished := task.id :: l.finished }
  | _, _ => l

/-- Every run of a new runtime, with its ledger. -/
def ledgerMachine : Machine (Runtime × Ledger) Happening :=
  executorMachine.watch { spawned := [], finished := [] } Ledger.observe

namespace Runtime

variable {s s' : Runtime} {t : Task} {a : Happening} {l : Ledger}

def polling (s : Runtime) : List Task :=
  match s.pc with
  | .polling task => [task]
  | _ => []

/-- The unfinished tasks by where they are: spawned and not yet queued, queued,
waiting, being polled. -/
def tasks (s : Runtime) : List Task :=
  s.pendingSpawns ++ s.readyQueue ++ s.waitingTasks ++ s.polling

def registry (s : Runtime) : WakerType → WakerRegistry
  | .singleThreaded => s.wakerRegistry
  | .threadSafe => s.threadSafeWakerRegistry

/-- The ids handed out are those below the next, and each is a finished task's or
that of one task in one place. -/
structure Accounted (s : Runtime) (l : Ledger) : Prop where
  spawned : l.spawned = (List.range s.nextTaskId).reverse
  perm : (s.tasks.map Task.id ++ l.finished).Perm l.spawned

/-- Every task that was polled and has not finished or been queued again can be
woken. -/
def Registered (s : Runtime) : Prop :=
  ∀ t, t ∈ s.waitingTasks ∨ s.pc = .polling t → t.id ∈ (s.registry t.wakerType).wakers

theorem mem_tasks : t ∈ s.tasks ↔
    t ∈ s.pendingSpawns ∨ t ∈ s.readyQueue ∨ t ∈ s.waitingTasks ∨ s.pc = .polling t := by
  have hpolling : t ∈ s.polling ↔ s.pc = .polling t := by
    unfold polling
    split
    · rename_i task hpc
      simp [hpc, eq_comm]
    · rename_i hpc
      exact iff_of_false List.not_mem_nil (hpc t)
  simp [tasks, hpolling]

theorem Accounted.nodup (h : s.Accounted l) : (s.tasks.map Task.id ++ l.finished).Nodup := by
  rw [h.perm.nodup_iff, h.spawned, List.nodup_reverse]
  exact List.nodup_range

theorem Accounted.tasks_nodup (h : s.Accounted l) : (s.tasks.map Task.id).Nodup :=
  (List.nodup_append.mp h.nodup).1

theorem waiting_nodup (h : (s.tasks.map Task.id).Nodup) : (s.waitingTasks.map Task.id).Nodup := by
  simp only [tasks, List.map_append] at h
  exact (List.nodup_append.mp (List.nodup_append.mp h).1).2.1

/-- The task being polled is not among those that wait. -/
theorem ne_polled (h : (s.tasks.map Task.id).Nodup) (hpc : s.pc = .polling t) :
    ∀ u ∈ s.waitingTasks, u.id ≠ t.id := by
  intro u hu heq
  simp only [tasks, List.map_append, polling, hpc] at h
  refine (List.nodup_append.mp h).2.2 u.id ?_ t.id (by simp) heq
  simp only [List.mem_append, List.mem_map]
  exact .inr ⟨u, hu, rfl⟩

-- What the parts of a step leave alone.

@[simp] theorem createWaker_tasks (s : Runtime) (task : Task) :
    (s.createWaker task).readyQueue = s.readyQueue ∧
    (s.createWaker task).waitingTasks = s.waitingTasks ∧
    (s.createWaker task).pendingSpawns = s.pendingSpawns ∧
    (s.createWaker task).nextTaskId = s.nextTaskId := by
  unfold createWaker
  split <;> exact ⟨rfl, rfl, rfl, rfl⟩

@[simp] theorem wake_tasks (s : Runtime) (ty : WakerType) (id : TaskId) :
    (s.wake ty id).readyQueue = s.readyQueue ∧
    (s.wake ty id).waitingTasks = s.waitingTasks ∧
    (s.wake ty id).pendingSpawns = s.pendingSpawns ∧
    (s.wake ty id).nextTaskId = s.nextTaskId ∧ (s.wake ty id).pc = s.pc := by
  unfold wake
  split <;> exact ⟨rfl, rfl, rfl, rfl, rfl⟩

@[simp] theorem shouldStop_wake (s : Runtime) (ty : WakerType) (id : TaskId) :
    (s.wake ty id).shouldStop = s.shouldStop := by
  unfold wake
  split <;> rfl

theorem perm_processWokenTasks (s : Runtime) :
    (s.processWokenTasks.readyQueue ++ s.processWokenTasks.waitingTasks).Perm
      (s.readyQueue ++ s.waitingTasks) := requeue_perm ..

theorem perm_processThreadSafeWokenTasks (s : Runtime) :
    (s.processThreadSafeWokenTasks.readyQueue ++ s.processThreadSafeWokenTasks.waitingTasks).Perm
      (s.readyQueue ++ s.waitingTasks) := requeue_perm ..

/-- What a step does to the unfinished tasks: it adds one under the next id, lets
the polled one finish, or keeps them all. -/
inductive Flow (s : Runtime) (a : Happening) (s' : Runtime) : Prop
  | added (ha : (∃ ty, a = .spawn ty) ∨ a = .blockOn) (ty : WakerType)
    (hnext : s'.nextTaskId = s.nextTaskId + 1) (hlt : s.nextTaskId + 1 < 2 ^ 64)
    (hperm : s'.tasks.Perm (⟨s.nextTaskId, ty⟩ :: s.tasks))
  | finished (ha : a = .pollReady) (task : Task) (hpc : s.pc = .polling task)
    (hnext : s'.nextTaskId = s.nextTaskId) (hperm : s.tasks.Perm (task :: s'.tasks))
  | kept (ha : (∀ ty, a ≠ .spawn ty) ∧ a ≠ .blockOn ∧ a ≠ .pollReady)
    (hnext : s'.nextTaskId = s.nextTaskId) (hperm : s'.tasks.Perm s.tasks)

theorem Move.flow (h : Move s a s') (hnodup : (s.tasks.map Task.id).Nodup) : Flow s a s' := by
  cases h with
  | spawn ty huser hs =>
    obtain ⟨hlt, rfl⟩ := spawn_eq hs
    refine .added (.inl ⟨ty, rfl⟩) ty rfl hlt (List.perm_iff_count.mpr fun x => ?_)
    simp only [tasks, polling, List.count_append, List.count_cons, List.count_nil]
    omega
  | blockOn hpc hs =>
    obtain ⟨hlt, rfl⟩ := spawn_eq hs
    refine .added (.inr rfl) .singleThreaded rfl hlt (List.perm_iff_count.mpr fun x => ?_)
    simp only [tasks, polling, hpc, List.count_append, List.count_cons, List.count_nil]
    omega
  | wake ty id =>
    exact .kept (by simp) (wake_tasks ..).2.2.2.1 (by simp only [tasks, polling, wake_tasks]; rfl)
  | run hpc => exact .kept (by simp) rfl (by simp only [tasks, polling, hpc]; rfl)
  | stop hpc => exact .kept (by simp) rfl (by simp only [tasks, polling]; rfl)
  | leave hpc =>
    refine .kept (by simp) rfl ?_
    rcases hpc with hpc | hpc <;> simp only [tasks, polling, hpc, Runtime.leave] <;> rfl
  | leaveEmpty hpc =>
    refine .kept (by simp) rfl (List.perm_iff_count.mpr fun x => ?_)
    simp only [tasks, polling, hpc, Runtime.leave, processNewSpawns, List.count_append, List.count_nil]
    omega
  | enter hpc =>
    refine .kept (by simp) rfl (List.perm_iff_count.mpr fun x => ?_)
    simp only [tasks, polling, hpc, processNewSpawns, List.count_append, List.count_nil]
    omega
  | pop task ready hpc hready =>
    refine .kept (by simp) (createWaker_tasks ..).2.2.2 (List.perm_iff_count.mpr fun x => ?_)
    simp only [tasks, polling, hpc, hready, createWaker_tasks, List.count_append, List.count_cons,
      List.count_nil]
    omega
  | passed hpc hready => exact .kept (by simp) rfl (by simp only [tasks, polling, hpc]; rfl)
  | dropped next hpc hnext =>
    refine .kept (by simp) rfl ?_
    rcases hnext with ⟨rfl, -⟩ | rfl <;> simp only [tasks, polling, hpc] <;> rfl
  | woken hpc hstop =>
    refine .kept (by simp) rfl (List.perm_iff_count.mpr fun x => ?_)
    have hcount := List.perm_iff_count.mp s.perm_processWokenTasks x
    simp only [tasks, polling, hpc, List.count_append, List.count_nil] at hcount ⊢
    have hpending : s.processWokenTasks.pendingSpawns = s.pendingSpawns := rfl
    rw [hpending]
    omega
  | wokenThreadSafe hpc =>
    refine .kept (by simp) rfl (List.perm_iff_count.mpr fun x => ?_)
    have hcount := List.perm_iff_count.mp s.perm_processThreadSafeWokenTasks x
    simp only [tasks, polling, hpc, List.count_append, List.count_nil] at hcount ⊢
    have hpending : s.processThreadSafeWokenTasks.pendingSpawns = s.pendingSpawns := rfl
    rw [hpending]
    omega
  | ready task hpc =>
    refine .finished rfl task hpc rfl (List.perm_iff_count.mpr fun x => ?_)
    simp only [tasks, polling, hpc, processNewSpawns, List.count_append, List.count_cons,
      List.count_nil]
    omega
  | pending task next hpc hnext =>
    refine .kept (by simp) rfl (List.perm_iff_count.mpr fun x => ?_)
    have herase : s.waitingTasks.eraseP (·.id = task.id) = s.waitingTasks :=
      List.eraseP_of_forall_not fun u hu => by simpa using ne_polled hnodup hpc u hu
    rcases hnext with ⟨rfl, -⟩ | rfl
    all_goals
      simp only [tasks, polling, hpc, processNewSpawns, herase, List.count_append, List.count_cons,
        List.count_nil]
      omega

theorem Accounted.move (h : s.Accounted l) (hm : Move s a s') :
    s'.Accounted (Ledger.observe s a s' l) := by
  cases hm.flow h.tasks_nodup with
  | added ha ty hnext _ hperm =>
    have hobserve : Ledger.observe s a s' l = { l with spawned := s.nextTaskId :: l.spawned } := by
      rcases ha with ⟨_, rfl⟩ | rfl <;> rfl
    rw [hobserve]
    refine ⟨?_, ?_⟩
    · rw [hnext, List.range_succ, List.reverse_append, h.spawned]
      rfl
    · exact ((hperm.map Task.id).append_right _).trans (h.perm.cons _)
  | finished ha task hpc hnext hperm =>
    have hobserve : Ledger.observe s a s' l = { l with finished := task.id :: l.finished } := by
      simp only [ha, Ledger.observe, hpc]
    rw [hobserve]
    refine ⟨by rw [hnext, h.spawned], ?_⟩
    have hmoved := (hperm.map Task.id).append_right l.finished
    exact (List.perm_middle.trans hmoved.symm).trans h.perm
  | kept ha hnext hperm =>
    have hobserve : Ledger.observe s a s' l = l := by
      obtain ⟨hspawn, hblock, hready⟩ := ha
      cases a <;> simp_all [Ledger.observe]
    rw [hobserve]
    exact ⟨by rw [hnext, h.spawned], ((hperm.map Task.id).append_right _).trans h.perm⟩

end Runtime

-- ---------------------------------------------------------------------------
-- Wakes
-- ---------------------------------------------------------------------------

namespace WakerRegistry

@[simp] theorem wokenTasks_registerWaker (r : WakerRegistry) (id : TaskId) :
    (r.registerWaker id).wokenTasks = r.wokenTasks := rfl

@[simp] theorem wokenTasks_removeWaker (r : WakerRegistry) (id : TaskId) :
    (r.removeWaker id).wokenTasks = r.wokenTasks := rfl

theorem mem_registerWaker (r : WakerRegistry) (id i : TaskId) :
    i ∈ (r.registerWaker id).wakers ↔ i = id ∨ i ∈ r.wakers := by
  unfold registerWaker
  split
  · rename_i hid
    exact ⟨.inr, fun h => h.elim (fun heq => heq ▸ hid) fun hi => hi⟩
  · exact List.mem_cons

theorem mem_removeWaker (r : WakerRegistry) (id i : TaskId) :
    i ∈ (r.removeWaker id).wakers ↔ i ∈ r.wakers ∧ i ≠ id := by
  simp [removeWaker]

@[simp] theorem wakers_wakeTask (r : WakerRegistry) (id : TaskId) :
    (r.wakeTask id).wakers = r.wakers := by
  unfold wakeTask
  split <;> rfl

theorem subset_wakeTask (r : WakerRegistry) (id : TaskId) :
    r.wokenTasks ⊆ (r.wakeTask id).wokenTasks := by
  unfold wakeTask
  split
  · exact List.subset_append_left _ _
  · exact List.Subset.refl _

theorem mem_wakeTask {r : WakerRegistry} {id : TaskId} (h : id ∈ r.wakers) :
    id ∈ (r.wakeTask id).wokenTasks := by
  simp [wakeTask, h]

end WakerRegistry

namespace Runtime

variable {s s' : Runtime} {t : Task} {a : Happening} {l : Ledger}

@[simp] theorem registry_wake (s : Runtime) (ty ty' : WakerType) (id : TaskId) :
    (s.wake ty id).registry ty' =
      if ty' = ty then (s.registry ty').wakeTask id else s.registry ty' := by
  cases ty <;> cases ty' <;> rfl

@[simp] theorem registry_createWaker (s : Runtime) (task : Task) (ty : WakerType) :
    (s.createWaker task).registry ty =
      if ty = task.wakerType then (s.registry ty).registerWaker task.id else s.registry ty := by
  obtain ⟨id, ty'⟩ := task
  cases ty <;> cases ty' <;> rfl

/-- A step keeps every task that waits or is polled known to its registry. -/
theorem Registered.move (h : s.Registered) (hnodup : (s.tasks.map Task.id).Nodup) (hm : Move s a s') :
    s'.Registered := by
  intro u hu
  cases hm with
  | spawn ty huser hs =>
    obtain ⟨-, rfl⟩ := spawn_eq hs
    exact h u hu
  | blockOn hpc hs =>
    obtain ⟨-, rfl⟩ := spawn_eq hs
    exact h u (hu.imp_right nofun)
  | wake ty id =>
    have hwakers : ((s.wake ty id).registry u.wakerType).wakers = (s.registry u.wakerType).wakers := by
      rw [registry_wake]
      split
      · exact WakerRegistry.wakers_wakeTask ..
      · rfl
    rw [hwakers]
    simp only [wake_tasks] at hu
    exact h u hu
  | run hpc => exact h u (hu.imp_right nofun)
  | stop hpc => exact h u hu
  | leave hpc => exact h u (hu.imp_right nofun)
  | leaveEmpty hpc => exact h u (hu.imp_right nofun)
  | enter hpc => exact h u (hu.imp_right nofun)
  | passed hpc hready => exact h u (hu.imp_right nofun)
  | dropped next hpc hnext =>
    refine h u (hu.imp_right fun heq => ?_)
    rcases hnext with ⟨rfl, -⟩ | rfl <;> cases heq
  | woken hpc hstop =>
    have hwaiting : u ∈ s.waitingTasks := hu.elim (fun hu => requeue_subset _ _ _ hu) nofun
    have := h u (.inl hwaiting)
    cases hty : u.wakerType <;> rw [hty] at this <;> exact this
  | wokenThreadSafe hpc =>
    have hwaiting : u ∈ s.waitingTasks := hu.elim (fun hu => requeue_subset _ _ _ hu) nofun
    have := h u (.inl hwaiting)
    cases hty : u.wakerType <;> rw [hty] at this <;> exact this
  | pop task ready hpc hready =>
    change u.id ∈ ((({ s with readyQueue := ready }).createWaker task).registry u.wakerType).wakers
    rw [registry_createWaker]
    simp only [createWaker_tasks, Pc.polling.injEq] at hu
    have hold : u ∈ s.waitingTasks → u.id ∈ (s.registry u.wakerType).wakers := fun hu => h u (.inl hu)
    split
    · rw [WakerRegistry.mem_registerWaker]
      exact hu.elim (fun hu => .inr (hold hu)) fun heq => .inl (heq ▸ rfl)
    · rename_i hty
      refine hu.elim (fun hu => hold hu) fun heq => absurd (heq ▸ rfl) hty
  | ready task hpc =>
    have hwaiting : u ∈ s.waitingTasks := hu.elim (fun hu => hu) nofun
    have hne := ne_polled hnodup hpc u hwaiting
    have hold := h u (.inl hwaiting)
    cases hty : u.wakerType <;> rw [hty] at hold <;>
      exact (WakerRegistry.mem_removeWaker ..).mpr ⟨hold, hne⟩
  | pending task next hpc hnext =>
    have hold : u ∈ s.waitingTasks ∨ s.pc = .polling u := by
      rcases hu with hu | hu
      · rcases List.mem_cons.mp hu with rfl | hu
        · exact .inr hpc
        · exact .inl (List.mem_of_mem_eraseP hu)
      · rcases hnext with ⟨rfl, -⟩ | rfl <;> cases hu
    exact h u hold

/-- A poll of the task is still to come: it is queued or about to be, or it was
woken since its last poll began. -/
def Owed (s : Runtime) (t : Task) : Prop :=
  t ∈ s.pendingSpawns ∨ t ∈ s.readyQueue ∨
    (t ∈ s.waitingTasks ∨ s.pc = .polling t) ∧ t.id ∈ (s.registry t.wakerType).wokenTasks

/-- The step begins a poll of the task. -/
def BeginsPoll (s : Runtime) (t : Task) (a : Happening) : Prop :=
  a = .advance ∧ s.pc = .popping ∧ s.readyQueue.head? = some t

/-- The step ends the task's poll with the task finished. -/
def Finishes (s : Runtime) (t : Task) (a : Happening) : Prop :=
  a = .pollReady ∧ s.pc = .polling t

/-- A wake of an unfinished task, by its own kind of waker, is not lost. -/
theorem owed_of_wake (h : s.Registered) (ht : t ∈ s.tasks) : (s.wake t.wakerType t.id).Owed t := by
  simp only [Owed, wake_tasks, registry_wake, if_true]
  have hwoken : t ∈ s.waitingTasks ∨ s.pc = .polling t →
      t.id ∈ ((s.registry t.wakerType).wakeTask t.id).wokenTasks :=
    fun hu => WakerRegistry.mem_wakeTask (h t hu)
  rcases mem_tasks.mp ht with ht | ht | ht
  · exact .inl ht
  · exact .inr (.inl ht)
  · exact .inr (.inr ⟨ht, hwoken ht⟩)

/-- The woken tasks of one registry are queued, those of the other stay woken. -/
theorem owed_processWokenTasks (hnodup : (s.tasks.map Task.id).Nodup) (h : s.Owed t)
    (hpc : s.pc = .checking) :
    t ∈ s.pendingSpawns ∨ t ∈ s.processWokenTasks.readyQueue ∨
      t ∈ s.processWokenTasks.waitingTasks ∧ t.wakerType = .threadSafe ∧
        t.id ∈ s.threadSafeWakerRegistry.wokenTasks := by
  rcases h with h | h | ⟨h | h, hwoken⟩
  · exact .inl h
  · exact .inr (.inl (mem_requeue _ h))
  · cases hty : t.wakerType with
    | singleThreaded =>
      rw [hty] at hwoken
      exact .inr (.inl (requeue_woken (waiting_nodup hnodup) h hwoken))
    | threadSafe =>
      rw [hty] at hwoken
      have hmem := (requeue_perm s.readyQueue s.waitingTasks s.wakerRegistry.wokenTasks).mem_iff.mpr
        (List.mem_append_right _ h)
      exact (List.mem_append.mp hmem).elim (fun hmem => .inr (.inl hmem))
        fun hmem => .inr (.inr ⟨hmem, rfl, hwoken⟩)
  · rw [hpc] at h
    cases h

theorem owed_processThreadSafeWokenTasks (hnodup : (s.tasks.map Task.id).Nodup) (h : s.Owed t)
    (hpc : s.pc = .wakingThreadSafe) :
    t ∈ s.pendingSpawns ∨ t ∈ s.processThreadSafeWokenTasks.readyQueue ∨
      t ∈ s.processThreadSafeWokenTasks.waitingTasks ∧ t.wakerType = .singleThreaded ∧
        t.id ∈ s.wakerRegistry.wokenTasks := by
  rcases h with h | h | ⟨h | h, hwoken⟩
  · exact .inl h
  · exact .inr (.inl (mem_requeue _ h))
  · cases hty : t.wakerType with
    | threadSafe =>
      rw [hty] at hwoken
      exact .inr (.inl (requeue_woken (waiting_nodup hnodup) h hwoken))
    | singleThreaded =>
      rw [hty] at hwoken
      have hmem := (requeue_perm s.readyQueue s.waitingTasks
        s.threadSafeWakerRegistry.wokenTasks).mem_iff.mpr (List.mem_append_right _ h)
      exact (List.mem_append.mp hmem).elim (fun hmem => .inr (.inl hmem))
        fun hmem => .inr (.inr ⟨hmem, rfl, hwoken⟩)
  · rw [hpc] at h
    cases h

end Runtime

-- ---------------------------------------------------------------------------
-- Every owed poll comes
-- ---------------------------------------------------------------------------

namespace Happening

/-- A step of the loop or of the task it polls. -/
def loopStep : Happening → Nat
  | .advance | .pollReady | .pollPending => 1
  | _ => 0

def spawned : Happening → Nat
  | .spawn _ | .blockOn => 1
  | _ => 0

end Happening

namespace Runtime

variable {s s' : Runtime} {t : Task} {a : Happening} {l : Ledger}

/-- An owed poll stays owed until it begins, or the poll under way finishes the
task. -/
theorem Owed.move (h : s.Owed t) (hnodup : (s.tasks.map Task.id).Nodup) (hm : Move s a s')
    (hbegins : ¬ s.BeginsPoll t a) (hfinishes : ¬ s.Finishes t a) : s'.Owed t := by
  have hidle : (∀ u, s.pc ≠ .polling u) → t ∈ s.pendingSpawns ∨ t ∈ s.readyQueue ∨
      t ∈ s.waitingTasks ∧ t.id ∈ (s.registry t.wakerType).wokenTasks := by
    intro hpc
    exact h.imp_right (.imp_right fun hw => ⟨hw.1.resolve_right (hpc t), hw.2⟩)
  cases hm with
  | spawn ty huser hs =>
    obtain ⟨-, rfl⟩ := spawn_eq hs
    exact h.imp_left fun hp => List.mem_append_left _ hp
  | blockOn hpc hs =>
    obtain ⟨-, rfl⟩ := spawn_eq hs
    exact (hidle (by simp [hpc])).imp (fun hp => List.mem_append_left _ hp)
      (.imp_right fun hw => ⟨.inl hw.1, hw.2⟩)
  | wake ty id =>
    have hsub : (s.registry t.wakerType).wokenTasks ⊆
        ((s.wake ty id).registry t.wakerType).wokenTasks := by
      rw [registry_wake]
      split
      · exact WakerRegistry.subset_wakeTask ..
      · exact List.Subset.refl _
    simp only [Owed, wake_tasks]
    exact h.imp_right (.imp_right fun hw => ⟨hw.1, hsub hw.2⟩)
  | run hpc => exact (hidle (by simp [hpc])).imp_right (.imp_right fun hw => ⟨.inl hw.1, hw.2⟩)
  | stop hpc => exact h
  | leave hpc =>
    exact (hidle (by rcases hpc with hpc | hpc <;> simp [hpc])).imp_right
      (.imp_right fun hw => ⟨.inl hw.1, hw.2⟩)
  | leaveEmpty hpc =>
    rcases hidle (by simp [hpc]) with hp | hr | hw
    · exact .inr (.inl (List.mem_append_right _ hp))
    · exact .inr (.inl (List.mem_append_left _ hr))
    · exact .inr (.inr ⟨.inl hw.1, hw.2⟩)
  | enter hpc =>
    rcases hidle (by simp [hpc]) with hp | hr | hw
    · exact .inr (.inl (List.mem_append_right _ hp))
    · exact .inr (.inl (List.mem_append_left _ hr))
    · exact .inr (.inr ⟨.inl hw.1, hw.2⟩)
  | pop task ready hpc hready =>
    have hne : t ≠ task := by
      rintro rfl
      exact hbegins ⟨rfl, hpc, by rw [hready]; rfl⟩
    simp only [Owed, createWaker_tasks]
    rcases hidle (by simp [hpc]) with hp | hr | hw
    · exact .inl hp
    · rw [hready] at hr
      exact .inr (.inl ((List.mem_cons.mp hr).resolve_left hne))
    · refine .inr (.inr ⟨.inl hw.1, ?_⟩)
      change t.id ∈ ((({ s with readyQueue := ready }).createWaker task).registry
        t.wakerType).wokenTasks
      rw [registry_createWaker]
      split <;> exact hw.2
  | passed hpc hready =>
    exact (hidle (by simp [hpc])).imp_right (.imp_right fun hw => ⟨.inl hw.1, hw.2⟩)
  | dropped next hpc hnext =>
    exact (hidle (by simp [hpc])).imp_right (.imp_right fun hw => ⟨.inl hw.1, hw.2⟩)
  | woken hpc hstop =>
    rcases owed_processWokenTasks hnodup h hpc with hp | hr | ⟨hw, hty, hwoken⟩
    · exact .inl hp
    · exact .inr (.inl hr)
    · exact .inr (.inr ⟨.inl hw, by rw [hty]; exact hwoken⟩)
  | wokenThreadSafe hpc =>
    rcases owed_processThreadSafeWokenTasks hnodup h hpc with hp | hr | ⟨hw, hty, hwoken⟩
    · exact .inl hp
    · exact .inr (.inl hr)
    · exact .inr (.inr ⟨.inl hw, by rw [hty]; exact hwoken⟩)
  | ready task hpc =>
    have hne : s.pc ≠ .polling t := fun heq => hfinishes ⟨rfl, heq⟩
    rcases h with hp | hr | ⟨hw, hwoken⟩
    · exact .inr (.inl (List.mem_append_right _ hp))
    · exact .inr (.inl (List.mem_append_left _ hr))
    · refine .inr (.inr ⟨.inl (hw.resolve_right hne), ?_⟩)
      cases hty : t.wakerType <;> rw [hty] at hwoken <;> exact hwoken
  | pending task next hpc hnext =>
    rcases h with hp | hr | ⟨hw, hwoken⟩
    · exact .inr (.inl (List.mem_append_right _ hp))
    · exact .inr (.inl (List.mem_append_left _ hr))
    · refine .inr (.inr ⟨.inl ?_, hwoken⟩)
      rcases hw with hw | hw
      · by_cases heq : t = task
        · exact heq ▸ List.mem_cons_self
        · refine List.mem_cons_of_mem _ ((List.mem_eraseP_of_neg ?_).mpr hw)
          simpa using ne_polled hnodup hpc t hw
      · rw [hpc] at hw
        cases hw
        exact List.mem_cons_self

/-- The tasks the pass over the queue has still to poll. -/
def queued (s : Runtime) : Nat := s.pendingSpawns.length + s.readyQueue.length

/-- The steps the loop takes at most, with no more spawns, until it is at the top
again. -/
def toTop (s : Runtime) : Nat :=
  match s.pc with
  | .idle => 0
  | .top => 3 * s.queued + 4
  | .popping => 3 * s.queued + 3
  | .polling _ => 3 * s.queued + 5
  | .dropping => 3 * s.queued + 4
  | .checking => 2
  | .wakingThreadSafe => 1

/-- How often the loop passes the top at most before it begins an owed poll. -/
def rounds (s : Runtime) (t : Task) : Nat :=
  match s.pc with
  | .idle => 0
  | .top => if t ∈ s.pendingSpawns ∨ t ∈ s.readyQueue then 0 else 1
  | .popping | .polling _ | .dropping => if t ∈ s.readyQueue then 0 else 1
  | .checking => if s.shouldStop then 0 else 1
  | .wakingThreadSafe =>
    if t ∈ s.pendingSpawns ∨ t ∈ s.readyQueue ∨ t.wakerType = .threadSafe then 1 else 2

/-- The steps the loop takes at most, with no more spawns, before it begins an
owed poll. -/
def due (s : Runtime) (t : Task) : Nat := s.toTop + s.rounds t * (3 * s.tasks.length + 4)

theorem length_tasks (s : Runtime) :
    s.tasks.length = s.queued + s.waitingTasks.length + s.polling.length := by
  simp only [tasks, queued, List.length_append]

theorem rounds_le (s : Runtime) (t : Task) : s.rounds t ≤ 2 := by
  unfold rounds
  split <;> (try split) <;> omega

theorem due_le (s : Runtime) (t : Task) : s.due t ≤ 9 * s.tasks.length + 13 := by
  have htop : s.toTop ≤ 3 * s.tasks.length + 5 := by
    have hlen := s.length_tasks
    unfold toTop
    split <;> omega
  have hrounds := Nat.mul_le_mul_right (3 * s.tasks.length + 4) (s.rounds_le t)
  unfold due
  omega

end Runtime

namespace Runtime

variable {s s' : Runtime} {t : Task} {a : Happening} {l : Ledger}

/-- A step within a round. -/
theorem due_within (hlen : s'.tasks.length ≤ s.tasks.length) (hrounds : s'.rounds t ≤ s.rounds t)
    (htop : s'.toTop + 1 ≤ s.toTop) : 1 + s'.due t ≤ s.due t := by
  have hmul : s'.rounds t * (3 * s'.tasks.length + 4) ≤ s.rounds t * (3 * s.tasks.length + 4) :=
    Nat.mul_le_mul hrounds (by omega)
  unfold due
  omega

/-- The step to the top, which a round pays for. -/
theorem due_round (hlen : s'.tasks.length ≤ s.tasks.length) (hrounds : s'.rounds t + 1 ≤ s.rounds t)
    (htop : s'.toTop ≤ 3 * s.tasks.length + 4) (hpos : 1 ≤ s.toTop) : 1 + s'.due t ≤ s.due t := by
  have hmul : s'.rounds t * (3 * s'.tasks.length + 4) ≤ s'.rounds t * (3 * s.tasks.length + 4) :=
    Nat.mul_le_mul_left _ (by omega)
  have hround := Nat.mul_le_mul_right (3 * s.tasks.length + 4) hrounds
  rw [Nat.add_mul, Nat.one_mul] at hround
  unfold due
  omega

theorem due_idle (hpc : s.pc = .idle) (t : Task) : s.due t = 0 := by
  simp [due, toTop, rounds, hpc]

theorem toTop_pos (hpc : s.pc ≠ .idle) : 1 ≤ s.toTop := by
  unfold toTop
  split
  · exact absurd ‹_› hpc
  all_goals omega

/-- A round from the top takes three steps a task and four of its own. -/
theorem toTop_le_of_top (hpc : s.pc = .top) : s.toTop ≤ 3 * s.tasks.length + 4 := by
  simp only [toTop, hpc, length_tasks]
  omega

theorem Move.length_le (hm : Move s a s') (hnodup : (s.tasks.map Task.id).Nodup)
    (ha : (∀ ty, a ≠ .spawn ty) ∧ a ≠ .blockOn) : s'.tasks.length ≤ s.tasks.length := by
  cases hm.flow hnodup with
  | added hadd => exact (hadd.elim (fun ⟨ty, h⟩ => ha.1 ty h) ha.2).elim
  | finished _ task _ _ hperm =>
    rw [hperm.length_eq]
    exact Nat.le_succ _
  | kept _ _ hperm => exact Nat.le_of_eq hperm.length_eq

theorem ite_le_ite {p q : Prop} [Decidable p] [Decidable q] {m n : Nat} (h : p → q) (hmn : m ≤ n) :
    (if q then m else n) ≤ if p then m else n := by
  by_cases hp : p
  · exact Nat.le_of_eq ((if_pos (h hp)).trans (if_pos hp).symm)
  · rw [if_neg hp]
    split
    · exact hmn
    · exact Nat.le_refl n

/-- A spawn puts an owed poll off by the length of three polls. -/
theorem due_spawn (hs : s.spawn ty = some s') : s'.due t ≤ s.due t + 9 := by
  obtain ⟨-, rfl⟩ := spawn_eq hs
  generalize hs' : ({ s with
    nextTaskId := s.nextTaskId + 1
    pendingSpawns := s.pendingSpawns ++ [⟨s.nextTaskId, ty⟩] } : Runtime) = s'
  have hpending : s'.pendingSpawns = s.pendingSpawns ++ [⟨s.nextTaskId, ty⟩] := hs' ▸ rfl
  have hready : s'.readyQueue = s.readyQueue := hs' ▸ rfl
  have hstop : s'.shouldStop = s.shouldStop := hs' ▸ rfl
  have hpc : s'.pc = s.pc := hs' ▸ rfl
  have hqueued : s'.queued = s.queued + 1 := by
    simp only [queued, hpending, hready, List.length_append, List.length_singleton]
    omega
  have hlen : s'.tasks.length = s.tasks.length + 1 := by
    have hwaiting : s'.waitingTasks = s.waitingTasks := hs' ▸ rfl
    simp only [length_tasks, hqueued, hwaiting, polling, hpc]
    omega
  have htop : s'.toTop ≤ s.toTop + 3 := by
    simp only [toTop, hpc, hqueued]
    split <;> omega
  have hrounds : s'.rounds t ≤ s.rounds t := by
    simp only [rounds, hpc, hpending, hready, hstop]
    split
    case h_2 => exact ite_le_ite (.imp_left (List.mem_append_left _)) (by omega)
    case h_7 => exact ite_le_ite (.imp_left (List.mem_append_left _)) (by omega)
    all_goals exact Nat.le_refl _
  have htwo := s.rounds_le t
  have hcost : s'.rounds t * (3 * s'.tasks.length + 4) ≤ s.rounds t * (3 * s.tasks.length + 4) + 6 :=
    calc s'.rounds t * (3 * s'.tasks.length + 4)
        ≤ s.rounds t * (3 * s'.tasks.length + 4) := Nat.mul_le_mul_right _ hrounds
      _ = s.rounds t * (3 * s.tasks.length + 4 + 3) := congrArg (s.rounds t * ·) (by omega)
      _ = s.rounds t * (3 * s.tasks.length + 4) + s.rounds t * 3 := Nat.mul_add ..
      _ ≤ s.rounds t * (3 * s.tasks.length + 4) + 6 := by omega
  unfold due
  omega

/-- Each step of the loop brings an owed poll nearer, and a wake changes
nothing. -/
theorem due_move (h : s.Owed t) (hnodup : (s.tasks.map Task.id).Nodup) (hm : Move s a s')
    (hbegins : ¬ s.BeginsPoll t a) (hpc : s.pc ≠ .idle) :
    a.loopStep + s'.due t ≤ s.due t + 9 * a.spawned := by
  have hlen := hm.length_le hnodup
  have hpos := toTop_pos hpc
  cases hm with
  | run hidle => exact absurd hidle hpc
  | blockOn hidle => exact absurd hidle hpc
  | stop hidle => exact absurd hidle hpc
  | leave _ =>
    rw [due_idle rfl]
    simp only [due, Happening.loopStep]
    omega
  | leaveEmpty _ =>
    rw [due_idle rfl]
    simp only [due, Happening.loopStep]
    omega
  | wake ty id =>
    have hsame : (s.wake ty id).due t = s.due t := by
      simp only [due, toTop, rounds, queued, tasks, polling, wake_tasks, shouldStop_wake]
    simp [Happening.loopStep, Happening.spawned, hsame]
  | spawn ty huser hs =>
    have hspawn := due_spawn (t := t) hs
    simp only [Happening.loopStep, Happening.spawned]
    omega
  | enter htop =>
    refine due_within (hlen (by simp)) ?_ ?_
    · simp only [rounds, htop]
      exact ite_le_ite (fun h => List.mem_append.mpr h.symm) (Nat.zero_le 1)
    · simp only [toTop, htop, queued, processNewSpawns, List.length_append, List.length_nil]
      omega
  | pop task ready hpop hready =>
    have hne : t ≠ task := by
      rintro rfl
      exact hbegins ⟨rfl, hpop, by rw [hready]; rfl⟩
    refine due_within (hlen (by simp)) ?_ ?_
    · simp only [rounds, hpop, createWaker_tasks, hready]
      exact ite_le_ite (fun h => (List.mem_cons.mp h).resolve_left hne) (Nat.zero_le 1)
    · simp only [toTop, hpop, queued, hready, createWaker_tasks, List.length_cons]
      omega
  | passed hpop hready =>
    refine due_within (hlen (by simp)) ?_ ?_
    · simp only [rounds, hpop, hready, List.not_mem_nil, if_false]
      split <;> omega
    · simp only [toTop, hpop]
      omega
  | dropped next hdrop hnext =>
    refine due_within (hlen (by simp)) ?_ ?_
    · rcases hnext with ⟨rfl, hstop⟩ | rfl
      · have hzero : ({ s with pc := .checking } : Runtime).rounds t = 0 := if_pos hstop
        rw [hzero]
        exact Nat.zero_le _
      · simp only [rounds, hdrop]
        exact Nat.le_refl _
    · rcases hnext with ⟨rfl, -⟩ | rfl <;> simp only [toTop, hdrop, queued] <;> omega
  | woken hcheck hstop =>
    refine due_within (hlen (by simp)) ?_ ?_
    · have hone : s.rounds t = 1 := by simp only [rounds, hcheck, hstop]; rfl
      rw [hone]
      refine Nat.le_of_eq (if_pos ?_)
      rcases owed_processWokenTasks hnodup h hcheck with hp | hr | ⟨-, hty, -⟩
      · exact .inl hp
      · exact .inr (.inl hr)
      · exact .inr (.inr hty)
    · simp [toTop, hcheck]
  | wokenThreadSafe hwaking =>
    have hlength := hlen (by simp)
    refine due_round hlength ?_ ?_ hpos
    · by_cases hnow : t ∈ s.pendingSpawns ∨ t ∈ s.readyQueue ∨ t.wakerType = .threadSafe
      · have hone : s.rounds t = 1 := by simp only [rounds, hwaking, hnow, if_true]
        rw [hone]
        refine Nat.le_of_eq (congrArg (· + 1) (if_pos ?_))
        rcases owed_processThreadSafeWokenTasks hnodup h hwaking with hp | hr | ⟨-, hty, -⟩
        · exact .inl hp
        · exact .inr hr
        · exact hnow.imp_right fun hr => mem_requeue _ (hr.resolve_right (by simp [hty]))
      · have htwo : s.rounds t = 2 := by simp only [rounds, hwaking, hnow, if_false]
        have hle : ({ s.processThreadSafeWokenTasks with pc := .top } : Runtime).rounds t ≤ 1 := by
          simp only [rounds]
          split <;> omega
        omega
    · exact Nat.le_trans (toTop_le_of_top rfl) (by omega)
  | ready task hpoll =>
    refine due_within (hlen (by simp)) ?_ ?_
    · simp only [rounds, hpoll]
      exact ite_le_ite (fun h => List.mem_append_left _ h) (Nat.zero_le 1)
    · simp only [toTop, hpoll, queued, processNewSpawns, List.length_append, List.length_nil]
      omega
  | pending task next hpoll hnext =>
    refine due_within (hlen (by simp)) ?_ ?_
    · rcases hnext with ⟨rfl, hstop⟩ | rfl
      · refine Nat.le_trans (Nat.le_of_eq ?_) (Nat.zero_le _)
        exact if_pos hstop
      · simp only [rounds, hpoll]
        exact ite_le_ite (fun h => List.mem_append_left _ h) (Nat.zero_le 1)
    · rcases hnext with ⟨rfl, -⟩ | rfl <;>
        simp only [toTop, hpoll, queued, processNewSpawns, List.length_append, List.length_nil] <;> omega

end Runtime

-- ---------------------------------------------------------------------------
-- Every run
-- ---------------------------------------------------------------------------

namespace Runtime

variable {s s' : Runtime} {t : Task} {a : Happening} {l : Ledger}

theorem accounted_of_reachable (hr : ledgerMachine.Reachable (s, l)) :
    s.Accounted l ∧ s.Registered := by
  refine hr.invariant_watch (I := fun s l => s.Accounted l ∧ s.Registered) ?_ ?_
  · rintro _ rfl
    exact ⟨⟨rfl, .refl _⟩, fun t ht => ht.elim nofun nofun⟩
  · rintro s l a s' _ ⟨hacc, hreg⟩ _ hs
    have hm := step_move hs
    exact ⟨hacc.move hm, hreg.move hacc.tasks_nodup hm⟩

/-- A poll begins of a queued task, and none that is queued has finished. -/
theorem Accounted.not_finished (h : s.Accounted l) (hbegins : s.BeginsPoll t a) :
    t.id ∉ l.finished := by
  intro hfinished
  have hmem : t ∈ s.tasks := mem_tasks.mpr (.inr (.inl (List.mem_of_head? hbegins.2.2)))
  exact (List.nodup_append.mp h.nodup).2.2 t.id (List.mem_map_of_mem hmem) t.id hfinished rfl

/-- What a run keeps until it settles what the task is owed. -/
structure Waits (t : Task) (s : Runtime) : Prop where
  owed : s.Owed t
  accounted : ∃ l, s.Accounted l

theorem Waits.step (h : Waits t s) (hs : s.step a = some s') (hbegins : ¬ s.BeginsPoll t a)
    (hfinishes : ¬ s.Finishes t a) : Waits t s' := by
  obtain ⟨howed, l, hacc⟩ := h
  have hm := step_move hs
  exact ⟨howed.move hacc.tasks_nodup hm hbegins hfinishes, _, hacc.move hm⟩

theorem Move.nextTaskId (hm : Move s a s') : s'.nextTaskId = s.nextTaskId + a.spawned ∧
    (s.nextTaskId < 2 ^ 64 → s'.nextTaskId < 2 ^ 64) := by
  cases hm with
  | spawn ty huser hs =>
    obtain ⟨hlt, rfl⟩ := spawn_eq hs
    exact ⟨rfl, fun _ => hlt⟩
  | blockOn hpc hs =>
    obtain ⟨hlt, rfl⟩ := spawn_eq hs
    exact ⟨rfl, fun _ => hlt⟩
  | wake ty id =>
    rw [(s.wake_tasks ty id).2.2.2.1]
    exact ⟨rfl, fun h => h⟩
  | pop task ready hpc hready =>
    have hnext := (({ s with readyQueue := ready }).createWaker_tasks task).2.2.2
    exact ⟨hnext, fun h => lt_of_eq_of_lt hnext h⟩
  | _ => exact ⟨rfl, fun h => h⟩

/-- Ids stay within a `u64`, and so does the number of spawns. -/
theorem nextTaskId_run (hrun : executorMachine.run s as = some s') (h : s.nextTaskId < 2 ^ 64) :
    s'.nextTaskId = s.nextTaskId + (as.map Happening.spawned).sum ∧ s'.nextTaskId < 2 ^ 64 := by
  induction as generalizing s with
  | nil =>
    obtain rfl := Option.some.inj hrun
    exact ⟨rfl, h⟩
  | cons a as ih =>
    obtain ⟨u, hs, hrest⟩ := Machine.run_cons.mp hrun
    obtain ⟨hnext, hlt⟩ := (step_move hs).nextTaskId
    obtain ⟨hsum, hbound⟩ := ih hrest (hlt h)
    refine ⟨?_, hbound⟩
    rw [hsum, hnext, List.map_cons, List.sum_cons, Nat.add_assoc]

theorem pendingTasks_eq (s : Runtime) : s.pendingTasks + s.polling.length = s.tasks.length := by
  rw [length_tasks, pendingTasks, queued]
  omega

/-- While the loop runs on, an owed poll begins within the steps it is due in. -/
theorem settles_of_waits (h : Waits t s) (hrun : executorMachine.run s as = some s')
    (hruns : executorMachine.Along (fun s _ => s.pc ≠ .idle) s as)
    (hmany : 9 * (s.tasks.length + (as.map Happening.spawned).sum) + 13 <
      (as.map Happening.loopStep).sum) :
    ∃ bs a cs u, as = bs ++ a :: cs ∧ executorMachine.run s bs = some u ∧
      (u.BeginsPoll t a ∨ u.Finishes t a) := by
  by_cases hnever : executorMachine.Along (fun s a => ¬ (s.BeginsPoll t a ∨ s.Finishes t a)) s as
  · have hcost := (Machine.along_and.mpr ⟨hruns, hnever⟩).cost_le (f := fun s => s.due t)
      (I := Waits t) (c := Happening.loopStep) (d := Happening.spawned) (k := 9) hrun h ?_
    · have hdue := s.due_le t
      omega
    · rintro s a s' hw ⟨hpc, hno⟩ hs
      rw [not_or] at hno
      obtain ⟨l, hacc⟩ := hw.accounted
      exact ⟨hw.step hs hno.1 hno.2, due_move hw.owed hacc.tasks_nodup (step_move hs) hno.1 hpc⟩
  · obtain ⟨bs, a, cs, u, heq, hbs, -, ha⟩ := Machine.exists_of_not_along hnever
    exact ⟨bs, a, cs, u, heq, hbs, not_not.mp ha⟩

end Runtime

/-- In every run of a runtime: ids are handed out once, and each is that of a
finished task or of one task in one place, spawned, queued, waiting or being
polled; no poll begins of a finished task; and a wake of an unfinished task, by
its own kind of waker, stays owed through whatever happens until a poll of it
begins, or the poll under way finishes it: one of the two comes whenever the loop
runs on for more steps than the tasks there are and the tasks spawned meanwhile
account for, which are fewer than `2 ^ 64`. -/
theorem executor_loses_nothing {s : Runtime} {l : Ledger} (hr : ledgerMachine.Reachable (s, l)) :
    l.spawned.Nodup ∧
    (s.tasks.map Task.id ++ l.finished).Perm l.spawned ∧
    (∀ t a, s.BeginsPoll t a → t.id ∉ l.finished) ∧
    ∀ t ∈ s.tasks, ∀ before u,
      executorMachine.run (s.wake t.wakerType t.id) before = some u →
      executorMachine.Along (fun s a => ¬ (s.BeginsPoll t a ∨ s.Finishes t a))
        (s.wake t.wakerType t.id) before →
      ∀ as v, executorMachine.run u as = some v →
        executorMachine.Along (fun s _ => s.pc ≠ .idle) u as →
        (as.map Happening.spawned).sum < 2 ^ 64 ∧
        (9 * (u.tasks.length + (as.map Happening.spawned).sum) + 13 <
            (as.map Happening.loopStep).sum →
          ∃ bs a cs w, as = bs ++ a :: cs ∧ executorMachine.run u bs = some w ∧
            (w.BeginsPoll t a ∨ w.Finishes t a)) := by
  obtain ⟨hacc, hreg⟩ := Runtime.accounted_of_reachable hr
  refine ⟨?_, hacc.perm, fun t a hbegins => hacc.not_finished hbegins, ?_⟩
  · rw [hacc.spawned, List.nodup_reverse]
    exact List.nodup_range
  · intro t ht before u hbefore hnever as v has hruns
    have hwake : Runtime.Waits t (s.wake t.wakerType t.id) :=
      ⟨Runtime.owed_of_wake hreg ht, _, hacc.move (.wake t.wakerType t.id)⟩
    have hwaits : Runtime.Waits t u := hnever.invariant hbefore hwake fun s a s' hw hno hs =>
      hw.step hs (not_or.mp hno).1 (not_or.mp hno).2
    refine ⟨?_, Runtime.settles_of_waits hwaits has hruns⟩
    obtain ⟨s₀, bs, hinit, hrun⟩ := hr.of_watch.exists_run
    have hzero : s₀.nextTaskId < 2 ^ 64 := by
      rw [show s₀ = .new from hinit]
      decide
    have hs := (Runtime.nextTaskId_run hrun hzero).2
    have hw : (s.wake t.wakerType t.id).nextTaskId < 2 ^ 64 := by
      rw [(s.wake_tasks t.wakerType t.id).2.2.2.1]
      exact hs
    obtain ⟨hsum, hlt⟩ := Runtime.nextTaskId_run has (Runtime.nextTaskId_run hbefore hw).2
    rw [hsum] at hlt
    exact Nat.lt_of_le_of_lt (Nat.le_add_left _ _) hlt

/-- A task that wakes itself while it is polled, and is polled again. -/
theorem executor_loses_nothing_self_wake :
    ∃ s l u, ledgerMachine.Reachable (s, l) ∧ s.pc = .polling ⟨0, .singleThreaded⟩ ∧
      executorMachine.run (s.wake .singleThreaded 0) [.pollPending] = some u ∧
      ∃ bs a cs w, List.replicate 5 .advance ++ .pollPending :: List.replicate 20 .advance =
          bs ++ a :: cs ∧ executorMachine.run u bs = some w ∧
        (w.BeginsPoll ⟨0, .singleThreaded⟩ a ∨ w.Finishes ⟨0, .singleThreaded⟩ a) := by
  let events : List Happening := [.spawn .singleThreaded, .run, .advance, .advance]
  let steps : List Happening := List.replicate 5 .advance ++ .pollPending :: List.replicate 20 .advance
  let check : Runtime → Happening → Bool := fun s _ => s.pc ≠ .idle
  let t : Task := ⟨0, .singleThreaded⟩
  let start : Runtime × Ledger := (.new, ⟨[], []⟩)
  have hend : ((ledgerMachine.run start events).bind fun p =>
      (executorMachine.run (p.1.wake t.wakerType t.id) [.pollPending]).bind fun u =>
        ((executorMachine.guarded check).run u steps).map fun _ => (p.1.pc, u.tasks.length)) =
      some (.polling t, 1) := by decide
  obtain ⟨⟨s, l⟩, hrun, hend⟩ := Option.bind_eq_some_iff.mp hend
  obtain ⟨u, hbefore, hend⟩ := Option.bind_eq_some_iff.mp hend
  obtain ⟨v, hsteps, hends⟩ := Option.map_eq_some_iff.mp hend
  obtain ⟨hpc, hlen⟩ := Prod.ext_iff.mp hends
  dsimp only at hpc hlen
  have hstart : ledgerMachine.Reachable start := .init ⟨rfl, rfl⟩
  have hr : ledgerMachine.Reachable (s, l) := hstart.run hrun
  obtain ⟨has, hruns⟩ := Machine.along_of_guarded (P := fun s _ => s.pc ≠ .idle) hsteps
    fun s _ h => by simpa [check] using h
  obtain ⟨-, -, -, hsettles⟩ := executor_loses_nothing hr
  have hmany : 9 * (u.tasks.length + (steps.map Happening.spawned).sum) + 13 <
      (steps.map Happening.loopStep).sum := by
    rw [hlen]
    decide
  refine ⟨s, l, u, hr, hpc, hbefore, ?_⟩
  refine (hsettles t (Runtime.mem_tasks.mpr (by simp [hpc])) _ u hbefore ?_ steps v has hruns).2 hmany
  intro s' _
  refine ⟨?_, trivial⟩
  rintro (⟨h, -⟩ | ⟨h, -⟩) <;> cases h

/-- What has finished stays so. -/
theorem Runtime.finished_run {p q : Runtime × Ledger} {id : TaskId} (hrun : ledgerMachine.run p as = some q)
    (h : id ∈ p.2.finished) : id ∈ q.2.finished := by
  induction as generalizing p with
  | nil =>
    obtain rfl := Option.some.inj hrun
    exact h
  | cons a as ih =>
    obtain ⟨u, hs, hrest⟩ := Machine.run_cons.mp hrun
    refine ih hrest ?_
    rw [(Machine.watch_step.mp hs).2]
    unfold Ledger.observe
    split
    case h_3 => exact List.mem_cons_of_mem _ h
    all_goals exact h

/-- A task that wakes itself in the poll that finishes it: beside another task,
which waits for good, the loop runs on for ever, and the wake leads to no poll. -/
theorem finished_task_not_repolled :
    ∃ s l u t, ledgerMachine.Reachable (s, l) ∧ s.pc = .polling t ∧
      executorMachine.run (s.wake t.wakerType t.id) (.pollReady :: List.replicate 5 .advance) = some u ∧
      (∀ n, executorMachine.Along (fun s _ => s.pc ≠ .idle) u (List.replicate (4 * n) .advance) ∧
        executorMachine.run u (List.replicate (4 * n) .advance) = some u) ∧
      ∀ as v, executorMachine.run (s.wake t.wakerType t.id) (.pollReady :: as) = some v →
        ∀ a, ¬ v.BeginsPoll t a := by
  let events : List Happening :=
    [.spawn .singleThreaded, .spawn .singleThreaded, .run, .advance, .advance, .pollPending, .advance]
  let start : Runtime × Ledger := (.new, ⟨[], []⟩)
  let check : Runtime → Happening → Bool := fun s _ => s.pc ≠ .idle
  let t : Task := ⟨1, .singleThreaded⟩
  let waiting : Runtime := { Runtime.new with
    waitingTasks := [⟨0, .singleThreaded⟩]
    running := true
    wakerRegistry := ⟨[0], []⟩
    nextTaskId := 2
    pc := .popping }
  have hend : ((ledgerMachine.run start events).bind fun p =>
      (ledgerMachine.run (p.1.wake t.wakerType t.id, p.2) [.pollReady]).bind fun q =>
        (executorMachine.run q.1 (List.replicate 5 .advance)).map fun u =>
          (p.1.pc, q.2.finished, u)) = some (.polling t, [1], waiting) := by decide
  obtain ⟨⟨s, l⟩, hrun, hend⟩ := Option.bind_eq_some_iff.mp hend
  obtain ⟨⟨s', l'⟩, hready, hend⟩ := Option.bind_eq_some_iff.mp hend
  obtain ⟨u, hu, hends⟩ := Option.map_eq_some_iff.mp hend
  obtain ⟨hpc, hfinished, rfl⟩ : s.pc = .polling t ∧ l'.finished = [1] ∧ u = waiting := by
    simpa using hends
  have hstart : ledgerMachine.Reachable start := .init ⟨rfl, rfl⟩
  have hr : ledgerMachine.Reachable (s, l) := hstart.run hrun
  have hwake : ledgerMachine.Reachable (s.wake t.wakerType t.id, l) := hr.next (a := .wake _ _) rfl
  obtain ⟨s₁, hs₁, hnil⟩ := Machine.run_cons.mp hready
  obtain rfl : s₁ = (s', l') := Option.some.inj hnil
  have hstep := (Machine.watch_step.mp hs₁).1
  refine ⟨s, l, waiting, t, hr, hpc, Machine.run_cons.mpr ⟨s', hstep, hu⟩, ?_, ?_⟩
  · intro n
    have hcycle : (executorMachine.guarded check).run waiting (List.replicate (4 * n) .advance) =
        some waiting := by
      induction n with
      | zero => rfl
      | succ n ih =>
        rw [Nat.mul_succ, Nat.add_comm, List.replicate_add]
        exact Machine.run_append.mpr ⟨waiting, by decide, ih⟩
    exact (Machine.along_of_guarded hcycle fun s _ h => by simpa [check] using h).symm
  · intro as v has a hbegins
    obtain ⟨s₂, hs₂, hrest⟩ := Machine.run_cons.mp has
    obtain rfl : s₂ = s' := Option.some.inj (hs₂.symm.trans hstep)
    obtain ⟨g, hg⟩ := Machine.exists_watch_run (p := (s₂, l')) hrest
    have hv := Runtime.accounted_of_reachable ((hwake.next hs₁).run hg)
    exact hv.1.not_finished hbegins (Runtime.finished_run hg (by simp [hfinished, t]))

end WinIoring.Rt
