import WinIoring.Runtime.Waiters

/-!
# Parking

A parked driver is woken through two slots: the driver's own, which whoever
leaves it work takes, and the armed event's, which the pool thread takes. It
never sleeps on work while both are where it left them.
-/

namespace WinIoring.Runtime

open Slab

variable {ws : WordSize} {s s' : Sys ws} {w w' w'' : World ws}

-- ---------------------------------------------------------------------------
-- The log grows
-- ---------------------------------------------------------------------------

namespace World

theorem suffix_emitAll (w : World ws) (es : List (Event ws)) : w.log <:+ (w.emitAll es).log :=
  List.suffix_append ..

theorem suffix_dropGuard (w : World ws) (guard : Option FileId) : w.log <:+ (w.dropGuard guard).log := by
  simp only [log_dropGuard, List.suffix_refl]

theorem suffix_dropRegistryRef (w : World ws) (r : RegId) (u : Bool) :
    w.log <:+ (w.dropRegistryRef r u).log := by
  simp only [dropRegistryRef]
  split
  · exact List.suffix_append ..
  · exact List.suffix_refl _

theorem suffix_dropOptional (w : World ws) (b : Option Boxed) (u : Bool) :
    w.log <:+ (w.dropOptional b u).log := by
  match b with
  | none | some (.pending (.files _)) => exact List.suffix_refl _
  | some (.buffer (.owned b)) => exact List.suffix_cons ..
  | some (.buffer (.handle h)) =>
    exact (w.setRegistry h.registry ((w.registries h.registry).release h.index)).suffix_dropRegistryRef
      h.registry u
  | some (.collection r) => exact w.suffix_dropRegistryRef r u
  | some (.pending (.buffers ..)) => exact List.suffix_append ..

theorem suffix_dropFutureRef (w : World ws) (σ : SlotId) (u : Bool) :
    w.log <:+ (w.dropFutureRef σ u).log :=
  (w.setResult σ { w.results σ with completed := none, awaited := false }).suffix_dropOptional _ u

end World

theorem Sys.added_of_append {es : List (Event ws)} (h : w'.log = es ++ w.log) : Sys.added w w' = es := by
  rw [Sys.added, h, List.length_append, Nat.add_sub_cancel, List.take_left]

/-- What has been added stays added. -/
theorem Sys.added_mono (h : w.log <:+ w'.log) (h' : w'.log <:+ w''.log) (he : e ∈ Sys.added w w') :
    e ∈ Sys.added w w'' := by
  obtain ⟨es, hes⟩ := h
  obtain ⟨es', hes'⟩ := h'
  rw [Sys.added_of_append hes.symm] at he
  have happ : w''.log = (es' ++ es) ++ w.log := by rw [← hes', ← hes, List.append_assoc]
  rw [Sys.added_of_append happ]
  exact List.mem_append_right _ he

-- ---------------------------------------------------------------------------
-- Leaving work for the driver
-- ---------------------------------------------------------------------------

/-- What a pass is owed for is recorded with a nudge. -/
structure DriverInner.Owes (d d' : DriverInner ws) : Prop where
  completions : d'.ring.completions = d.ring.completions
  driverWaker : d'.driverWaker = d.driverWaker
  owes : d'.nudged = false →
    d.nudged = false ∧ d'.pendingSubmit = d.pendingSubmit ∧ d'.shutdown = d.shutdown

namespace DriverInner.Owes

variable {d d' : DriverInner ws}

theorem of_same (hcompletions : d'.ring.completions = d.ring.completions)
    (hwaker : d'.driverWaker = d.driverWaker) (hnudged : d'.nudged = d.nudged)
    (hpending : d'.pendingSubmit = d.pendingSubmit) (hmode : d'.shutdown = d.shutdown) : d.Owes d' :=
  ⟨hcompletions, hwaker, fun h => ⟨hnudged ▸ h, hpending, hmode⟩⟩

theorem refl (d : DriverInner ws) : d.Owes d := .of_same rfl rfl rfl rfl rfl

theorem nudged (hcompletions : d'.ring.completions = d.ring.completions)
    (hwaker : d'.driverWaker = d.driverWaker) (h : d'.nudged = true) : d.Owes d' :=
  ⟨hcompletions, hwaker, fun hnot => absurd (h.symm.trans hnot) nofun⟩

theorem trans {d'' : DriverInner ws} (h : d.Owes d') (h' : d'.Owes d'') : d.Owes d'' where
  completions := h'.completions.trans h.completions
  driverWaker := h'.driverWaker.trans h.driverWaker
  owes hnot := by
    obtain ⟨hnudged, hpending, hmode⟩ := h'.owes hnot
    obtain ⟨hnudged, hpending', hmode'⟩ := h.owes hnudged
    exact ⟨hnudged, hpending.trans hpending', hmode.trans hmode'⟩

theorem issueCancel (d : DriverInner ws) (t : Token ws) (refusal : Option HResult) :
    d.Owes (d.issueCancel t refusal) := by
  unfold DriverInner.issueCancel
  split
  · exact .refl d
  split
  · exact .refl d
  split
  · exact .refl d
  split
  · exact .refl d
  split
  · exact .refl d
  dsimp only
  split
  · exact .of_same rfl rfl rfl rfl rfl
  · rename_i hbuild
    refine .nudged ?_ rfl rfl
    unfold IoRing.buildCancelRequest at hbuild
    obtain ⟨_, hrefused⟩ | ⟨-, -, hqueued⟩ := IoRing.build_cases d.ring _ refusal
    · rw [hrefused] at hbuild
      cases hbuild
    · rw [hqueued] at hbuild
      obtain ⟨rfl, -⟩ := Prod.mk.inj hbuild
      rfl

theorem requestCancel (d : DriverInner ws) (t : Token ws) (refusal : Option HResult) :
    d.Owes (d.requestCancel t refusal) := by
  unfold DriverInner.requestCancel
  split
  · exact .refl d
  split
  · exact issueCancel d t refusal
  · split
    · exact .refl d
    · exact .of_same rfl rfl rfl rfl rfl
  · exact .refl d

end DriverInner.Owes

/-- What anyone but the driver leaves a driver that may be parked: its waker is
where it was, or has been taken and woken. -/
structure World.Rouses (w w' : World ws) : Prop where
  completions : w'.inner.ring.completions = w.inner.ring.completions
  owes : w'.inner.nudged = false → w.inner.nudged = false ∧
    w'.inner.pendingSubmit = w.inner.pendingSubmit ∧ w'.inner.shutdown = w.inner.shutdown
  slot : w'.inner.driverWaker = w.inner.driverWaker ∧ w'.inner.nudged = w.inner.nudged ∨
    w'.inner.driverWaker = none ∧
      ∀ x, w.inner.driverWaker = some x → .wake x false ∈ Sys.added w w'

namespace World.Rouses

theorem of_same (hcompletions : w'.inner.ring.completions = w.inner.ring.completions)
    (hwaker : w'.inner.driverWaker = w.inner.driverWaker) (hnudged : w'.inner.nudged = w.inner.nudged)
    (hpending : w'.inner.pendingSubmit = w.inner.pendingSubmit)
    (hmode : w'.inner.shutdown = w.inner.shutdown) : w.Rouses w' :=
  ⟨hcompletions, fun h => ⟨hnudged ▸ h, hpending, hmode⟩, .inl ⟨hwaker, hnudged⟩⟩

theorem of_inner (h : w'.inner = w.inner) : w.Rouses w' := by
  refine .of_same ?_ ?_ ?_ ?_ ?_ <;> rw [h]

/-- Code that comes first and stays clear of the driver and the log. -/
theorem before {v : World ws} (hinner : v.inner = w.inner) (hlog : v.log = w.log)
    (h : v.Rouses w') : w.Rouses w' where
  completions := hinner ▸ h.completions
  owes := hinner ▸ h.owes
  slot := by
    have hadded : Sys.added v w' = Sys.added w w' := by rw [Sys.added, Sys.added, hlog]
    rw [← hinner, ← hadded]
    exact h.slot

/-- Code that comes after and stays clear of the driver. -/
theorem after (h : w.Rouses w') (hlog : w.log <:+ w'.log) (hinner : w''.inner = w'.inner)
    (hlog' : w'.log <:+ w''.log) : w.Rouses w'' where
  completions := hinner ▸ h.completions
  owes := hinner ▸ h.owes
  slot := by
    rw [hinner]
    exact h.slot.imp_right fun ⟨hnone, hwoken⟩ =>
      ⟨hnone, fun x hx => Sys.added_mono hlog hlog' (hwoken x hx)⟩

end World.Rouses

theorem World.suffix_wakeOptional (w : World ws) (waker : Option Waker) :
    w.log <:+ (w.wakeOptional waker).log := w.suffix_emitAll _

/-- The driver's waker is taken and woken. -/
theorem World.rouses_wakeOptional {v : World ws} (hd : w.inner.Owes v.inner) (hlog : w.log <:+ v.log) :
    w.Rouses ((v.setInner { v.inner with driverWaker := none }).wakeOptional v.inner.driverWaker) where
  completions := hd.completions
  owes := hd.owes
  slot := by
    refine .inr ⟨rfl, fun x hx => ?_⟩
    obtain ⟨es, hes⟩ := hlog
    have hwoken : ((v.setInner { v.inner with driverWaker := none }).wakeOptional
        v.inner.driverWaker).log = (.wake x false :: es) ++ w.log := by
      rw [hd.driverWaker, hx]
      exact congrArg (List.cons _) hes.symm
    rw [Sys.added_of_append hwoken]
    exact List.mem_cons_self

namespace World

theorem rouses_nudgeDriver {v : World ws} (hcompletions : v.inner.ring.completions = w.inner.ring.completions)
    (hwaker : v.inner.driverWaker = w.inner.driverWaker) (hlog : w.log <:+ v.log) :
    w.Rouses v.nudgeDriver :=
  rouses_wakeOptional (v := v.setInner v.inner.markNudged) (.nudged hcompletions hwaker rfl) hlog

theorem suffix_nudgeDriver (w : World ws) : w.log <:+ w.nudgeDriver.log := w.suffix_emitAll _

theorem rouses_cancel (w : World ws) (t : Token ws) (refusal : Option HResult) :
    w.Rouses (w.cancel t refusal) :=
  rouses_wakeOptional (v := w.setInner (w.inner.requestCancel t refusal)) (.requestCancel ..)
    (List.suffix_refl w.log)

theorem rouses_escalate (w : World ws) (mode : ShutdownMode) : w.Rouses (w.escalate mode) := by
  unfold escalate
  split
  · exact .of_inner rfl
  · exact rouses_nudgeDriver rfl rfl (List.suffix_refl w.log)

theorem rouses_detachFuture (w : World ws) (t : Token ws) (refusal : Option HResult) :
    w.Rouses (w.detachFuture t refusal) := by
  unfold detachFuture
  split
  · split
    · refine .of_same ?_ ?_ ?_ ?_ ?_
      all_goals simp [dropPayload]
    · exact .of_same rfl rfl rfl rfl rfl
  · exact .of_same rfl rfl rfl rfl rfl
  · rename_i slab _
    refine rouses_wakeOptional (v := w.setInner ({ w.inner with slab }.requestCancel t refusal)) ?_
      (List.suffix_refl w.log)
    have hsame : w.inner.Owes { w.inner with slab } := .of_same rfl rfl rfl rfl rfl
    exact hsame.trans (.requestCancel ..)
  · exact .of_inner rfl

theorem suffix_dropSlotRef (w : World ws) (σ : SlotId) : w.log <:+ (w.dropSlotRef σ).log := by
  simp only [dropSlotRef]
  split
  · exact List.suffix_refl _
  · exact (w.setResult σ { w.results σ with completed := none }).suffix_dropOptional _ true

theorem suffix_detachFuture (w : World ws) (t : Token ws) (refusal : Option HResult) :
    w.log <:+ (w.detachFuture t refusal).log := by
  unfold detachFuture
  split
  · rename_i slab _
    split
    · rename_i slab' p _
      rw [dropPayload, log_dropGuard]
      have hbuffer := (w.setInner { w.inner with slab := slab' }).suffix_dropOptional
        (p.buffer.map Boxed.buffer) true
      exact hbuffer.trans ((suffix_dropSlotRef ..).trans (suffix_dropOptional ..))
    · exact List.suffix_refl _
  · exact List.suffix_refl _
  · exact suffix_wakeOptional ..
  · exact List.suffix_refl _

/-- What starts an operation nudges the driver, unless it is refused. -/
theorem rouses_start {accept : DriverInner ws → DriverInner ws} {recovery : Recovery}
    (hbuild : ∀ ring u, (build ring u).1.completions = ring.completions)
    (haccept : ∀ d, (accept d).ring = d.ring ∧ (accept d).driverWaker = d.driverWaker) :
    w.Rouses (w.start checks payload place build accept recovery).1 := by
  unfold start
  split
  · exact .of_inner (by simp)
  split
  · exact .of_inner (by simp)
  dsimp only
  split
  · refine .of_same ?_ ?_ ?_ ?_ ?_
    · rw [inner_dropGuard]
      rfl
    · rw [inner_dropGuard]
      rfl
    · rw [inner_dropGuard]
      rfl
    · rw [inner_dropGuard]
      rfl
    · rw [inner_dropGuard]
      rfl
  · rename_i hresult
    have hcompletions := (congrArg (·.1.completions) hresult).symm.trans (hbuild ..)
    refine rouses_nudgeDriver ?_ ?_ ?_
    · exact (congrArg IoRing.completions (haccept _).1).trans hcompletions
    · exact (haccept _).2
    · exact List.suffix_cons ..

theorem suffix_start {accept : DriverInner ws → DriverInner ws} {recovery : Recovery} :
    w.log <:+ (w.start checks payload place build accept recovery).1.log := by
  unfold start
  split
  · exact suffix_dropGuard ..
  split
  · exact suffix_dropGuard ..
  dsimp only
  split
  · simp only [log_dropGuard, setInner_log, List.suffix_refl]
  · refine List.IsSuffix.trans ?_ (suffix_nudgeDriver _)
    exact List.suffix_cons ..

/-- A queued entry leaves the completions alone. -/
theorem completions_build (r : IoRing ws) (e : Sqe ws) (refusal : Option HResult) :
    (r.build e refusal).1.completions = r.completions := by
  obtain ⟨_, h⟩ | ⟨-, -, h⟩ := IoRing.build_cases r e refusal
  · rw [h]
  · rw [h]
    rfl

theorem rouses_sequential (w : World ws) (file : FileId) (buffer : Buffer) (a : StartAnswers)
    {issue : World ws → Nat → World ws × Except (Rejection Error) (Token ws)}
    (hissue : ∀ w offset, World.Rouses w (issue w offset).1 ∧ w.log <:+ (issue w offset).1.log) :
    w.Rouses (w.sequential file buffer a issue).1 := by
  have hcheck : (w.checkHasFileOffset file a).1.inner = w.inner ∧
      (w.checkHasFileOffset file a).1.log = w.log := by
    unfold checkHasFileOffset
    dsimp only
    split
    · exact ⟨rfl, rfl⟩
    · exact ⟨rfl, rfl⟩
  unfold sequential
  split
  · rename_i hresult
    rw [hresult] at hcheck
    exact .of_inner hcheck.1
  · rename_i w₁ u hresult
    rw [hresult] at hcheck
    dsimp only
    split
    · exact .of_inner hcheck.1
    · have hissued := hissue (w₁.setFile file { w₁.files file with sequentialOutstanding := true })
        (w₁.files file).cursor
      split
      · rename_i hresult
        rw [hresult] at hissued
        exact .before (v := w₁.setFile file { w₁.files file with sequentialOutstanding := true })
          hcheck.1 hcheck.2 hissued.1
      · rename_i hresult
        rw [hresult] at hissued
        refine .before (v := w₁.setFile file { w₁.files file with sequentialOutstanding := true })
          hcheck.1 hcheck.2 (hissued.1.after hissued.2 rfl ?_)
        exact List.suffix_cons ..

end World

-- ---------------------------------------------------------------------------
-- Other people's steps
-- ---------------------------------------------------------------------------

/-- A step of anyone's but the driver's. -/
structure Rests (s s' : Sys ws) : Prop where
  pc : s'.pc = s.pc ∨ s'.pc = .halted
  owes : s'.world.inner.nudged = false → s.world.inner.nudged = false ∧
    s'.world.inner.pendingSubmit = s.world.inner.pendingSubmit ∧
    s'.world.inner.shutdown = s.world.inner.shutdown
  slot : s'.world.inner.driverWaker = s.world.inner.driverWaker ∧
      s'.world.inner.nudged = s.world.inner.nudged ∨
    s'.world.inner.driverWaker = none ∧
      ∀ x, s.world.inner.driverWaker = some x → .wake x false ∈ Sys.added s.world s'.world
  /-- A completion signals the event if the queue was empty. -/
  completions : s'.world.inner.ring.completions ≠ [] →
    s.world.inner.ring.completions ≠ [] ∨ s'.event.osEvent = true
  signal : s.event.osEvent = true ∨ s.event.signalled = true →
    s'.event.osEvent = true ∨ s'.event.signalled = true
  sticky : s.event.signalled = true → s'.event.signalled = true
  armed : s'.event.waker = s.event.waker ∧ s'.event.signalled = s.event.signalled ∨
    s'.event.waker = none ∧ ∀ x, s.event.waker = some x → x ∈ s'.event.poolWakes
  pool : ∀ x ∈ s.event.poolWakes,
    x ∈ s'.event.poolWakes ∨ .wake x false ∈ Sys.added s.world s'.world

namespace Rests

/-- The application's steps leave the event alone. -/
theorem of_rouses (h : s.world.Rouses s'.world) (hevent : s'.event = s.event)
    (hpc : s'.pc = s.pc ∨ s'.pc = .halted) : Rests s s' where
  pc := hpc
  owes := h.owes
  slot := h.slot
  completions hne := .inl (h.completions ▸ hne)
  signal := by rw [hevent]; exact id
  sticky := by rw [hevent]; exact id
  armed := by rw [hevent]; exact .inl ⟨rfl, rfl⟩
  pool := by rw [hevent]; exact fun _ => .inl

theorem halt (s : Sys ws) : Rests s s.halt := .of_rouses (.of_inner rfl) rfl (.inr rfl)

/-- A call that borrows the driver, once the application has let go of what it
hands over. -/
theorem call {u : Sys ws} (hworld : u.world = s.world) (hevent : u.event = s.event) (hpc : u.pc = s.pc)
    {k : World ws → World ws} (hk : s.world.Rouses (k s.world)) : Rests s (u.call k) := by
  unfold Sys.call
  rw [hworld]
  split
  · exact .of_rouses hk hevent (.inl hpc)
  · exact .of_rouses (.of_inner (congrArg World.inner hworld)) hevent (.inr rfl)

theorem start (h : s.start r a = some s') : Rests s s' := by
  unfold Sys.start at h
  obtain ⟨⟨⟨world, result⟩, handles⟩, hissue, heq⟩ := Option.map_eq_some_iff.mp h
  have hworld : s.world.Rouses world := by
    have hfile : ∀ {r : World ws × Except (Rejection Error) (Token ws)} {result},
        Sys.onFile r = (world, result) → world = r.1 := fun h => (congrArg Prod.fst h).symm
    unfold Sys.issue at hissue
    cases r with
    | read file arg len offset =>
      obtain ⟨b, -, heq⟩ := Option.map_eq_some_iff.mp hissue
      rw [hfile (Prod.mk.inj heq).1]
      exact World.rouses_start (fun _ _ => World.completions_build ..) fun _ => ⟨rfl, rfl⟩
    | write file arg len offset =>
      obtain ⟨b, -, heq⟩ := Option.map_eq_some_iff.mp hissue
      rw [hfile (Prod.mk.inj heq).1]
      exact World.rouses_start (fun _ _ => World.completions_build ..) fun _ => ⟨rfl, rfl⟩
    | flush file =>
      rw [hfile (Prod.mk.inj (Option.some.inj hissue)).1]
      exact World.rouses_start (fun _ _ => World.completions_build ..) fun _ => ⟨rfl, rfl⟩
    | seqRead file arg len =>
      obtain ⟨b, -, heq⟩ := Option.map_eq_some_iff.mp hissue
      have hfst : (s.world.fileRead file b len a).1 = world := congrArg Prod.fst (Prod.mk.inj heq).1
      rw [← hfst]
      refine World.rouses_sequential _ _ _ _ fun _ _ => ⟨?_, World.suffix_start⟩
      exact World.rouses_start (fun _ _ => World.completions_build ..) fun _ => ⟨rfl, rfl⟩
    | seqWrite file arg len =>
      obtain ⟨b, -, heq⟩ := Option.map_eq_some_iff.mp hissue
      have hfst : (s.world.fileWrite file b len a).1 = world := congrArg Prod.fst (Prod.mk.inj heq).1
      rw [← hfst]
      refine World.rouses_sequential _ _ _ _ fun _ _ => ⟨?_, World.suffix_start⟩
      exact World.rouses_start (fun _ _ => World.completions_build ..) fun _ => ⟨rfl, rfl⟩
    | registeredOp target i bufferOffset len fileOffset isWrite =>
      obtain ⟨b, -, heq⟩ := Option.map_eq_some_iff.mp hissue
      rw [hfile (Prod.mk.inj heq).1]
      refine World.rouses_start (fun _ _ => ?_) fun _ => ⟨rfl, rfl⟩
      dsimp only
      split
      · exact World.completions_build ..
      · exact World.completions_build ..
    | registerBuffers buffers =>
      rw [hfile (Prod.mk.inj (Option.some.inj hissue)).1]
      exact World.rouses_start (fun _ _ => World.completions_build ..) fun _ => ⟨rfl, rfl⟩
    | registerFiles files =>
      rw [hfile (Prod.mk.inj (Option.some.inj hissue)).1]
      exact World.rouses_start (fun _ _ => World.completions_build ..) fun _ => ⟨rfl, rfl⟩
  cases result with
  | error e => exact heq ▸ .of_rouses hworld rfl (.inl rfl)
  | ok t => exact heq ▸ .of_rouses hworld rfl (.inl rfl)

theorem poll {w : Waker} (h : s.poll σ w = some s') : Rests s s' := by
  obtain ⟨future, -, rfl⟩ := Option.map_eq_some_iff.mp h
  split
  · exact .of_rouses (.of_inner rfl) rfl (.inl rfl)
  · rename_i completed _
    obtain ⟨_, _, hreceive⟩ := Sys.receive_eq
      { s with
        world := (s.world.deliver σ future completed).1
        futures := Function.update s.futures σ none } (s.world.deliver σ future completed).2
    dsimp only
    rw [hreceive]
    exact .of_rouses (.of_inner (World.inner_deliver ..)) rfl (.inl rfl)

theorem dropFuture (h : s.dropFuture σ refusal = some s') : Rests s s' := by
  obtain ⟨future, -, rfl⟩ := Option.map_eq_some_iff.mp h
  dsimp only
  split
  · refine call (s := s) (u := { s with futures := Function.update s.futures σ none }) rfl rfl rfl ?_
    have hdetached := s.world.rouses_detachFuture future.token refusal
    refine hdetached.after (World.suffix_detachFuture ..) (World.inner_dropFutureRef ..) ?_
    refine List.IsSuffix.trans ?_ (World.suffix_dropFutureRef ..)
    exact List.suffix_cons ..
  · exact .of_rouses (.of_inner (World.inner_dropFutureRef ..)) rfl (.inl rfl)

theorem checkOut (h : s.checkOut collection index = some s') : Rests s s' := by
  obtain ⟨r, -, rfl⟩ := Option.map_eq_some_iff.mp h
  have hworld : (s.world.checkOut r index).1.inner = s.world.inner := by
    unfold World.checkOut
    split
    · rfl
    split
    · rfl
    split
    · rfl
    split
    · rfl
    · rfl
  split
  · split
    · rename_i hresult
      refine .of_rouses (.of_inner ?_) rfl (.inl rfl)
      exact (congrArg (·.1.inner) hresult).symm.trans hworld
    · rename_i hresult
      refine .of_rouses (.of_inner ?_) rfl (.inl rfl)
      exact (congrArg (·.1.inner) hresult).symm.trans hworld
  · exact halt s

theorem pollShutdown {w : Waker} (h : s.pollShutdown waiter w = some s') : Rests s s' := by
  unfold Sys.pollShutdown at h
  split at h
  · exact Option.some.inj h ▸ halt s
  split at h
  · exact Option.some.inj h ▸ .of_rouses (.of_inner rfl) rfl (.inl rfl)
  split at h
  · exact Option.some.inj h ▸ .of_rouses (.of_same rfl rfl rfl rfl rfl) rfl (.inl rfl)
  · split at h
    · exact Option.some.inj h ▸ call rfl rfl rfl (.of_same rfl rfl rfl rfl rfl)
    · cases h

theorem dropShutdown {id : Nat} (h : s.dropShutdown id = some s') : Rests s s' := by
  unfold Sys.dropShutdown at h
  split at h
  · dsimp only at h
    split at h
    · obtain rfl := Option.some.inj h
      exact call (s := s) (u := { s with waiters := s.waiters.erase id }) rfl rfl rfl
        (.of_same rfl rfl rfl rfl rfl)
    · exact Option.some.inj h ▸ .of_rouses (.of_inner rfl) rfl (.inl rfl)
  · cases h

/-- What the application does, short of driving. -/
theorem application (h : s.applicationStep a = some s')
    (hdrive : ∀ w a', a ≠ .pollDrive w a') (hdrop : a ≠ .dropDrive)
    (hdriver : ∀ a', a ≠ .dropDriver a') : Rests s s' := by
  unfold Sys.applicationStep at h
  split at h
  · split at h
    · exact start h
    · exact Option.some.inj h ▸ halt s
  · split at h
    · exact Option.some.inj h ▸ call rfl rfl rfl (World.rouses_cancel ..)
    · cases h
  · exact poll h
  · exact dropFuture h
  · exact Option.some.inj h ▸ call rfl rfl rfl (World.rouses_escalate ..)
  · exact checkOut h
  · obtain ⟨_, -, rfl⟩ := Option.map_eq_some_iff.mp h
    split
    · exact .of_rouses (.of_inner rfl) rfl (.inl rfl)
    · exact .of_rouses (.of_inner rfl) rfl (.inl rfl)
  · obtain ⟨_, -, rfl⟩ := Option.map_eq_some_iff.mp h
    exact .of_rouses (.of_inner (World.inner_dropHandle ..)) rfl (.inl rfl)
  · obtain ⟨_, -, rfl⟩ := Option.map_eq_some_iff.mp h
    exact .of_rouses (.of_inner rfl) rfl (.inl rfl)
  · obtain ⟨_, -, rfl⟩ := Option.map_eq_some_iff.mp h
    exact .of_rouses (.of_inner (World.inner_dropRegistryRef ..)) rfl (.inl rfl)
  · exact Option.some.inj h ▸ .of_rouses (.of_inner rfl) rfl (.inl rfl)
  · exact pollShutdown h
  · exact dropShutdown h
  · exact absurd rfl (hdrive _ _)
  · exact absurd rfl hdrop
  · exact absurd rfl (hdriver _)
  · cases h

theorem execute (h : s.execute e outcome = some s') : Rests s s' := by
  obtain ⟨ring, hring, rfl⟩ := Option.map_eq_some_iff.mp h
  refine .of_rouses ?_ rfl (.inl rfl)
  exact .of_same (IoRing.execute_some hring).completions rfl rfl rfl rfl

theorem report (h : s.report e outcome = some s') : Rests s s' := by
  obtain ⟨ring, hring, rfl⟩ := Option.map_eq_some_iff.mp h
  refine
    { pc := .inl rfl
      owes := fun hnot => ⟨hnot, rfl, rfl⟩
      slot := .inl ⟨rfl, rfl⟩
      completions := fun _ => ?_
      signal := fun hsignal => hsignal.imp_left fun hos => ?_
      sticky := id
      armed := .inl ⟨rfl, rfl⟩
      pool := fun _ => .inl }
  · cases hempty : s.world.inner.ring.completions with
    | nil => exact .inr (Bool.or_true s.event.osEvent)
    | cons cqe rest => exact .inl nofun
  · exact (congrArg (· || s.world.inner.ring.completions.isEmpty) hos).trans (Bool.true_or _)

theorem callback (h : s.callback = some s') : Rests s s' := by
  unfold Sys.callback at h
  split at h
  · obtain rfl := Option.some.inj h
    refine
      { pc := .inl rfl
        owes := fun hnot => ⟨hnot, rfl, rfl⟩
        slot := .inl ⟨rfl, rfl⟩
        completions := .inl
        signal := fun _ => .inr rfl
        sticky := fun _ => rfl
        armed := .inr ⟨rfl, fun x hx => ?_⟩
        pool := fun x hx => .inl (List.mem_append_left _ hx) }
    exact List.mem_append_right _ (by simp [hx])
  · cases h

theorem poolWake (h : s.poolWake = some s') : Rests s s' := by
  unfold Sys.poolWake at h
  split at h
  · cases h
  · rename_i x rest hwakes
    obtain rfl := Option.some.inj h
    refine
      { pc := .inl rfl
        owes := fun hnot => ⟨hnot, rfl, rfl⟩
        slot := .inl ⟨rfl, rfl⟩
        completions := .inl
        signal := id
        sticky := id
        armed := .inl ⟨rfl, rfl⟩
        pool := fun y hy => ?_ }
    rw [hwakes] at hy
    rcases List.mem_cons.mp hy with rfl | hy
    · refine .inr ?_
      have happ : (s.world.emit (.wake y false)).log = [.wake y false] ++ s.world.log := rfl
      rw [Sys.added_of_append happ]
      exact List.mem_singleton.mpr rfl
    · exact .inl hy

end Rests

/-- A step is the driver's own or anyone else's. -/
theorem step_rests (hs : s.step a = some s') : Drives s s' a ∨ Rests s s' := by
  unfold Sys.step at hs
  split at hs
  · cases hs
  split at hs
  · exact .inr (.execute hs)
  · exact .inr (.report hs)
  · exact .inr (.callback hs)
  · exact .inr (.poolWake hs)
  · split at hs
    · cases hs
    · exact .inl (.advance hs)
  · split at hs
    · exact Option.some.inj hs ▸ .inr (.of_rouses (.of_inner rfl) rfl (.inl rfl))
    · cases hs
  split at hs
  · by_cases hdrive : ∃ w a', a = .pollDrive w a'
    · obtain ⟨w, a', rfl⟩ := hdrive
      simp only [Sys.applicationStep] at hs
      split at hs
      · exact .inl (.pollDrive hs)
      · cases hs
    by_cases hdrop : a = .dropDrive
    · subst hdrop
      simp only [Sys.applicationStep] at hs
      split at hs
      · exact .inl (.dropDrive hs)
      · cases hs
    by_cases hdriver : ∃ a', a = .dropDriver a'
    · obtain ⟨a', rfl⟩ := hdriver
      simp only [Sys.applicationStep] at hs
      split at hs
      · exact .inl (.dropDriver hs)
      · cases hs
    refine .inr (.application hs ?_ hdrop ?_)
    · rintro w a' rfl
      exact hdrive ⟨w, a', rfl⟩
    · rintro a' rfl
      exact hdriver ⟨a', rfl⟩
  · cases hs

-- ---------------------------------------------------------------------------
-- The vigil
-- ---------------------------------------------------------------------------

namespace Pc

/-- Where a `Park` is live. -/
def parking : Pc → Bool
  | .arming _ | .parked => true
  | _ => false

/-- Where the code has found nothing left to do and is bound to park. -/
def settled : Pc → Bool
  | .calling (.drive _) _ _ (.decide false false) => true
  | pc => pc.parking

theorem settled_of_parking {pc : Pc} (h : pc.parking = true) : pc.settled = true := by
  cases pc with
  | arming w => rfl
  | parked => rfl
  | _ => cases h

end Pc

def Event.wakes (w : Waker) : Event ws → Bool
  | .wake x _ => x = w
  | _ => false

/-- The waker of `Park`'s last poll, and whether it has been woken since. -/
abbrev LastPark := Option (Waker × Bool)

namespace Sys

/-- Takes in the wakes of a step. -/
def noteWakes (s s' : Sys ws) (last : LastPark) : LastPark :=
  last.map fun (w, woken) => (w, woken || (added s.world s'.world).any (Event.wakes w))

/-- A step into `Park::poll`'s arming has stored the waker. -/
def notePark (s : Sys ws) (_ : Action ws) (s' : Sys ws) (last : LastPark) : LastPark :=
  match s.pc, s'.pc with
  | .arming _, .arming _ => s.noteWakes s' last
  | _, .arming w => some (w, false)
  | _, _ => s.noteWakes s' last

end Sys

/-- The system beside a record of its last park. -/
def parkMachine (ws : WordSize) : Machine (Sys ws × LastPark) (Action ws) :=
  (systemMachine ws).watch none Sys.notePark

/-- `PopIoRingCompletion` does not fail. -/
def PopsSucceed (_ : Sys ws × LastPark) : Action ws → Prop
  | .advance a => a.pop = none
  | _ => True

/-- A slot holds the waker stored in it, or the waker has been taken and woken. -/
def Stored (slot : Option Waker) (w : Waker) (woken : Bool) : Prop :=
  slot = some w ∨ slot = none ∧ woken = true

/-- The armed event's slot, whose waker the pool thread may have yet to wake. -/
def Armed (event : ArmedEvent) (w : Waker) (woken : Bool) : Prop :=
  event.waker = some w ∨ event.waker = none ∧ (woken = true ∨ w ∈ event.poolWakes)

/-- What holds of a driver bound to park or parked. -/
structure Vigil (s : Sys ws) (last : LastPark) : Prop where
  sticky : s.event.signalled = true → s.event.waker = none
  slot : s.world.inner.driverWaker ≠ none → s.pc.parking = true ∨ s.pc = .halted
  unnudged : s.pc.parking = true → s.world.inner.driverWaker ≠ none → s.world.inner.nudged = false
  settled : s.pc.settled = true → s.world.inner.nudged = false →
    s.world.inner.pendingSubmit = false ∧ s.world.inner.shutdown = .running
  reaped : s.pc.settled = true → s.world.inner.ring.completions ≠ [] →
    s.event.osEvent = true ∨ s.event.signalled = true
  arming : ∀ w, s.pc = .arming w → ∃ woken, last = some (w, woken) ∧
    Stored s.world.inner.driverWaker w woken
  parked : s.pc = .parked → ∃ w woken, last = some (w, woken) ∧
    Stored s.world.inner.driverWaker w woken ∧ Armed s.event w woken

namespace Vigil

variable {last last' : LastPark}

/-- Away from the park its slot is empty. -/
theorem of_away (hsticky : s.event.signalled = true → s.event.waker = none)
    (hslot : s.world.inner.driverWaker = none) (hpc : s.pc.settled = false) : Vigil s last := by
  have hparking : s.pc.parking = false := by
    cases hparking : s.pc.parking with
    | false => rfl
    | true => exact absurd (hpc.symm.trans (Pc.settled_of_parking hparking)) nofun
  exact
    { sticky := hsticky
      slot := fun hne => absurd hslot hne
      unnudged := fun h => absurd (hparking.symm.trans h) nofun
      settled := fun h => absurd (hpc.symm.trans h) nofun
      reaped := fun h => absurd (hpc.symm.trans h) nofun
      arming := fun w h => by rw [h] at hpc; cases hpc
      parked := fun h => by rw [h] at hpc; cases hpc }

theorem slot_eq_none (h : Vigil s last) (hparking : s.pc.parking = false) (hpc : s.pc ≠ .halted) :
    s.world.inner.driverWaker = none := by
  refine Decidable.byContradiction fun hne => ?_
  rcases h.slot hne with hp | hp
  · cases hparking.symm.trans hp
  · exact hpc hp

end Vigil

namespace Rests

theorem notePark (h : Rests s s') (a : Action ws) (last : LastPark) :
    s.notePark a s' last = s.noteWakes s' last := by
  unfold Sys.notePark
  split
  · rfl
  · rename_i w hpc hnot
    rcases h.pc with heq | heq
    · exact (hnot w (heq ▸ hpc)).elim
    · cases hpc.symm.trans heq
  · rfl

theorem stored (h : Rests s s') {w : Waker} {woken : Bool}
    (hs : Stored s.world.inner.driverWaker w woken) : Stored s'.world.inner.driverWaker w
      (woken || (Sys.added s.world s'.world).any (Event.wakes w)) := by
  rcases h.slot with ⟨heq, -⟩ | ⟨hnone, hwoken⟩
  · rw [heq]
    exact hs.imp_right fun ⟨hnone, hw⟩ => ⟨hnone, by rw [hw, Bool.true_or]⟩
  · refine .inr ⟨hnone, ?_⟩
    rcases hs with hsome | ⟨-, hw⟩
    · rw [Bool.or_eq_true]
      exact .inr (List.any_eq_true.mpr ⟨_, hwoken w hsome, decide_eq_true rfl⟩)
    · rw [hw, Bool.true_or]

theorem pooled (h : Rests s s') {w : Waker} {woken : Bool}
    (hw : woken = true ∨ w ∈ s.event.poolWakes) :
    (woken || (Sys.added s.world s'.world).any (Event.wakes w)) = true ∨ w ∈ s'.event.poolWakes := by
  rcases hw with hw | hpool
  · exact .inl (by rw [hw, Bool.true_or])
  · rcases h.pool w hpool with hpool | hwoken
    · exact .inr hpool
    · refine .inl ?_
      rw [Bool.or_eq_true]
      exact .inr (List.any_eq_true.mpr ⟨_, hwoken, decide_eq_true rfl⟩)

theorem armed_kept (h : Rests s s') {w : Waker} {woken : Bool} (ha : Armed s.event w woken) :
    Armed s'.event w (woken || (Sys.added s.world s'.world).any (Event.wakes w)) := by
  rcases h.armed with ⟨heq, -⟩ | ⟨hnone, htaken⟩
  · exact ha.imp heq.trans fun ⟨hnone, hw⟩ => ⟨heq.trans hnone, h.pooled hw⟩
  · refine .inr ⟨hnone, ?_⟩
    rcases ha with hsome | ⟨-, hw⟩
    · exact .inr (htaken w hsome)
    · exact h.pooled hw

/-- Anyone else's step keeps the vigil. -/
theorem vigil (h : Rests s s') (hv : Vigil s last) : Vigil s' (s.noteWakes s' last) := by
  have hsticky : s'.event.signalled = true → s'.event.waker = none := by
    rcases h.armed with ⟨hwaker, hsignalled⟩ | ⟨hnone, -⟩
    · rw [hwaker, hsignalled]
      exact hv.sticky
    · exact fun _ => hnone
  have hslot : s'.world.inner.driverWaker ≠ none → s.world.inner.driverWaker ≠ none ∧
      s'.world.inner.nudged = s.world.inner.nudged := by
    rcases h.slot with ⟨heq, hnudged⟩ | ⟨hnone, -⟩
    · exact fun hne => ⟨heq ▸ hne, hnudged⟩
    · exact fun hne => absurd hnone hne
  rcases h.pc with hpc | hpc
  · exact
      { sticky := hsticky
        slot := by
          rw [hpc]
          exact fun hne => hv.slot (hslot hne).1
        unnudged := by
          rw [hpc]
          exact fun hp hne => (hslot hne).2.trans (hv.unnudged hp (hslot hne).1)
        settled := by
          rw [hpc]
          intro hp hnot
          obtain ⟨hnudged, hpending, hmode⟩ := h.owes hnot
          rw [hpending, hmode]
          exact hv.settled hp hnudged
        reaped := by
          rw [hpc]
          intro hp hne
          exact (h.completions hne).elim (fun hne => h.signal (hv.reaped hp hne)) .inl
        arming := by
          rw [hpc]
          intro w hw
          obtain ⟨woken, hlast, hstored⟩ := hv.arming w hw
          exact ⟨_, by rw [Sys.noteWakes, hlast]; rfl, h.stored hstored⟩
        parked := by
          rw [hpc]
          intro hp
          obtain ⟨w, woken, hlast, hstored, harmed⟩ := hv.parked hp
          exact ⟨w, _, by rw [Sys.noteWakes, hlast]; rfl, h.stored hstored, h.armed_kept harmed⟩ }
  · exact
      { sticky := hsticky
        slot := fun _ => .inr hpc
        unnudged := fun hp => by rw [hpc] at hp; cases hp
        settled := fun hp => by rw [hpc] at hp; cases hp
        reaped := fun hp => by rw [hpc] at hp; cases hp
        arming := fun w hp => by rw [hpc] at hp; cases hp
        parked := fun hp => by rw [hpc] at hp; cases hp }

end Rests

-- ---------------------------------------------------------------------------
-- The driver's own steps
-- ---------------------------------------------------------------------------

theorem Stored.mono {w : Waker} (h : Stored slot w woken) (b : Bool) : Stored slot w (woken || b) :=
  h.imp_right fun ⟨hnone, hw⟩ => ⟨hnone, by rw [hw, Bool.true_or]⟩

theorem Sys.notePark_arming {w : Waker} (hnot : ∀ x, s.pc ≠ .arming x) (hpc : s'.pc = .arming w)
    (a : Action ws) (last : LastPark) : s.notePark a s' last = some (w, false) := by
  unfold Sys.notePark
  split
  · exact absurd ‹_› (hnot _)
  · rename_i hpc' _
    cases hpc.symm.trans hpc'
    rfl
  · rename_i hne _
    exact (hne w hpc).elim

theorem Sys.notePark_away (hnot : ∀ x, s'.pc ≠ .arming x) (a : Action ws) (last : LastPark) :
    s.notePark a s' last = s.noteWakes s' last := by
  unfold Sys.notePark
  split
  · rfl
  · exact absurd ‹_› (hnot _)
  · rfl

namespace Vigil

variable {last last' : LastPark}

theorem beginPass (hsticky : s.event.signalled = true → s.event.waker = none)
    (hslot : s.world.inner.driverWaker = none) (w : Waker) (a : Answers ws) :
    Vigil (s.beginPass w a) last :=
  .of_away hsticky ((congrArg Prod.snd (s.world.inner.wakers_submitPending a)).trans hslot) rfl

theorem beginDrain (hnone : NoneDescribed s.world.inner.slab)
    (hsticky : s.event.signalled = true → s.event.waker = none)
    (hslot : s.world.inner.driverWaker = none) (task : Task) (steps : Nat) (a : Answers ws) :
    Vigil (s.beginDrain task steps a) last := by
  unfold Sys.beginDrain
  split
  · exact .of_away hsticky hslot rfl
  · exact .of_away hsticky ((congrArg Prod.snd (World.wakers_drainBegin hnone a)).trans hslot) rfl

/-- A poll of `Park` that finds no nudge stores its waker. -/
theorem parkPoll (h : Vigil s last) (hsettled : s.pc.settled = true) (hnot : ∀ x, s.pc ≠ .arming x)
    (w : Waker) (a : Action ws) : Vigil (s.parkPoll w) (s.notePark a (s.parkPoll w) last) := by
  cases hnudged : s.world.inner.nudged with
  | true =>
    have hpoll : s.parkPoll w = { s with event := { s.event with waker := none } }.freeStep
        (Sys.dropWakers
          (s.world.setInner { s.world.inner with nudged := false, driverWaker := none })
          (s.world.inner.driverWaker.toList ++ s.event.waker.toList)) (.disarming w) := by
      simp only [Sys.parkPoll, hnudged, if_true]
    rw [hpoll]
    exact .of_away (fun _ => rfl) rfl rfl
  | false =>
    have hpoll : s.parkPoll w = s.freeStep (Sys.dropWakers
        (s.world.setInner { s.world.inner with driverWaker := some w })
        s.world.inner.driverWaker.toList) (.arming w) := by
      simp only [Sys.parkPoll, hnudged, Bool.false_eq_true, if_false]
    rw [hpoll, Sys.notePark_arming hnot rfl]
    exact
      { sticky := h.sticky
        slot := fun _ => .inl rfl
        unnudged := fun _ _ => hnudged
        settled := fun _ _ => h.settled hsettled hnudged
        reaped := fun _ hne => h.reaped hsettled hne
        arming := fun x hx => by
          cases hx
          exact ⟨false, rfl, .inl rfl⟩
        parked := nofun }

/-- Arming consumes a signal, or stores the waker with the event. -/
theorem pollSignalled {w : Waker} (h : Vigil s last) (hpc : s.pc = .arming w) :
    Vigil (s.pollSignalled w) (s.noteWakes (s.pollSignalled w) last) := by
  have hparking : s.pc.parking = true := by rw [hpc]; rfl
  have hsettled := Pc.settled_of_parking hparking
  obtain ⟨woken, hlast, hstored⟩ := h.arming w hpc
  unfold Sys.pollSignalled
  dsimp only
  cases hsignalled : s.event.signalled with
  | true =>
    simp only [if_true]
    exact .of_away nofun rfl rfl
  | false =>
    simp only [Bool.false_eq_true, if_false]
    exact
      { sticky := nofun
        slot := fun _ => .inl rfl
        unnudged := fun _ hne => h.unnudged hparking hne
        settled := fun _ hnot => h.settled hsettled hnot
        reaped := fun _ hne => hsignalled ▸ h.reaped hsettled hne
        arming := nofun
        parked := fun _ => by
          rw [Sys.noteWakes, hlast]
          exact ⟨w, _, rfl, hstored.mono _, .inl rfl⟩ }

/-- A pass that ends with nothing left to do has emptied the completion queue. -/
theorem endReaping {world : World ws} (hb : Books s)
    (hsticky : s.event.signalled = true → s.event.waker = none)
    (hslot : s.world.inner.driverWaker = none) (hreap : s.world.reapOne none = (world, none))
    (task : Task) (loop : Loop) (wakers : List Waker) :
    Vigil ({ s with world }.endReaping task loop wakers) last := by
  have hempty : world.inner.ring.completions = [] ∧ world.inner.driverWaker = none := by
    refine ⟨?_, ?_⟩
    · unfold World.reapOne at hreap
      split at hreap
      · rename_i e hpop
        obtain ⟨rfl, -⟩ := Prod.mk.inj hreap
        refine (hb.completions_of_closed ?_).2.2
        unfold IoRing.popCompletion IoRing.ensureOpen at hpop
        cases hc : s.world.inner.ring.closed with
        | true => rfl
        | false =>
          rw [hc] at hpop
          cases hempty : s.world.inner.ring.completions <;> simp [hempty] at hpop
      · rename_i hpop
        obtain ⟨rfl, -⟩ := Prod.mk.inj hreap
        unfold IoRing.popCompletion IoRing.ensureOpen at hpop
        cases hempty : s.world.inner.ring.completions with
        | nil => rfl
        | cons cqe rest =>
          cases hc : s.world.inner.ring.closed <;> simp [hc, hempty] at hpop
      · dsimp only at hreap
        split at hreap
        · cases hreap
        · split at hreap
          · cases hreap
          · cases hreap
    · have hwakers := congrArg Prod.snd (s.world.wakers_reapOne none)
      rw [hreap] at hwakers
      exact hwakers.trans hslot
  cases loop with
  | drain steps =>
    refine .of_away hsticky ?_ ?_
    · exact (congrArg Prod.snd (world.inner.wakers_reportSlowDrain _)).trans hempty.2
    · cases task <;> rfl
  | pass =>
    have hslot' : ({ s with world }.endReaping task .pass wakers).world.inner.driverWaker = none := hempty.2
    exact
      { sticky := hsticky
        slot := fun hne => absurd hslot' hne
        unnudged := nofun
        settled := fun hsettled _ => by
          cases task with
          | drop => cases hsettled
          | drive w =>
            simp only [Sys.endReaping, Sys.freeStep, DriverInner.takeReports] at hsettled ⊢
            by_cases hmode : world.inner.shutdown = .running
            · cases hpending : world.inner.pendingSubmit with
              | false => exact ⟨rfl, hmode⟩
              | true => simp [Pc.settled, Pc.parking, hpending] at hsettled
            · simp [Pc.settled, Pc.parking, hmode] at hsettled
        reaped := fun _ hne => absurd hempty.1 hne
        arming := nofun
        parked := nofun }

theorem closing (hsticky : s.event.signalled = true → s.event.waker = none)
    (hslot : s.world.inner.driverWaker = none) (task : Task) (a : Answers ws) :
    Vigil (s.closing task a) last := by
  unfold Sys.closing World.closeAndRelease
  cases World.closeLoop s.world.inner.ring a.closeFails closeAttempts with
  | none => exact .of_away hsticky hslot rfl
  | some ring =>
    have hinner := World.release_inner (s.world.setInner { s.world.inner with ring })
    exact .of_away hsticky (congrArg DriverInner.driverWaker hinner) rfl

/-- Waking and reporting on the way. -/
theorem calling (h : Vigil s last) (hpc : s.pc = .calling task wakers reports next)
    (hinner : s'.world.inner = s.world.inner) (hevent : s'.event = s.event)
    (hpc' : s'.pc = .calling task wakers' reports' next) : Vigil s' last' := by
  have hslot := h.slot_eq_none (by rw [hpc]; rfl) (by simp [hpc])
  have hsettled : s'.pc.settled = s.pc.settled := by
    rw [hpc, hpc']
    cases task with
    | drop => rfl
    | drive w =>
      cases next with
      | decide shuttingDown retryOwed => cases shuttingDown <;> cases retryOwed <;> rfl
      | _ => rfl
  exact
    { sticky := hevent ▸ h.sticky
      slot := fun hne => absurd (hinner ▸ hslot) hne
      unnudged := fun hp => by rw [hpc'] at hp; cases hp
      settled := by
        rw [hsettled, hinner]
        exact h.settled
      reaped := by
        rw [hsettled, hinner, hevent]
        exact h.reaped
      arming := by simp [hpc']
      parked := by simp [hpc'] }

theorem resume (hnone : NoneDescribed s.world.inner.slab) (h : Vigil s last)
    (hpc : s.pc = .calling task [] [] next) (a : Answers ws) (act : Action ws) :
    Vigil (s.resume task a next) (s.notePark act (s.resume task a next) last) := by
  have hnot : ∀ x, s.pc ≠ .arming x := by simp [hpc]
  have hslot := h.slot_eq_none (by rw [hpc]; rfl) (by simp [hpc])
  cases next with
  | decide shuttingDown retryOwed =>
    cases task with
    | drop =>
      simp only [Sys.resume]
      exact .beginDrain hnone h.sticky hslot ..
    | drive w =>
      simp only [Sys.resume]
      split
      · exact .beginDrain hnone h.sticky hslot ..
      rename_i hrunning
      split
      · exact .of_away h.sticky hslot rfl
      · rename_i howed
        refine h.parkPoll ?_ hnot w act
        rw [hpc, Bool.eq_false_iff.mpr hrunning, Bool.eq_false_iff.mpr howed]
        rfl
  | drained steps outcome =>
    cases outcome with
    | progressing =>
      cases task with
      | drop =>
        simp only [Sys.resume]
        exact .beginDrain hnone h.sticky hslot ..
      | drive w => exact .of_away h.sticky hslot rfl
    | quiescent => exact closing h.sticky hslot task a
    | unsubmittableResidue => exact closing h.sticky hslot task a
  | finished =>
    cases task with
    | drop => exact .of_away h.sticky hslot rfl
    | drive w => exact .of_away h.sticky hslot rfl

theorem advance (hb : Books s) (h : Vigil s last) {a : Answers ws} (hpop : a.pop = none)
    (hs : s.advance a = some s') : Vigil s' (s.notePark (.advance a) s' last) := by
  unfold Sys.advance at hs
  split at hs
  · rename_i task loop wakers hpc
    have hslot := h.slot_eq_none (by rw [hpc]; rfl) (by simp [hpc])
    rw [hpop] at hs
    split at hs
    · rename_i hresult
      obtain rfl := Option.some.inj hs
      have hwakers := congrArg Prod.snd (s.world.wakers_reapOne none)
      rw [hresult] at hwakers
      exact .of_away h.sticky (hwakers.trans hslot) rfl
    · rename_i hresult
      obtain rfl := Option.some.inj hs
      exact .endReaping hb h.sticky hslot hresult ..
  · rename_i task w rest reports next hpc
    obtain rfl := Option.some.inj hs
    exact h.calling hpc rfl rfl rfl
  · rename_i task e rest next hpc
    obtain rfl := Option.some.inj hs
    refine h.calling hpc ?_ rfl rfl
    simp only [Sys.freeStep]
    split
    · rfl
    · rfl
  · rename_i task next hpc
    obtain rfl := Option.some.inj hs
    exact h.resume hb.noneDescribed hpc a _
  · rename_i w hpc
    obtain rfl := Option.some.inj hs
    rw [Sys.notePark_away]
    · exact h.pollSignalled hpc
    · intro x
      unfold Sys.pollSignalled
      dsimp only
      split
      · rintro ⟨⟩
      · rintro ⟨⟩
  · obtain rfl := Option.some.inj hs
    exact .beginPass (fun _ => rfl) rfl _ a
  · rename_i task wakers reports hpc
    obtain rfl := Option.some.inj hs
    have hslot := h.slot_eq_none (by rw [hpc]; rfl) (by simp [hpc])
    exact .of_away h.sticky hslot (by cases task <;> rfl)
  · cases hs

theorem pollDrive (hnone : NoneDescribed s.world.inner.slab) (h : Vigil s last) {w : Waker}
    {a : Answers ws} (hs : s.pollDrive w a = some s') :
    Vigil s' (s.notePark (.pollDrive w a) s' last) := by
  unfold Sys.pollDrive at hs
  split at hs
  · rename_i hpc
    have hslot := h.slot_eq_none (by rw [hpc]; rfl) (by simp [hpc])
    exact Option.some.inj hs ▸ .beginPass h.sticky hslot w a
  · rename_i hpc
    have hslot := h.slot_eq_none (by rw [hpc]; rfl) (by simp [hpc])
    exact Option.some.inj hs ▸ .beginPass h.sticky hslot w a
  · rename_i steps hpc
    have hslot := h.slot_eq_none (by rw [hpc]; rfl) (by simp [hpc])
    exact Option.some.inj hs ▸ .beginDrain hnone h.sticky hslot ..
  · rename_i hpc
    exact Option.some.inj hs ▸ h.parkPoll (by rw [hpc]; rfl) (by simp [hpc]) w _
  · cases hs

theorem dropDrive (h : Vigil s last) (hs : s.dropDrive = some s') : Vigil s' last' := by
  unfold Sys.dropDrive at hs
  split at hs
  · rename_i hpc
    have hslot := h.slot_eq_none (by rw [hpc]; rfl) (by simp [hpc])
    exact Option.some.inj hs ▸ .of_away h.sticky hslot rfl
  · rename_i hpc
    have hslot := h.slot_eq_none (by rw [hpc]; rfl) (by simp [hpc])
    exact Option.some.inj hs ▸ .of_away h.sticky hslot rfl
  · exact Option.some.inj hs ▸ .of_away (fun _ => rfl) rfl rfl
  · cases hs

theorem dropDriver (hnone : NoneDescribed s.world.inner.slab) (h : Vigil s last) {a : Answers ws}
    (hs : s.dropDriver a = some s') : Vigil s' last' := by
  unfold Sys.dropDriver at hs
  split at hs
  · rename_i hpc
    have hslot := h.slot_eq_none (by rw [hpc]; rfl) (by simp [hpc])
    split at hs
    · exact Option.some.inj hs ▸ .of_away h.sticky hslot rfl
    · obtain rfl := Option.some.inj hs
      exact beginDrain (s := { s with world := s.world.setInner { s.world.inner with
        shutdown := s.world.inner.shutdown.max .immediate } }) hnone h.sticky hslot ..
  · cases hs

theorem step (hb : Books s) (h : Vigil s last) (hok : PopsSucceed (s, last) a)
    (hs : s.step a = some s') : Vigil s' (s.notePark a s' last) := by
  rcases step_rests hs with hdrives | hrests
  · clear hs
    cases hdrives with
    | advance hs => exact h.advance hb hok hs
    | pollDrive hs => exact h.pollDrive hb.noneDescribed hs
    | dropDrive hs => exact h.dropDrive hs
    | dropDriver hs => exact h.dropDriver hb.noneDescribed hs
  · rw [hrests.notePark]
    exact hrests.vigil h

end Vigil

theorem vigil_of_reachable (h : (parkMachine ws).ReachableBy PopsSucceed p) : Vigil p.1 p.2 := by
  refine h.invariant_watch (fun s hs => ?_) fun s last a s' hr hi hok hs =>
    hi.step (books_of_reachable hr) hok hs
  refine .of_away ?_ ?_ ?_
  · rw [hs.event]
    nofun
  · rw [hs.inner]
    rfl
  · rw [hs.pc]
    rfl

-- ---------------------------------------------------------------------------
-- The driver never sleeps on work
-- ---------------------------------------------------------------------------

/-- Nothing is left for the driver to do. -/
structure NothingOwed (s : Sys ws) : Prop where
  nudged : s.world.inner.nudged = false
  signalled : s.event.signalled = false
  completions : s.world.inner.ring.completions = []
  pendingSubmit : s.world.inner.pendingSubmit = false
  running : s.world.inner.shutdown = .running

/-- Neither waker stored by `Park`'s last poll has been taken and woken, and the
pool thread is not about to take or wake one. -/
structure Undisturbed (s : Sys ws) (w : Waker) (woken : Bool) : Prop where
  slot : ¬ (s.world.inner.driverWaker = none ∧ woken = true)
  armed : ¬ (s.event.waker = none ∧ (woken = true ∨ w ∈ s.event.poolWakes))
  quiet : s.event.osEvent = false

theorem Vigil.nothingOwed {last : LastPark} (h : Vigil s last) (hpc : s.pc = .parked)
    (hdriver : s.world.inner.driverWaker ≠ none) (harmed : s.event.waker ≠ none)
    (hquiet : s.event.osEvent = false) : NothingOwed s := by
  have hparking : s.pc.parking = true := by rw [hpc]; rfl
  have hsettled := Pc.settled_of_parking hparking
  have hnudged := h.unnudged hparking hdriver
  obtain ⟨hpending, hmode⟩ := h.settled hsettled hnudged
  have hsignalled : s.event.signalled = false := by
    cases hsig : s.event.signalled with
    | false => rfl
    | true => exact absurd (h.sticky hsig) harmed
  refine ⟨hnudged, hsignalled, ?_, hpending, hmode⟩
  refine Decidable.byContradiction fun hne => ?_
  rcases h.reaped hsettled hne with hos | hsig
  · cases hquiet.symm.trans hos
  · cases hsignalled.symm.trans hsig

/-- For every interleaving in which pops succeed: while the driver is parked,
each of the two slots holds the waker of the last poll, or that has been taken
and woken, or is with the pool thread to be woken; if neither has gone that way
and the pool thread has nothing to take, nothing is owed. The driver's slot is
occupied only while a `Park` is live, or where a panic or an abort has ended the
run. -/
theorem parked_owes_nothing (h : (parkMachine ws).ReachableBy PopsSucceed (s, last)) :
    (s.pc = .parked → ∃ w woken, last = some (w, woken) ∧
      Stored s.world.inner.driverWaker w woken ∧ Armed s.event w woken ∧
      (Undisturbed s w woken → NothingOwed s)) ∧
    (s.world.inner.driverWaker ≠ none → s.pc.parking = true ∨ s.pc = .halted) := by
  have hv : Vigil s last := vigil_of_reachable h
  refine ⟨fun hpc => ?_, hv.slot⟩
  obtain ⟨w, woken, hlast, hstored, harmed⟩ := hv.parked hpc
  refine ⟨w, woken, hlast, hstored, harmed, fun hu => hv.nothingOwed hpc ?_ ?_ hu.quiet⟩
  · rcases hstored with hsome | htaken
    · simp [hsome]
    · exact absurd htaken hu.slot
  · rcases harmed with hsome | htaken
    · simp [hsome]
    · exact absurd htaken hu.armed

def popsSucceed (_ : Sys ws × LastPark) : Action ws → Bool
  | .advance a => a.pop = none
  | _ => true

theorem PopsSucceed.of_check (p : Sys ws × LastPark) (a : Action ws) (h : popsSucceed p a) :
    PopsSucceed p a := by
  cases a with
  | advance a => exact of_decide_eq_true (p := a.pop = none) h
  | _ => trivial

/-- A driver that has handed one read over and parked with two wakers in turn. -/
theorem parked_owes_nothing_idle : ∃ s : Sys .w64, s.pc = .parked ∧
    s.world.inner.driverWaker = some 9 ∧ s.event.waker = some 9 ∧
    s.world.inner.ring.inflight ≠ [] ∧ NothingOwed s := by
  obtain ⟨s, last, hrun, hpc, hslot, harmed, hquiet, hinflight⟩ : ∃ s last,
      ((parkMachine .w64).guarded popsSucceed).run (.new, none)
        [.start (.read 10 (.owned { address := 4096, capacity := 64, len := 0 }) 16 0) .willing,
          .pollDrive 7 .willing, .advance .willing, .advance .willing, .advance .willing,
          .advance .willing, .advance .willing, .advance .willing, .pollDrive 9 .willing,
          .advance .willing] = some (s, last) ∧ s.pc = .parked ∧
      s.world.inner.driverWaker = some 9 ∧ s.event.waker = some 9 ∧ s.event.osEvent = false ∧
      s.world.inner.ring.inflight ≠ [] :=
    ⟨_, _, rfl, rfl, rfl, rfl, rfl, nofun⟩
  have hreach : ((parkMachine .w64).guarded popsSucceed).Reachable (s, last) :=
    Machine.Reachable.run (s := (Sys.new, none)) (.init ⟨Sys.new_initial, rfl⟩) hrun
  obtain ⟨w, woken, -, -, -, hnothing⟩ :=
    (parked_owes_nothing (hreach.of_guarded PopsSucceed.of_check)).1 hpc
  refine ⟨s, hpc, hslot, harmed, hinflight, hnothing ⟨?_, ?_, hquiet⟩⟩
  · simp [hslot]
  · simp [harmed]

end WinIoring.Runtime
