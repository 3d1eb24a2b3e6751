import WinIoring.Machine.Odometer
import WinIoring.Runtime.Sequential

/-!
# Where sequential operations start

A file's cursor is an odometer: a sequential operation starts at what it reads,
and moves it when its future delivers its result, not before. The file is free for
the next one as soon as the completion is reaped, so what an operation starts at is
settled by the results that have been delivered, not by those there are.
-/

namespace WinIoring.Runtime

open Slab WinIoring.Machine WinIoring.Machine.Odometer

variable {ws : WordSize} {s s' s₀ : Sys ws} {w w' : World ws}

-- ---------------------------------------------------------------------------
-- Laws from one start
-- ---------------------------------------------------------------------------

/-- A law that strides keep where another holds. -/
structure Steady (ok : Sys ws → Action ws → Prop) (J I : Sys ws → Prop) : Prop where
  move : ∀ {b} s s', Books s → J s → I s → Move b s s' → I s'
  accepted : ∀ s s' t p e f request answers, Books s → J s → I s → ok s (.start request answers) →
    request.Made p → Accepted s s' t p e f → I s'
  setCursor : ∀ s file position, Books s → J s → I s → ok s (.setCursor file position) →
    I (s.withWorld (s.world.setCursor file position))

theorem Steady.moves {ok : Sys ws → Action ws → Prop} {J I : Sys ws → Prop} (hj : Kept (fun _ _ => True) J)
    (hi : Steady ok J I) (hb : Books s) (hjs : J s) (h : I s) (hm : Moves b s s') : I s' := by
  suffices Books s' ∧ J s' ∧ I s' from this.2.2
  induction hm with
  | refl => exact ⟨hb, hjs, h⟩
  | tail _ hlast ih =>
    exact ⟨ih.1.move hlast, hj.move _ _ ih.1 ih.2.1 hlast, hi.move _ _ ih.1 ih.2.1 ih.2.2 hlast⟩

/-- The rule for the runs of one start state. -/
theorem Steady.reachable {ok : Sys ws → Action ws → Prop} {J I : Sys ws → Prop} (hj : Kept (fun _ _ => True) J)
    (hi : Steady ok J I) (hinit : s₀.Initial) (hstart : I s₀)
    (h : ((systemMachine ws).startingAt s₀).ReachableBy ok s) : I s := by
  refine h.invariant (by rintro s rfl; exact hstart) fun s a s' hr h ha hs => ?_
  have hr := Machine.Reachable.of_startingAt (.init hinit) hr.reachable
  have hb := books_of_reachable hr
  have hjs := hj.reachable hr
  cases step_stride hb.noneDescribed hs with
  | moves hm _ => exact hi.moves hj hb hjs h hm
  | accepted hmade hacc => exact hi.accepted _ _ _ _ _ _ _ _ hb hjs h ha hmade hacc
  | setCursor heq => exact heq ▸ hi.setCursor s _ _ hb hjs h ha

-- ---------------------------------------------------------------------------
-- A file's odometer
-- ---------------------------------------------------------------------------

/-- What an event is to a file's odometer. Whose result it is, the odometer
knows. -/
def Event.tick (f : FileId) : Event ws → Option (Tick SlotId)
  | .seqStarted g σ _ => if g = f then some (.started σ) else none
  | .delivered σ completed => some (.settled σ completed.1.toOption)
  | .futureDropped σ _ => some (.settled σ none)
  | .setCursor g position => if g = f then some (.set position) else none
  | _ => none

def ticks (f : FileId) (trace : List (Event ws)) : List (Tick SlotId) := trace.filterMap (Event.tick f)

/-- Every sequential operation started at what its file's odometer read. -/
def Offsets (start : FileId → Nat) : List (Event ws) → Prop
  | [] => True
  | .seqStarted f _ offset :: es => offset = (read u64Max (start f) (ticks f es)).position ∧ Offsets start es
  | _ :: es => Offsets start es

structure Metered (start : FileId → Nat) (s : Sys ws) : Prop where
  once : ∀ f, Once (ticks f s.world.trace)
  started : ∀ f σ, σ ∈ starts (ticks f s.world.trace) → σ < s.world.nextSlot
  settled : ∀ f σ, σ ∈ settles (ticks f s.world.trace) → σ < s.world.nextSlot ∧ s.futures σ = none
  futures : ∀ f σ, (∃ future, s.futures σ = some future ∧ future.sequential = some f) ↔
    σ ∈ starts (ticks f s.world.trace) ∧ σ ∉ settles (ticks f s.world.trace)
  cursor : ∀ f, (s.world.files f).cursor = (read u64Max (start f) (ticks f s.world.trace)).position
  offsets : Offsets start s.world.trace

theorem ticks_append (f : FileId) (es es' : List (Event ws)) : ticks f (es ++ es') = ticks f es ++ ticks f es' :=
  List.filterMap_append ..

theorem ticks_started (f : FileId) (after : List (Event ws)) (σ : SlotId) (offset : Nat) (before : List (Event ws)) :
    ticks f (after ++ .seqStarted f σ offset :: before) = ticks f after ++ .started σ :: ticks f before := by
  have htick : Event.tick f (.seqStarted f σ offset : Event ws) = some (.started σ) := if_pos rfl
  rw [ticks_append, ticks, ticks, List.filterMap_cons_some htick, ticks]

theorem tick_set {f : FileId} {e : Event ws} (h : e.tick f = some (.set position)) : e = .setCursor f position := by
  cases e with
  | setCursor g position' =>
    simp only [Event.tick] at h
    split at h
    · rename_i hg
      cases h
      rw [hg]
    · cases h
  | seqStarted g σ offset =>
    simp only [Event.tick] at h
    split at h <;> cases h
  | _ => cases h

theorem Offsets.append {start : FileId → Nat} {es es' : List (Event ws)} (h : Offsets start es')
    (hes : ∀ e ∈ es, ∀ f, e.tick f = none) : Offsets start (es ++ es') := by
  induction es with
  | nil => exact h
  | cons e es ih =>
    have hrest := ih fun e he => hes e (List.mem_cons_of_mem _ he)
    have hnone := hes e List.mem_cons_self
    cases e with
    | seqStarted f σ offset => simpa [Event.tick] using hnone f
    | _ => exact hrest

theorem Offsets.at {start : FileId → Nat} {es es' : List (Event ws)} {f : FileId} {σ : SlotId} {offset : Nat}
    (h : Offsets start (es ++ .seqStarted f σ offset :: es')) :
    offset = (read u64Max (start f) (ticks f es')).position := by
  induction es with
  | nil => exact h.1
  | cons e es ih =>
    cases e with
    | seqStarted => exact ih h.2
    | _ => exact ih h

namespace World

theorem cursor_fill (w : World ws) (p : OpPayload) (completed : CompletedOp) (cause : Cause ws) (f : FileId) :
    ((w.fill p completed cause).1.files f).cursor = (w.files f).cursor := by
  rw [files_fill]
  split <;> rfl

theorem cursor_resolveCompletion (w : World ws) (p : OpPayload) (cqe : Cqe ws) (f : FileId) :
    ((w.resolveCompletion p cqe).1.files f).cursor = (w.files f).cursor := by
  simp only [resolveCompletion, cursor_fill]
  rw [files_raiseTransfer, files_settleRegistration]

theorem cursor_release (w : World ws) (f : FileId) : (w.release.1.files f).cursor = (w.files f).cursor := by
  rw [w.release_frame.2.2.2]
  exact w.abandonAll_induction (P := fun _ w' => (w'.files f).cursor = (w.files f).cursor) rfl
    fun _ _ _ h => (cursor_fill ..).trans h

theorem nextSlot_abandonAll (w : World ws) : w.abandonAll.nextSlot = w.nextSlot :=
  w.abandonAll_induction (P := fun _ w' => w'.nextSlot = w.nextSlot) rfl fun _ _ _ h =>
    (nextSlot_resolveAbandoned ..).trans h

theorem cursor_advanceOnSuccess (w : World ws) (file : Option FileId) (result : Except Error Transferred) (f : FileId) :
    ((w.advanceOnSuccess file result).files f).cursor = if file = some f then
      (result.toOption.map fun n => min ((w.files f).cursor + n) u64Max).getD (w.files f).cursor
    else (w.files f).cursor := by
  cases file with
  | none => rfl
  | some g =>
    cases result with
    | error e => exact (ite_self _).symm
    | ok n =>
      by_cases hg : g = f
      · simp [advanceOnSuccess, hg, Except.toOption]
      · simp [advanceOnSuccess, hg, Ne.symm hg]

/-- A delivered result moves the cursor of the file it was for, if it is a success. -/
theorem cursor_deliver (w : World ws) (σ : SlotId) (future : Future ws) (completed : CompletedOp) (f : FileId) :
    ((w.deliver σ future completed).1.files f).cursor = if future.sequential = some f then
      (completed.1.toOption.map fun n => min ((w.files f).cursor + n) u64Max).getD (w.files f).cursor
    else (w.files f).cursor := by
  obtain ⟨registries, hrecord⟩ := recordRead_eq
    ((w.setResult σ { w.results σ with completed := none, awaited := false }).emit (.delivered σ completed)) future
    completed
  simp only [deliver, cursor_advanceOnSuccess]
  rw [hrecord]
  rfl

end World

namespace Metered

variable {start : FileId → Nat}

/-- Code that logs nothing an odometer counts. -/
theorem idle (h : Metered start s) (es : List (Event ws)) (htrace : s'.world.trace = es ++ s.world.trace)
    (hes : ∀ e ∈ es, ∀ f, e.tick f = none) (hfutures : s'.futures = s.futures)
    (hnext : s'.world.nextSlot = s.world.nextSlot)
    (hcursor : ∀ f, (s'.world.files f).cursor = (s.world.files f).cursor) : Metered start s' := by
  have hticks : ∀ f, ticks f s'.world.trace = ticks f s.world.trace := by
    intro f
    have hnone : ticks f es = [] := List.filterMap_eq_nil_iff.mpr fun e he => hes e he f
    rw [htrace, ticks_append, hnone, List.nil_append]
  constructor
  · simpa only [hticks] using h.once
  · simpa only [hticks, hnext] using h.started
  · simpa only [hticks, hnext, hfutures] using h.settled
  · simpa only [hticks, hfutures] using h.futures
  · simpa only [hticks, hcursor] using h.cursor
  · exact htrace ▸ h.offsets.append hes

/-- A future goes, with what its result counts for. -/
theorem settle (h : Metered start s) {σ : SlotId} {future : Future ws} {n : Option Nat} {e : Event ws}
    (hfuture : s.futures σ = some future) (hσ : σ < s.world.nextSlot) (htrace : s'.world.trace = e :: s.world.trace)
    (htick : ∀ f, e.tick f = some (.settled σ n)) (hfutures : s'.futures = Function.update s.futures σ none)
    (hnext : s'.world.nextSlot = s.world.nextSlot) (hcursor : ∀ f, (s'.world.files f).cursor =
      if future.sequential = some f then
        (n.map fun n => min ((s.world.files f).cursor + n) u64Max).getD (s.world.files f).cursor
      else
        (s.world.files f).cursor) : Metered start s' := by
  have hticks : ∀ f, ticks f s'.world.trace = .settled σ n :: ticks f s.world.trace := by
    intro f
    rw [htrace, ticks, List.filterMap_cons_some (htick f), ticks]
  have hfresh : ∀ f, σ ∉ settles (ticks f s.world.trace) := by
    intro f hmem
    cases (h.settled f σ hmem).2.symm.trans hfuture
  have hpending : ∀ f, σ ∈ (read u64Max (start f) (ticks f s.world.trace)).pending ↔ future.sequential = some f := by
    intro f
    rw [(pending_spec (h.once f)).2 σ, ← h.futures f σ, hfuture]
    simp
  refine ⟨fun f => ?_, fun f τ hτ => ?_, fun f τ hτ => ?_, fun f τ => ?_, fun f => ?_, ?_⟩
  · rw [hticks]
    exact ⟨hfresh f, h.once f⟩
  · rw [hticks] at hτ
    exact hnext ▸ h.started f τ hτ
  · rw [hticks] at hτ
    rw [hnext, hfutures, Function.update_apply]
    rcases List.mem_cons.mp hτ with rfl | hτ
    · exact ⟨hσ, if_pos rfl⟩
    · obtain ⟨hlt, hnone⟩ := h.settled f τ hτ
      exact ⟨hlt, by rw [hnone, ite_self]⟩
  · rw [hticks, hfutures, Function.update_apply]
    simp only [starts, settles, List.mem_cons, not_or]
    by_cases hτ : τ = σ
    · simp [hτ]
    · simpa [hτ] using h.futures f τ
  · rw [hticks, hcursor]
    simp only [Odometer.read, Reading.turn, hpending]
    split
    · rw [h.cursor]
    · exact h.cursor f
  · rw [htrace]
    have hnot : ∀ f τ offset, e ≠ .seqStarted f τ offset := by
      rintro f τ offset rfl
      simpa [Event.tick] using htick f
    cases e with
    | seqStarted f τ offset => exact absurd rfl (hnot f τ offset)
    | _ => exact h.offsets

theorem ticks_accepted (ha : Accepted s s' t p e future) (f : FileId) : ticks f s'.world.trace =
    if p.sequential = some f then .started s.world.nextSlot :: ticks f s.world.trace else ticks f s.world.trace := by
  rw [ha.trace]
  cases p.sequential with
  | none => simp [ticks, Event.tick, List.filterMap_cons]
  | some g => by_cases hg : g = f <;> simp [ticks, Event.tick, List.filterMap_cons, hg]

theorem accept (h : Metered start s) (ha : Accepted s s' t p e future) : Metered start s' := by
  have hstarts : ∀ f, s.world.nextSlot ∉ starts (ticks f s.world.trace) := fun f hmem =>
    Nat.lt_irrefl _ (h.started f _ hmem)
  have hsettles : ∀ f, s.world.nextSlot ∉ settles (ticks f s.world.trace) := fun f hmem =>
    Nat.lt_irrefl _ (h.settled f _ hmem).1
  have hticks := ticks_accepted ha
  have hposition : ∀ f, (read u64Max (start f) (ticks f s'.world.trace)).position =
      (read u64Max (start f) (ticks f s.world.trace)).position := by
    intro f
    rw [hticks]
    split <;> rfl
  refine ⟨fun f => ?_, fun f σ hσ => ?_, fun f σ hσ => ?_, fun f σ => ?_, fun f => ?_, ?_⟩
  · rw [hticks]
    split
    · exact ⟨hstarts f, hsettles f, h.once f⟩
    · exact h.once f
  · rw [ha.nextSlot]
    rw [hticks] at hσ
    split at hσ
    · rcases List.mem_cons.mp hσ with rfl | hσ
      · exact Nat.lt_succ_self _
      · exact Nat.lt_succ_of_lt (h.started f σ hσ)
    · exact Nat.lt_succ_of_lt (h.started f σ hσ)
  · have hold : σ ∈ settles (ticks f s.world.trace) := by
      rw [hticks] at hσ
      split at hσ
      · exact hσ
      · exact hσ
    obtain ⟨hlt, hnone⟩ := h.settled f σ hold
    rw [ha.nextSlot, ha.futures, Function.update_of_ne (Nat.ne_of_lt hlt)]
    exact ⟨Nat.lt_succ_of_lt hlt, hnone⟩
  · rw [ha.futures, hticks]
    by_cases hσ : σ = s.world.nextSlot
    · subst hσ
      simp only [Function.update_self, Option.some.injEq, exists_eq_left', ha.sequential]
      split
      · simp [starts, settles, *]
      · simp [*]
    · rw [Function.update_of_ne hσ, h.futures f σ]
      split
      · simp [starts, settles, hσ]
      · rfl
  · rw [hposition, (ha.files f).1]
    exact h.cursor f
  · rw [ha.trace]
    cases hsequential : p.sequential with
    | none => exact h.offsets
    | some g => exact ⟨h.cursor g, h.offsets⟩

theorem ticks_setCursor (w : World ws) (file : FileId) (position : Nat) (f : FileId) :
    ticks f (w.setCursor file position).trace =
      if file = f then .set position :: ticks f w.trace else ticks f w.trace := by
  have htrace : (w.setCursor file position).trace = .setCursor file position :: w.trace := rfl
  rw [htrace]
  by_cases hf : file = f <;> simp [ticks, Event.tick, hf]

theorem setCursor (h : Metered start s) (file : FileId) (position : Nat) :
    Metered start (s.withWorld (s.world.setCursor file position)) := by
  have hticks := ticks_setCursor s.world file position
  have hstarts : ∀ f, starts (ticks f (s.world.setCursor file position).trace) = starts (ticks f s.world.trace) := by
    intro f
    rw [hticks]
    split <;> rfl
  have hsettles : ∀ f, settles (ticks f (s.world.setCursor file position).trace) = settles (ticks f s.world.trace) := by
    intro f
    rw [hticks]
    split <;> rfl
  refine ⟨fun f => ?_, fun f => ?_, fun f => ?_, fun f => ?_, fun f => ?_, h.offsets⟩
  · rw [Sys.withWorld, hticks]
    split
    · exact h.once f
    · exact h.once f
  · rw [Sys.withWorld, hstarts]
    exact h.started f
  · rw [Sys.withWorld, hsettles]
    exact h.settled f
  · rw [Sys.withWorld, hstarts, hsettles]
    exact h.futures f
  · rw [Sys.withWorld, hticks]
    by_cases hf : file = f
    · simp [World.setCursor, hf, Odometer.read, Reading.turn]
    · simpa [World.setCursor, hf, Ne.symm hf] using h.cursor f

theorem move (hslots : s.Slotted) (h : Metered start s) (hm : Move b s s') : Metered start s' := by
  have hsame : ∀ {s' : Sys ws}, s'.world.trace = s.world.trace → s'.futures = s.futures →
      s'.world.nextSlot = s.world.nextSlot → (∀ f, (s'.world.files f).cursor = (s.world.files f).cursor) →
      Metered start s' := fun htrace => h.idle [] htrace (by simp)
  have hlogs : ∀ {s' : Sys ws} {e : Event ws}, s'.world.trace = e :: s.world.trace → (∀ f, e.tick f = none) →
      s'.futures = s.futures → s'.world.nextSlot = s.world.nextSlot →
      (∀ f, (s'.world.files f).cursor = (s.world.files f).cursor) → Metered start s' :=
    fun {s' e} htrace htick => h.idle [e] htrace (by simpa using htick)
  cases hm with
  | quiet hq => exact hsame hq.world.trace hq.futures hq.world.nextSlot fun f => by rw [hq.world.files]
  | refused _ _ hfiles => exact hsame rfl rfl rfl fun f => (hfiles f).1
  | executed => exact hlogs rfl (fun _ => rfl) rfl rfl fun _ => rfl
  | reported => exact hlogs rfl (fun _ => rfl) rfl rfl fun _ => rfl
  | polled => exact hlogs rfl (fun _ => rfl) rfl rfl fun _ => rfl
  | filled => exact hlogs rfl (fun _ => rfl) rfl rfl fun _ => rfl
  | resolved =>
    refine hlogs (World.trace_resolveCompletion ..) (fun _ => rfl) rfl ?_ fun f => ?_
    · exact World.nextSlot_resolveCompletion ..
    · exact World.cursor_resolveCompletion ..
  | @released ring =>
    let closed := s.world.setInner { s.world.inner with ring }
    obtain ⟨es, htrace, hes⟩ := World.trace_resolveAllAbandoned
      (w := closed.setInner { s.world.inner with ring, slab := s.world.inner.slab.drain.1 }) s.world.inner.slab.drain.2
    refine h.idle es (World.trace_release.trans htrace) ?_ rfl ?_ fun f => World.cursor_release ..
    · intro e he f
      obtain ⟨p, -, waker, rfl⟩ := hes e he
      rfl
    · exact closed.release_frame.2.1.trans (World.nextSlot_abandonAll closed)
  | @delivered future completed _ _ σ hfuture hfilled =>
    obtain ⟨_, _, hdeliver⟩ := s.world.deliver_eq σ future completed
    refine h.settle (e := .delivered σ completed) hfuture (hslots.future_lt σ future hfuture) ?_ (fun _ => rfl)
      ?_ ?_ fun f => ?_
    · rw [Sys.receive_world, hdeliver]
      rfl
    · rw [Sys.receive_futures]
    · rw [Sys.receive_world, hdeliver]
      rfl
    · rw [Sys.receive_world]
      exact World.cursor_deliver ..
  | @forgotten future _ _ σ detached underBorrow hfuture =>
    refine h.settle (e := .futureDropped σ detached) (n := none) hfuture (hslots.future_lt σ future hfuture) ?_ (fun _ => rfl)
      rfl ?_ fun f => ?_
    · exact World.trace_dropFutureRef ..
    · simp [World.dropFutureRef]
    · simp [World.dropFutureRef]
  | handleDropped =>
    refine hsame (World.trace_dropHandle ..) rfl ?_ fun f => ?_
    · simp [World.dropHandle]
    · simp [World.dropHandle]
  | _ => exact hsame rfl rfl rfl fun _ => rfl

theorem of_initial (hs : s₀.Initial) : Metered (fun f => (s₀.world.files f).cursor) s₀ := by
  have htrace : s₀.world.trace = [] := by rw [World.trace, hs.log]; rfl
  constructor
  all_goals simp [htrace, ticks, starts, settles, Once, Offsets, Odometer.read, hs.results]

theorem steady (start : FileId → Nat) : Steady (fun _ _ => True) (@Sys.Slotted ws) (Metered start) where
  move _ _ _ hslots h hm := h.move hslots hm
  accepted _ _ _ _ _ _ _ _ _ _ h _ _ ha := h.accept ha
  setCursor _ file position _ _ h _ := h.setCursor file position

end Metered

/-- In every run, a file's cursor is where the file stood, moved by its `set_cursor`
calls and by the results of its sequential operations in the order they were
delivered, and each of these operations started at what this came to by then: the
results reaped and not delivered count for nothing. -/
theorem cursor_replays (hinit : s₀.Initial) (h : ((systemMachine ws).startingAt s₀).Reachable s) (f : FileId) :
    (s.world.files f).cursor = (read u64Max (s₀.world.files f).cursor (ticks f s.world.trace)).position ∧
    (∀ σ, σ ∈ (read u64Max (s₀.world.files f).cursor (ticks f s.world.trace)).pending ↔
      ∃ future, s.futures σ = some future ∧ future.sequential = some f) ∧
    ∀ after σ offset before, s.world.trace = after ++ .seqStarted f σ offset :: before →
      offset = (read u64Max (s₀.world.files f).cursor (ticks f before)).position := by
  have hm := Steady.reachable (kept_slotted _) (Metered.steady _) hinit (Metered.of_initial hinit) h
  refine ⟨hm.cursor f, fun σ => ((pending_spec (hm.once f)).2 σ).trans (hm.futures f σ).symm, ?_⟩
  intro after σ offset before htrace
  exact Offsets.at (htrace ▸ hm.offsets)

/-- A sequential read, complete and reaped. -/
def readReaped : List (Action .w64) :=
  let e : Sqe .w64 := ⟨.read (.raw 3) (.raw 4096) 512 0, 2 ^ 17⟩
  [.start (.seqRead 3 (.owned ⟨4096, 512, 0⟩) 512) .willing, .pollDrive 7 .willing, .execute e ⟨0, 512⟩,
    .report e ⟨0, 512⟩, .advance .willing, .advance .willing, .advance .willing, .advance .willing,
    .advance .willing, .advance .willing, .advance .willing]

/-- A second read started before the first has delivered its result starts where the
first did. -/
theorem cursor_replays_stale : ∃ (s : Sys .w64) (before : List (Event .w64)),
    s.world.trace = .seqStarted 3 1 0 :: before ∧ (read u64Max 0 (ticks 3 before)).position = 0 ∧
    Event.filled 0 (.ok 512, some (.buffer (.owned ⟨4096, 512, 0⟩))) none
      (.completion ⟨2 ^ 17, ⟨0, 512⟩⟩) ∈ before := by
  obtain ⟨s, before, hrun, htrace, hfilled⟩ : ∃ s before, ((systemMachine .w64).startingAt .new).run .new
      (readReaped ++ [.start (.seqRead 3 (.owned ⟨8192, 512, 0⟩) 512) .willing]) = some s ∧
      s.world.trace = .seqStarted 3 1 0 :: before ∧
      before.tail.head? = some (.filled 0 (.ok 512, some (.buffer (.owned ⟨4096, 512, 0⟩))) none
        (.completion ⟨2 ^ 17, ⟨0, 512⟩⟩)) :=
    ⟨_, _, rfl, rfl, rfl⟩
  obtain ⟨-, -, hoffsets⟩ := cursor_replays Sys.new_initial (Machine.Reachable.run (.init rfl) hrun) 3
  have hposition := hoffsets [] 1 0 before htrace
  exact ⟨s, before, htrace, hposition.symm, List.mem_of_mem_tail (List.mem_of_mem_head? hfilled)⟩

-- ---------------------------------------------------------------------------
-- When the offsets add up
-- ---------------------------------------------------------------------------

/-- No future of a sequential operation of the file is left. -/
def NoneAwaited (f : FileId) (s : Sys ws) : Prop := ∀ σ future, s.futures σ = some future → future.sequential ≠ some f

/-- The file's sequential operations start, and its cursor is set, with every
result before it delivered or given up. -/
def Patient (f : FileId) (s : Sys ws) (a : Action ws) : Prop :=
  (∀ request answers, a = .start request answers → request.sequential = some f → NoneAwaited f s) ∧
  ∀ position, a = .setCursor f position → position ≤ u64Max ∧ NoneAwaited f s

/-- The law of patient runs. -/
structure Paced (start : FileId → Nat) (f : FileId) (s : Sys ws) : Prop where
  metered : Metered start s
  calm : Calm u64Max (start f) (ticks f s.world.trace)
  within : Within u64Max (ticks f s.world.trace)

namespace Paced

variable {start : FileId → Nat} {f : FileId}

theorem pending_eq (h : Paced start f s) (hnone : NoneAwaited f s) :
    (read u64Max (start f) (ticks f s.world.trace)).pending = [] := by
  refine List.eq_nil_iff_forall_not_mem.mpr fun σ hσ => ?_
  obtain ⟨future, hfuture, hsequential⟩ :=
    (h.metered.futures f σ).mpr (((pending_spec (h.metered.once f)).2 σ).mp hσ)
  exact hnone σ future hfuture hsequential

theorem settled_ticks {es : List (Event ws)} (hes : ∀ e ∈ es, s.Logs e) :
    ∀ t ∈ ticks f es, ∃ i n, t = .settled i n := by
  intro t ht
  obtain ⟨e, he, htick⟩ := List.mem_filterMap.mp ht
  have hlogs := hes e he
  cases e with
  | accepted | seqStarted | setCursor => cases hlogs
  | delivered | futureDropped => exact ⟨_, _, (Option.some.inj htick).symm⟩
  | _ => cases htick

theorem steady (start : FileId → Nat) (f : FileId) : Steady (Patient f) (@Sys.Slotted ws) (Paced start f) where
  move s s' _ hslots h hm := by
    obtain ⟨es, htrace, hes⟩ := hm.trace
    have hsettled := settled_ticks (f := f) hes
    refine ⟨h.metered.move hslots hm, ?_, ?_⟩
    · rw [htrace, ticks_append]
      exact h.calm.settled hsettled
    · rw [htrace, ticks_append]
      exact h.within.settled hsettled
  accepted s s' t p e future request answers _ _ h hok hmade ha := by
    refine ⟨h.metered.accept ha, ?_, ?_⟩
    all_goals rw [Metered.ticks_accepted ha]
    · split
      · exact ⟨h.pending_eq (hok.1 request answers rfl (hmade.sequential ▸ ‹_›)), h.calm⟩
      · exact h.calm
    · split
      · exact h.within
      · exact h.within
  setCursor s file position _ _ h hok := by
    refine ⟨h.metered.setCursor file position, ?_, ?_⟩
    all_goals
      rw [Sys.withWorld, Metered.ticks_setCursor]
      split
      · rename_i hf
        subst hf
        obtain ⟨hle, hnone⟩ := hok.2 position rfl
        first | exact ⟨h.pending_eq hnone, h.calm⟩ | exact ⟨hle, h.within⟩
      · first | exact h.calm | exact h.within

end Paced

/-- In every run in which a file's sequential operations start, and its cursor is
set, only with every result before it delivered or given up, each of them starts at
the position last set and all that those started since have delivered. Of two with
no `set_cursor` between them, the second starts further on unless the first delivered
nothing. -/
theorem sequential_offsets_add_up (hinit : s₀.Initial) {f : FileId} (hcap : (s₀.world.files f).cursor ≤ u64Max)
    (h : ((systemMachine ws).startingAt s₀).ReachableBy (Patient f) s)
    (htrace : s.world.trace = after ++ .seqStarted f σ offset :: before) :
    offset = min (base (s₀.world.files f).cursor (ticks f before) +
      gains (ticks f s.world.trace) (starts (since (ticks f before)))) u64Max ∧
    ∀ mid τ first old, before = mid ++ .seqStarted f τ first :: old → (∀ position, .setCursor f position ∉ mid) →
      gain τ (ticks f s.world.trace) ≠ 0 → offset < u64Max → first < offset := by
  have hempty : s₀.world.trace = [] := by rw [World.trace, hinit.log]; rfl
  have hpaced := Steady.reachable (kept_slotted _) (Paced.steady _ f) hinit
    ⟨Metered.of_initial hinit, by simp [hempty, ticks, Calm], by simp [hempty, ticks, Within]⟩ h
  have hoffsets := hpaced.metered.offsets
  have hoffset : offset = (read u64Max (s₀.world.files f).cursor (ticks f before)).position :=
    Offsets.at (htrace ▸ hoffsets)
  have hticks := congrArg (ticks f) htrace
  rw [ticks_started] at hticks
  refine ⟨?_, ?_⟩
  · rw [hoffset, hticks]
    exact reads_sum (hticks ▸ hpaced.metered.once f) (hticks ▸ hpaced.calm) hcap (hticks ▸ hpaced.within)
  · rintro mid τ first old rfl hmid hgain hroom
    have hsplit : s.world.trace = (after ++ .seqStarted f σ offset :: mid) ++ .seqStarted f τ first :: old := by
      rw [htrace, List.append_assoc]
      rfl
    have hfirst : first = (read u64Max (s₀.world.files f).cursor (ticks f old)).position :=
      Offsets.at (hsplit ▸ hoffsets)
    have hbetween : ∀ position, .set position ∉ ticks f mid := by
      intro position hmem
      obtain ⟨e, he, htick⟩ := List.mem_filterMap.mp hmem
      exact hmid position (tick_set htick ▸ he)
    rw [ticks_started] at hticks hoffset
    rw [hfirst, hoffset]
    exact reads_lt (hticks ▸ hpaced.metered.once f) (hticks ▸ hpaced.calm) hcap (hticks ▸ hpaced.within) hbetween
      (hticks ▸ hgain) (hoffset ▸ hroom)

/-- A second read started once the first has delivered its result. -/
theorem sequential_offsets_add_up_second : ∃ (s : Sys .w64) (before : List (Event .w64)),
    s.world.trace = .seqStarted 3 1 512 :: before := by
  let m := (systemMachine .w64).startingAt .new
  obtain ⟨s₁, f, hrun₁, hfutures⟩ : ∃ s f, m.run .new (readReaped ++ [.poll 0 8]) = some s ∧
      s.futures = Function.update (Function.update (fun _ => none) 0 (some f)) 0 none :=
    ⟨_, _, rfl, rfl⟩
  obtain ⟨s, before, offset, hrun, htrace, hbase, hgains⟩ : ∃ s before offset, m.run .new ((readReaped ++ [.poll 0 8]) ++
      [.start (.seqRead 3 (.owned ⟨8192, 512, 0⟩) 512) .willing]) = some s ∧
      s.world.trace = .seqStarted 3 1 offset :: before ∧ base 0 (ticks 3 before) = 0 ∧
      gains (ticks 3 s.world.trace) (starts (since (ticks 3 before))) = 512 :=
    ⟨_, _, _, rfl, rfl, rfl, rfl⟩
  have hnone : NoneAwaited 3 s₁ := by
    intro σ future hfuture
    simp only [hfutures, Function.update_apply] at hfuture
    split at hfuture <;> cases hfuture
  obtain ⟨s₀, hfirst, hrest⟩ := Machine.run_cons.mp hrun₁
  have hstarted : m.ReachableBy (Patient 3) s₀ := by
    refine .step (.init rfl) ⟨?_, ?_⟩ hfirst
    · rintro request answers - - σ future ⟨⟩
    · rintro position ⟨⟩
  have hread : m.ReachableBy (Patient 3) s₁ := hstarted.run (by simp [Patient]) hrest
  have hsecond : m.ReachableBy (Patient 3) s := by
    obtain ⟨t, ht, hlast⟩ := Machine.run_append.mp hrun
    obtain rfl := Option.some.inj (hrun₁.symm.trans ht)
    obtain ⟨s', hstep, hend⟩ := Machine.run_cons.mp hlast
    obtain rfl := Option.some.inj hend
    exact .step hread ⟨fun _ _ _ _ => hnone, by rintro position ⟨⟩⟩ hstep
  have hlog : s.world.trace = [] ++ .seqStarted 3 1 offset :: before := htrace
  obtain ⟨hoffset, -⟩ := sequential_offsets_add_up Sys.new_initial (Nat.zero_le _) hsecond hlog
  have hstart : ((.new : Sys .w64).world.files 3).cursor = 0 := rfl
  rw [hstart, hbase, hgains] at hoffset
  exact ⟨s, before, htrace.trans (by rw [hoffset]; rfl)⟩

end WinIoring.Runtime
