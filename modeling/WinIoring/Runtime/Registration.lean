import WinIoring.Machine.Latest
import WinIoring.Runtime.Files
import WinIoring.Runtime.Slots

/-!
# Registrations

The driver's account of its registrations against what became of the requests
for them: which one is in flight, which one is current, and which are kept.
-/

namespace WinIoring.Runtime

open Slab WinIoring.Machine

variable {ws : WordSize} {s s' : Sys ws} {w w' : World ws}

-- ---------------------------------------------------------------------------
-- What a completion does to the account
-- ---------------------------------------------------------------------------

/-- What of a registration never changes once it has been adopted. -/
def RegistryInner.storage (r : RegistryInner) : List Buf × List Nat × List BufferInfo :=
  (r.buffers, r.pointers, r.descriptors)

/-- Two drivers with the same registrations, current and retired. -/
structure DriverInner.SameRegistrations (d d' : DriverInner ws) : Prop where
  bufferRegistration : d'.bufferRegistration = d.bufferRegistration
  retiredBufferRegistrations : d'.retiredBufferRegistrations = d.retiredBufferRegistrations
  fileRegistration : d'.fileRegistration = d.fileRegistration
  retiredFileRegistrations : d'.retiredFileRegistrations = d.retiredFileRegistrations

theorem DriverInner.Same.registrations {d d' : DriverInner ws} (h : d.Same d') :
    d.SameRegistrations d' :=
  ⟨h.bufferRegistration, h.retiredBufferRegistrations, h.fileRegistration,
    h.retiredFileRegistrations⟩

/-- A view of a registration in which neither its references nor its marks
show. -/
structure RegistryInner.Unmarked (f : RegistryInner → α) : Prop where
  strong : ∀ r n, f { r with strong := n } = f r
  mark : ∀ r index b, f (r.modifySlot index fun slot => { slot with checkedOut := b }) = f r

theorem RegistryInner.unmarked_storage : Unmarked storage := ⟨fun _ _ => rfl, fun _ _ _ => rfl⟩

namespace World

/-- The registrations adopted so far look as they did. -/
structure Keeps (f : RegistryInner → α) (w w' : World ws) : Prop where
  nextRegistry : w.nextRegistry ≤ w'.nextRegistry
  view : ∀ r < w.nextRegistry, f (w'.registries r) = f (w.registries r)

namespace Keeps

variable {f : RegistryInner → α}

theorem refl (f : RegistryInner → α) (w : World ws) : Keeps f w w := ⟨Nat.le_refl _, fun _ _ => rfl⟩

theorem trans {w'' : World ws} (h : Keeps f w w') (h' : Keeps f w' w'') : Keeps f w w'' where
  nextRegistry := h.nextRegistry.trans h'.nextRegistry
  view r hr := (h'.view r (hr.trans_le h.nextRegistry)).trans (h.view r hr)

theorem of_eq (hnext : w'.nextRegistry = w.nextRegistry) (hregistries : w'.registries = w.registries) :
    Keeps f w w' where
  nextRegistry := hnext.ge
  view r _ := by rw [hregistries]

theorem setRegistry (w : World ws) {r : RegId} {registry : RegistryInner}
    (h : f registry = f (w.registries r)) : Keeps f w (w.setRegistry r registry) where
  nextRegistry := Nat.le_refl _
  view r' _ := by
    rw [setRegistry_registries, Function.update_apply]
    split
    · rename_i hr
      rw [hr, h]
    · rfl

theorem dropRegistryRef (hf : RegistryInner.Unmarked f) (w : World ws) (r : RegId) (u : Bool) :
    Keeps f w (w.dropRegistryRef r u) := by
  have hstrong : Keeps f w (w.setRegistry r
      { w.registries r with strong := (w.registries r).strong - 1 }) := .setRegistry w (hf.strong ..)
  simp only [World.dropRegistryRef]
  split
  · exact hstrong.trans (.of_eq rfl rfl)
  · exact hstrong

theorem dropHandle (hf : RegistryInner.Unmarked f) (w : World ws) (h : RegisteredBuf) (u : Bool) :
    Keeps f w (w.dropHandle h u) := by
  refine .trans ?_ (.dropRegistryRef hf ..)
  exact .setRegistry w (hf.mark ..)

theorem dropOptional (hf : RegistryInner.Unmarked f) (w : World ws) (b : Option Boxed) (u : Bool) :
    Keeps f w (w.dropOptional b u) := by
  match b with
  | some (.buffer (.handle h)) => exact .dropHandle hf w h u
  | some (.collection r) => exact .dropRegistryRef hf w r u
  | none | some (.buffer (.owned _)) | some (.pending (.buffers ..)) | some (.pending (.files _)) =>
    exact .of_eq rfl rfl

theorem fill (hf : RegistryInner.Unmarked f) (w : World ws) (p : OpPayload) (completed : CompletedOp)
    (cause : Cause ws) : Keeps f w (w.fill p completed cause).1 := by
  have hguard : ∀ w : World ws, Keeps f w (w.dropGuard p.sequential) :=
    fun w => .of_eq (nextRegistry_dropGuard ..) (registries_dropGuard ..)
  refine .trans ?_ (hguard _)
  simp only [dropSlotRef]
  split
  · exact .of_eq rfl rfl
  · refine .trans ?_ (.dropOptional hf ..)
    exact .of_eq rfl rfl

theorem adoptRegistration (f : RegistryInner → α) (w : World ws) (pending : PendingRegistration) :
    Keeps f w (w.adoptRegistration pending).1 := by
  cases pending with
  | files files => exact .of_eq rfl rfl
  | buffers buffers pointers extents watermarks descriptors =>
    refine ⟨Nat.le_succ _, fun r hr => ?_⟩
    simp [World.adoptRegistration, Function.update_of_ne (Nat.ne_of_lt hr)]

end Keeps

/-- What settling a completed operation's registration comes to. -/
theorem settleRegistration_cases (w : World ws) (p : OpPayload) (result : Except Error Transferred) :
    (p.pendingRegistration = none ∧ w.settleRegistration p result = (w, p.buffer.map .buffer)) ∨
    (∃ pending e, p.pendingRegistration = some pending ∧ result = .error e ∧
      w.settleRegistration p result = (w.setInner { w.inner with
        registrationInFlight := w.inner.registrationInFlight && !pending.isBuffers },
          some (.pending pending))) ∨
    (∃ files n, p.pendingRegistration = some (.files files) ∧ result = .ok n ∧
      w.settleRegistration p result =
        ((w.adoptRegistration (.files files)).1, p.buffer.map .buffer)) ∨
    ∃ buffers pointers extents watermarks descriptors n,
      p.pendingRegistration = some (.buffers buffers pointers extents watermarks descriptors) ∧
      result = .ok n ∧ w.settleRegistration p result =
        (((w.setInner { w.inner with registrationInFlight := false }).adoptRegistration
          (.buffers buffers pointers extents watermarks descriptors)).1,
          some (.collection w.nextRegistry)) := by
  unfold settleRegistration
  cases p.pendingRegistration with
  | none => exact .inl ⟨rfl, rfl⟩
  | some pending =>
    cases result with
    | error e =>
      refine .inr (.inl ⟨pending, e, rfl, rfl, ?_⟩)
      cases pending <;> simp [PendingRegistration.isBuffers]
      rfl
    | ok n =>
      cases pending with
      | files files => exact .inr (.inr (.inl ⟨files, n, rfl, rfl, rfl⟩))
      | buffers buffers pointers extents watermarks descriptors =>
        exact .inr (.inr (.inr ⟨_, _, _, _, _, n, rfl, rfl, rfl⟩))

theorem Keeps.settleRegistration (f : RegistryInner → α) (w : World ws) (p : OpPayload)
    (result : Except Error Transferred) : Keeps f w (w.settleRegistration p result).1 := by
  rcases w.settleRegistration_cases p result with
    ⟨-, h⟩ | ⟨_, _, -, -, h⟩ | ⟨_, _, -, -, h⟩ | ⟨_, _, _, _, _, _, -, -, h⟩
  all_goals rw [h]
  · exact .refl f w
  · exact .of_eq rfl rfl
  · exact .adoptRegistration f w _
  · refine .trans ?_ (.adoptRegistration ..)
    exact .of_eq rfl rfl

theorem Keeps.release {f : RegistryInner → α} (hf : RegistryInner.Unmarked f) (w : World ws) :
    Keeps f w w.release.1 := by
  have hall : Keeps f w w.abandonAll := by
    refine World.abandonAll_induction (P := fun _ w' => Keeps f w w') w (.of_eq rfl rfl) ?_
    exact fun p ps w' h => h.trans (.fill hf ..)
  have hdrop : ∀ (rs : List RegId) (w : World ws), Keeps f w (w.dropRegistrations rs) := by
    intro rs
    induction rs with
    | nil => exact fun w => .refl f w
    | cons r rs ih => exact fun w => (Keeps.dropRegistryRef hf w r true).trans (ih _)
  have hregistrations := hdrop (w.abandonAll.inner.bufferRegistration.toList ++
    w.abandonAll.inner.retiredBufferRegistrations) w.abandonAll
  exact hall.trans (hregistrations.trans (.of_eq rfl rfl))

/-- The registrations adopted so far are as they were but for their counts and
marks. -/
structure Frozen (w w' : World ws) : Prop where
  nextRegistry : w.nextRegistry ≤ w'.nextRegistry
  storage : ∀ r < w.nextRegistry, (w'.registries r).storage = (w.registries r).storage

theorem Keeps.frozen (h : Keeps RegistryInner.storage w w') : w.Frozen w' := ⟨h.nextRegistry, h.view⟩

theorem Frozen.refl (w : World ws) : w.Frozen w := (Keeps.refl _ w).frozen

theorem Frozen.trans {w'' : World ws} (h : w.Frozen w') (h' : w'.Frozen w'') : w.Frozen w'' where
  nextRegistry := h.nextRegistry.trans h'.nextRegistry
  storage r hr := (h'.storage r (hr.trans_le h.nextRegistry)).trans (h.storage r hr)

theorem Frozen.of_eq (hnext : w'.nextRegistry = w.nextRegistry)
    (hregistries : w'.registries = w.registries) : w.Frozen w' := (Keeps.of_eq hnext hregistries).frozen

theorem Frozen.setRegistry (w : World ws) {r : RegId} {registry : RegistryInner}
    (h : registry.storage = (w.registries r).storage) : w.Frozen (w.setRegistry r registry) :=
  (Keeps.setRegistry w h).frozen

theorem Frozen.raiseTransfer (w : World ws) (p : OpPayload) (result : Except Error Transferred)
    (boxed : Option Boxed) : w.Frozen (w.raiseTransfer p result boxed) := by
  unfold World.raiseTransfer
  split
  · exact .setRegistry w rfl
  · exact .refl w

theorem Frozen.resolveCompletion (w : World ws) (p : OpPayload) (cqe : Cqe ws) :
    w.Frozen (w.resolveCompletion p cqe).1 :=
  (Keeps.settleRegistration _ w p _).frozen.trans
    ((Frozen.raiseTransfer ..).trans (Keeps.fill RegistryInner.unmarked_storage ..).frozen)

end World

/-- No move touches the storage of a registration. -/
theorem Move.frozen (h : Move b s s') : s.world.Frozen s'.world := by
  cases h with
  | quiet hq =>
    refine ⟨hq.world.nextRegistry.ge, fun r _ => ?_⟩
    exact congrArg (fun marks => (marks.1, marks.2.1, marks.2.2.2)) (hq.world.marks r)
  | resolved =>
    refine World.Frozen.trans ?_ (World.Frozen.resolveCompletion ..)
    exact .of_eq rfl rfl
  | released =>
    refine World.Frozen.trans ?_ (World.Keeps.release RegistryInner.unmarked_storage _).frozen
    exact .of_eq rfl rfl
  | @delivered future completed _ _ σ =>
    rw [Sys.receive_world]
    have hrecord : ∀ w : World ws, w.Frozen (w.recordRead future completed).1 := by
      intro w
      unfold World.recordRead
      split
      · split
        · exact .setRegistry w rfl
        · exact .refl w
      · exact .refl w
    have hadvance : ∀ w : World ws, w.Frozen (w.advanceOnSuccess future.sequential completed.1) := by
      intro w
      obtain ⟨files, hw⟩ := w.advanceOnSuccess_eq future.sequential completed.1
      rw [hw]
      exact .of_eq rfl rfl
    refine World.Frozen.trans ?_ (hadvance _)
    refine World.Frozen.trans ?_ (hrecord _)
    exact .of_eq rfl rfl
  | forgotten =>
    refine World.Frozen.trans ?_ (World.Keeps.dropOptional RegistryInner.unmarked_storage ..).frozen
    exact .of_eq rfl rfl
  | checkedOut _ _ _ _ hclaim =>
    refine .setRegistry _ ?_
    unfold RegistryInner.claim at hclaim
    split at hclaim
    · cases hclaim
    · split at hclaim
      · cases hclaim
      · obtain ⟨rfl, -⟩ := Prod.mk.inj (Except.ok.inj hclaim)
        rfl
  | filled =>
    refine World.Frozen.trans (.setRegistry s.world ?_) (.of_eq rfl rfl)
    rfl
  | handleDropped => exact (World.Keeps.dropHandle RegistryInner.unmarked_storage ..).frozen
  | _ => exact .of_eq rfl rfl

-- ---------------------------------------------------------------------------
-- What the log tells of registrations
-- ---------------------------------------------------------------------------

/-- The event is the reaping of the completion of an operation accepted with
this payload, which succeeded. -/
def Completes (trace : List (Event ws)) (e : Event ws) (p : OpPayload) : Prop :=
  ∃ slot n boxed waker cqe checked, e = .filled slot (.ok n, boxed) waker (.completion cqe) ∧
    .accepted cqe.token p checked ∈ trace

/-- A registration of buffers, reaped with success. -/
def RegistersBuffers (trace : List (Event ws)) (e : Event ws) : Prop :=
  ∃ p, Completes trace e p ∧ p.registersBuffers = true

/-- The registration a future was given in such an event, which holds what the
request did. -/
def TellsBuffers (w : World ws) (e : Event ws) (r : RegId) : Prop :=
  r < w.nextRegistry ∧ (∃ slot n waker cause, e = .filled slot (.ok n, some (.collection r)) waker cause) ∧
    ∃ p buffers pointers extents watermarks descriptors, Completes w.trace e p ∧
      p.pendingRegistration = some (.buffers buffers pointers extents watermarks descriptors) ∧
      (w.registries r).storage = (buffers, pointers, descriptors)

/-- A registration of files, reaped with success. -/
def RegistersFiles (trace : List (Event ws)) (e : Event ws) : Prop :=
  ∃ p, Completes trace e p ∧ p.newFiles ≠ none

def TellsFiles (trace : List (Event ws)) (e : Event ws) (registration : FileRegistration) : Prop :=
  ∃ p files, Completes trace e p ∧ p.newFiles = some files ∧
    registration = { files, count := files.length }

/-- An account that agrees with the log. -/
structure Accounts (s : Sys ws) : Prop where
  inFlight : s.payloads.countP OpPayload.registersBuffers =
    s.world.inner.registrationInFlight.toNat
  buffers : s.world.inner.ring.closed = false →
    Succession (RegistersBuffers s.world.trace) (TellsBuffers s.world) s.world.trace
      s.world.inner.bufferRegistration s.world.inner.retiredBufferRegistrations
  files : s.world.inner.ring.closed = false →
    Succession (RegistersFiles s.world.trace) (TellsFiles s.world.trace) s.world.trace
      s.world.inner.fileRegistration s.world.inner.retiredFileRegistrations
  known : ∀ slot completed waker cqe, .filled slot completed waker (.completion cqe) ∈ s.world.trace →
    ∃ p checked, .accepted cqe.token p checked ∈ s.world.trace
  ended : s.world.inner.ring.closed = true → s.world.inner.bufferRegistration = none ∧
    s.world.inner.fileRegistration = none ∧ s.world.inner.registrationInFlight = false

/-- Whether an event is the reaping of an operation's completion. -/
def Event.reaps : Event ws → Bool
  | .filled _ _ _ (.completion _) => true
  | _ => false

theorem Completes.reaps (h : Completes trace e p) : e.reaps = true := by
  obtain ⟨_, _, _, _, _, _, rfl, -⟩ := h
  rfl

namespace Accounts

variable {es : List (Event ws)}

/-- Older events tell the same of the operations they complete. -/
theorem completes_iff (h : Accounts s) (hsuffix : ∀ e ∈ s.world.trace, e ∈ s'.world.trace)
    (honce : AcceptedOnce s') (he : e ∈ s.world.trace) (p : OpPayload) :
    Completes s'.world.trace e p ↔ Completes s.world.trace e p := by
  constructor
  · rintro ⟨slot, n, boxed, waker, cqe, checked, rfl, hacc⟩
    obtain ⟨q, checked', hacc'⟩ := h.known _ _ _ _ he
    obtain ⟨rfl, rfl⟩ := honce.unique _ _ _ _ _ hacc (hsuffix _ hacc')
    exact ⟨slot, n, boxed, waker, cqe, checked, rfl, hacc'⟩
  · rintro ⟨slot, n, boxed, waker, cqe, checked, rfl, hacc⟩
    exact ⟨slot, n, boxed, waker, cqe, checked, rfl, hsuffix _ hacc⟩

/-- What the log tells of buffers while it grows. -/
theorem buffers_grown (h : Accounts s) (htrace : s'.world.trace = es ++ s.world.trace)
    (honce : AcceptedOnce s') (hfrozen : s.world.Frozen s'.world)
    (hopen : s.world.inner.ring.closed = false) :
    Succession (RegistersBuffers s'.world.trace) (TellsBuffers s'.world) s.world.trace
      s.world.inner.bufferRegistration s.world.inner.retiredBufferRegistrations := by
  have hsuffix : ∀ e ∈ s.world.trace, e ∈ s'.world.trace :=
    fun e he => htrace ▸ List.mem_append_right _ he
  refine (h.buffers hopen).congr (fun e he => ?_) fun e he r ⟨hr, hevent, htells⟩ => ?_
  · exact exists_congr fun p => and_congr_left fun _ => h.completes_iff hsuffix honce he p
  · obtain ⟨p, buffers, pointers, extents, watermarks, descriptors, hp, hpending, hstorage⟩ := htells
    exact ⟨hr.trans_le hfrozen.nextRegistry, hevent, p, _, _, _, _, _,
      (h.completes_iff hsuffix honce he p).mpr hp, hpending, (hfrozen.storage r hr).trans hstorage⟩

theorem files_grown (h : Accounts s) (htrace : s'.world.trace = es ++ s.world.trace)
    (honce : AcceptedOnce s') (hopen : s.world.inner.ring.closed = false) :
    Succession (RegistersFiles s'.world.trace) (TellsFiles s'.world.trace)
      s.world.trace s.world.inner.fileRegistration s.world.inner.retiredFileRegistrations := by
  have hsuffix : ∀ e ∈ s.world.trace, e ∈ s'.world.trace :=
    fun e he => htrace ▸ List.mem_append_right _ he
  refine (h.files hopen).congr (fun e he => ?_) fun e he r ⟨p, files, hp, hfiles⟩ => ?_
  · exact exists_congr fun p => and_congr_left fun _ => h.completes_iff hsuffix honce he p
  · exact ⟨p, files, (h.completes_iff hsuffix honce he p).mpr hp, hfiles⟩

theorem known_grown (h : Accounts s) (htrace : s'.world.trace = es ++ s.world.trace)
    (hes : ∀ slot completed waker cqe, .filled slot completed waker (.completion cqe) ∈ es →
      ∃ p checked, .accepted cqe.token p checked ∈ s.world.trace) :
    ∀ slot completed waker cqe, .filled slot completed waker (.completion cqe) ∈ s'.world.trace →
      ∃ p checked, .accepted cqe.token p checked ∈ s'.world.trace := by
  intro slot completed waker cqe hmem
  rw [htrace] at hmem ⊢
  obtain ⟨p, checked, hacc⟩ : ∃ p checked, .accepted cqe.token p checked ∈ s.world.trace :=
    (List.mem_append.mp hmem).elim (hes _ _ _ _) (h.known _ _ _ _)
  exact ⟨p, checked, List.mem_append_right _ hacc⟩

/-- Code that reaps no completion and replaces no registration. -/
theorem grow (h : Accounts s) (es : List (Event ws)) (htrace : s'.world.trace = es ++ s.world.trace)
    (hes : ∀ e ∈ es, e.reaps = false) (honce : AcceptedOnce s') (hfrozen : s.world.Frozen s'.world)
    (hsame : s.world.inner.SameRegistrations s'.world.inner)
    (hclosed : s'.world.inner.ring.closed = s.world.inner.ring.closed)
    (hcount : s'.payloads.countP OpPayload.registersBuffers =
      s'.world.inner.registrationInFlight.toNat)
    (hended : s'.world.inner.ring.closed = true → s'.world.inner.registrationInFlight = false) :
    Accounts s' := by
  have hnone : ∀ e ∈ es, ∀ p, ¬ Completes s'.world.trace e p := by
    intro e he p hp
    exact absurd (hes e he) (by rw [hp.reaps]; exact nofun)
  refine
    { inFlight := hcount
      buffers := fun hc => ?_
      files := fun hc => ?_
      known := h.known_grown htrace fun slot completed waker cqe hmem => absurd (hes _ hmem) nofun
      ended := fun hc => ?_ }
  · have hgrown := (h.buffers_grown htrace honce hfrozen (hclosed ▸ hc)).append
      fun e he ⟨p, hp, _⟩ => hnone e he p hp
    rw [hsame.bufferRegistration, hsame.retiredBufferRegistrations]
    exact htrace ▸ hgrown
  · have hgrown := (h.files_grown htrace honce (hclosed ▸ hc)).append
      fun e he ⟨p, hp, _⟩ => hnone e he p hp
    rw [hsame.fileRegistration, hsame.retiredFileRegistrations]
    exact htrace ▸ hgrown
  · obtain ⟨hbuffers, hfiles, -⟩ := h.ended (hclosed ▸ hc)
    exact ⟨hsame.bufferRegistration.trans hbuffers, hsame.fileRegistration.trans hfiles, hended hc⟩

/-- Code that moves no payload either. -/
theorem calm (h : Accounts s) (es : List (Event ws)) (htrace : s'.world.trace = es ++ s.world.trace)
    (hes : ∀ e ∈ es, e.reaps = false) (honce : AcceptedOnce s') (hfrozen : s.world.Frozen s'.world)
    (hsame : s.world.inner.SameRegistrations s'.world.inner)
    (hclosed : s'.world.inner.ring.closed = s.world.inner.ring.closed)
    (hflag : s'.world.inner.registrationInFlight = s.world.inner.registrationInFlight)
    (hslab : s'.world.inner.slab.payloadAt = s.world.inner.slab.payloadAt) : Accounts s' := by
  refine h.grow es htrace hes honce hfrozen hsame hclosed ?_ fun hc => ?_
  · rw [(Sys.payloads_same hslab).countP_eq, h.inFlight, hflag]
  · rw [hflag]
    exact (h.ended (hclosed ▸ hc)).2.2

/-- A completion is reaped: its operation's registration, if it was for one, is
no longer in flight, and is adopted if it succeeded. -/
theorem resolve (h : Accounts s) {p : OpPayload} {cqe : Cqe ws}
    (hacc : .accepted cqe.token p checked ∈ s.world.trace) (honce : AcceptedOnce s')
    (hperm : s.payloads.Perm (p :: s'.payloads)) (hopen : s.world.inner.ring.closed = false)
    (hworld : s'.world = (w.resolveCompletion p cqe).1) (htrace : w.trace = s.world.trace)
    (hfrozen : s.world.Frozen w) (hsame : s.world.inner.SameRegistrations w.inner)
    (hflag : w.inner.registrationInFlight = s.world.inner.registrationInFlight)
    (hclosed : w.inner.ring.closed = false) : Accounts s' := by
  have hinner : s'.world.inner = (w.settleRegistration p (World.completionResult cqe.outcome)).1.inner := by
    rw [hworld, World.resolveCompletion_inner]
  have hgrow : s'.world.trace = [.filled p.slot (w.settled p cqe) (w.results p.slot).waker
      (.completion cqe)] ++ s.world.trace := by
    rw [hworld, World.trace_resolveCompletion, htrace]
    rfl
  have hfrozen' : s.world.Frozen s'.world := by
    rw [hworld]
    exact hfrozen.trans (.resolveCompletion ..)
  have hacc' : .accepted cqe.token p checked ∈ s'.world.trace :=
    hgrow ▸ List.mem_append_right _ hacc
  have hclosed' : s'.world.inner.ring.closed = false := by
    rw [hworld, World.ring_resolveCompletion]
    exact hclosed
  have hcompletes : ∀ {waker q}, Completes s'.world.trace (.filled p.slot (w.settled p cqe) waker
      (.completion cqe)) q → q = p ∧ ∃ n, World.completionResult cqe.outcome = .ok n := by
    rintro waker q ⟨slot, n, boxed, waker', cqe', checked', heq, hq⟩
    simp only [Event.filled.injEq, Cause.completion.injEq] at heq
    obtain ⟨-, hsettled, -, rfl⟩ := heq
    exact ⟨(honce.unique _ _ _ _ _ hq hacc').1, n, congrArg Prod.fst hsettled⟩
  have hcount : p.registersBuffers.toNat + s'.payloads.countP OpPayload.registersBuffers =
      s.world.inner.registrationInFlight.toNat := by
    rw [← h.inFlight, hperm.countP_eq, List.countP_cons]
    cases p.registersBuffers <;> simp [Nat.add_comm]
  have hbuffers := h.buffers_grown hgrow honce hfrozen' hopen
  have hfiles := h.files_grown hgrow honce hopen
  have hknown := h.known_grown hgrow fun slot completed waker c hmem => by
    simp only [List.mem_singleton, Event.filled.injEq, Cause.completion.injEq] at hmem
    obtain ⟨-, -, -, rfl⟩ := hmem
    exact ⟨p, checked, hacc⟩
  have hskipBuffers : (p.registersBuffers = true → ∀ n, World.completionResult cqe.outcome ≠ .ok n) →
      Succession (RegistersBuffers s'.world.trace) (TellsBuffers s'.world) s'.world.trace
        s.world.inner.bufferRegistration s.world.inner.retiredBufferRegistrations := by
    intro hnot
    refine hgrow ▸ hbuffers.append fun e he ⟨q, hq, hregisters⟩ => ?_
    obtain rfl := List.mem_singleton.mp he
    obtain ⟨rfl, n, hn⟩ := hcompletes hq
    exact hnot hregisters n hn
  have hskipFiles : (p.newFiles ≠ none → ∀ n, World.completionResult cqe.outcome ≠ .ok n) →
      Succession (RegistersFiles s'.world.trace) (TellsFiles s'.world.trace) s'.world.trace
        s.world.inner.fileRegistration s.world.inner.retiredFileRegistrations := by
    intro hnot
    refine hgrow ▸ hfiles.append fun e he ⟨q, hq, hnew⟩ => ?_
    obtain rfl := List.mem_singleton.mp he
    obtain ⟨rfl, n, hn⟩ := hcompletes hq
    exact hnot hnew n hn
  have hhit : ∀ {n}, World.completionResult cqe.outcome = .ok n → Completes s'.world.trace
      (.filled p.slot (w.settled p cqe) (w.results p.slot).waker (.completion cqe)) p := by
    intro n hn
    refine ⟨p.slot, n, (w.settled p cqe).2, (w.results p.slot).waker, cqe, checked, ?_, hacc'⟩
    rw [← hn]
    rfl
  have hnotClosed : ∀ {P : Prop}, s'.world.inner.ring.closed = true → P :=
    fun hc => absurd (hclosed'.symm.trans hc) Bool.false_ne_true
  rcases w.settleRegistration_cases p (World.completionResult cqe.outcome) with
    ⟨hpending, hsettle⟩ | ⟨pending, e, hpending, hresult, hsettle⟩ |
    ⟨files, n, hpending, hresult, hsettle⟩ |
    ⟨buffers, pointers, extents, watermarks, descriptors, n, hpending, hresult, hsettle⟩
  all_goals
    rw [hsettle] at hinner
    refine
      { inFlight := ?_
        buffers := fun _ => ?_
        files := fun _ => ?_
        known := hknown
        ended := hnotClosed }
  · rw [hinner, hflag, ← hcount, OpPayload.registersBuffers, hpending]
    exact (Nat.zero_add _).symm
  · rw [hinner, hsame.bufferRegistration, hsame.retiredBufferRegistrations]
    exact hskipBuffers fun hp => by simp [OpPayload.registersBuffers, hpending] at hp
  · rw [hinner, hsame.fileRegistration, hsame.retiredFileRegistrations]
    exact hskipFiles fun hp => absurd (by rw [OpPayload.newFiles, hpending]) hp
  -- The request failed, and nothing is adopted.
  · rw [OpPayload.registersBuffers, hpending, Option.any_some] at hcount
    rw [hinner, World.setInner_inner, hflag]
    revert hcount
    cases pending.isBuffers <;> cases s.world.inner.registrationInFlight <;> simp
  · rw [hinner, World.setInner_inner, hsame.bufferRegistration, hsame.retiredBufferRegistrations]
    exact hskipBuffers fun _ n hn => by simp [hresult] at hn
  · rw [hinner, World.setInner_inner, hsame.fileRegistration, hsame.retiredFileRegistrations]
    exact hskipFiles fun _ n hn => by simp [hresult] at hn
  -- A registration of files is adopted.
  · rw [OpPayload.registersBuffers, hpending] at hcount
    rw [hinner]
    exact ((Nat.zero_add _).symm.trans hcount).trans (congrArg Bool.toNat hflag.symm)
  · rw [hinner]
    have hskip := hskipBuffers fun hp => by
      simp [OpPayload.registersBuffers, hpending, PendingRegistration.isBuffers] at hp
    rw [← hsame.bufferRegistration, ← hsame.retiredBufferRegistrations] at hskip
    exact hskip
  · have hnew : p.newFiles = some files := by rw [OpPayload.newFiles, hpending]
    have hsucceed := hfiles.succeed ⟨p, hhit hresult, by simp [hnew]⟩ ⟨p, files, hhit hresult, hnew, rfl⟩
    rw [hinner, hgrow]
    rw [hgrow, ← hsame.fileRegistration, ← hsame.retiredFileRegistrations] at hsucceed
    exact hsucceed
  -- A registration of buffers is adopted.
  · rw [OpPayload.registersBuffers, hpending, Option.any_some] at hcount
    rw [hinner]
    revert hcount
    cases s.world.inner.registrationInFlight <;>
      simp [PendingRegistration.isBuffers, World.adoptRegistration]
  · have hadopted : (w.settleRegistration p (World.completionResult cqe.outcome)).1.Frozen s'.world := by
      rw [hworld]
      exact (World.Frozen.raiseTransfer ..).trans
        (World.Keeps.fill RegistryInner.unmarked_storage ..).frozen
    rw [hsettle] at hadopted
    have hnew : w.nextRegistry < s'.world.nextRegistry :=
      Nat.lt_of_lt_of_le (Nat.lt_succ_self _) hadopted.nextRegistry
    have hstorage : (s'.world.registries w.nextRegistry).storage = (buffers, pointers, descriptors) := by
      refine (hadopted.storage _ (Nat.lt_succ_self _)).trans ?_
      simp [World.adoptRegistration, RegistryInner.storage, RegistryInner.new]
    have hboxed : (w.settled p cqe).2 = some (.collection w.nextRegistry) := by
      simp only [World.settled, hsettle, World.refresh]
    have hevent := hhit hresult
    have hsucceed := hbuffers.succeed ⟨p, hevent, by
        simp [OpPayload.registersBuffers, hpending, PendingRegistration.isBuffers]⟩
      ⟨hnew, ⟨p.slot, n, (w.results p.slot).waker, .completion cqe, by rw [← hboxed, ← hresult]; rfl⟩,
        p, _, _, _, _, _, hevent, hpending, hstorage⟩
    rw [hinner, hgrow]
    rw [hgrow, ← hsame.bufferRegistration, ← hsame.retiredBufferRegistrations] at hsucceed
    exact hsucceed
  · rw [hinner]
    have hskip := hskipFiles fun hp => by simp [OpPayload.newFiles, hpending] at hp
    rw [← hsame.fileRegistration, ← hsame.retiredFileRegistrations] at hskip
    exact hskip

theorem move (hb : Books s) (hj : OnRecord s) (h : Accounts s) (hm : Move b s s') : Accounts s' := by
  have honce : AcceptedOnce s' := (kept_acceptedOnce fun _ _ => True).move s s' hb hj.2 hm
  have hfrozen := hm.frozen
  have hnil : ∀ e ∈ ([] : List (Event ws)), e.reaps = false := by simp
  cases hm with
  | quiet hq =>
    refine h.calm [] hq.world.trace hnil honce hfrozen hq.world.inner.registrations ?_
      hq.world.inner.registrationInFlight (by rw [hq.world.inner.slab])
    rw [hq.world.inner.ring]
  | executed hring =>
    refine h.calm [_] rfl (by simp [Event.reaps]) honce hfrozen ⟨rfl, rfl, rfl, rfl⟩ ?_ rfl rfl
    exact (IoRing.execute_some hring).closed
  | reported hring =>
    refine h.calm [_] rfl (by simp [Event.reaps]) honce hfrozen ⟨rfl, rfl, rfl, rfl⟩ ?_ rfl rfl
    exact (IoRing.report_some hring).closed
  | refused hcell =>
    exact h.calm [] rfl hnil honce hfrozen ⟨rfl, rfl, rfl, rfl⟩ rfl rfl
      (OpSlab.payloadAt_congr hcell)
  | cancelled =>
    exact h.calm [] rfl hnil honce hfrozen ⟨rfl, rfl, rfl, rfl⟩ rfl rfl
      (OpSlab.payloadAt_registerCancel ..)
  | submitted _ _ hsub =>
    exact h.calm [] rfl hnil honce hfrozen ⟨rfl, rfl, rfl, rfl⟩ hsub.closed rfl
      (OpSlab.payloadAt_promote _)
  | waited _ _ _ hsub =>
    exact h.calm [] rfl hnil honce hfrozen ⟨rfl, rfl, rfl, rfl⟩ hsub.closed rfl rfl
  | reapedCancel =>
    exact h.calm [] rfl hnil honce hfrozen ⟨rfl, rfl, rfl, rfl⟩ rfl rfl
      (OpSlab.payloadAt_completeCancel ..)
  | @resolved cqe rest _ op _ hring hkind hcell =>
    obtain ⟨checked, hacc⟩ := hj.accepted hkind hcell
    have hopen := hb.open_of_completions hring
    exact h.resolve hacc honce (Sys.payloads_resolved hkind hcell (by simp [Sys.withWorld])) hopen rfl
      rfl (.of_eq rfl rfl) ⟨rfl, rfl, rfl, rfl⟩ rfl hopen
  | @released ring _ _ hsealed hclosed =>
    obtain ⟨es, htrace, hes⟩ := World.trace_resolveAllAbandoned
      (w := (s.world.setInner { s.world.inner with ring }).setInner
        { s.world.inner with ring, slab := s.world.inner.slab.drain.1 })
      s.world.inner.slab.drain.2
    have hring : ring.closed = true := by rw [hclosed]
    have hopen : ∀ {P : Prop}, (World.setInner s.world { s.world.inner with ring }).release.1.inner.ring.closed
        = false → P := by
      intro P hc
      rw [World.release_inner] at hc
      exact absurd (hring.symm.trans hc) (by rintro ⟨⟩)
    refine
      { inFlight := ?_
        buffers := hopen
        files := hopen
        known := h.known_grown (World.trace_release.trans htrace) ?_
        ended := fun _ => ?_ }
    · rw [Sys.payloads, Sys.withWorld, World.release_inner]
      exact congrArg (List.countP _) (OpSlab.payloads_drain _)
    · intro slot completed waker cqe hmem
      obtain ⟨p, -, waker', heq⟩ := hes _ hmem
      cases heq
    · rw [Sys.withWorld, World.release_inner]
      exact ⟨rfl, rfl, rfl⟩
  | detached t =>
    exact h.calm [] rfl hnil honce hfrozen ⟨rfl, rfl, rfl, rfl⟩ rfl rfl
      (OpSlab.payloadAt_detach ..)
  | polled | filled =>
    exact h.calm [_] rfl (by simp [Event.reaps]) honce hfrozen ⟨rfl, rfl, rfl, rfl⟩ rfl rfl
      rfl
  | delivered =>
    refine h.calm [_] ((congrArg World.trace (Sys.receive_world ..)).trans
      (World.trace_deliver ..)) (by simp [Event.reaps]) honce hfrozen ?_ ?_ ?_ ?_
    all_goals simp only [Sys.receive_world, World.inner_deliver]
    exact ⟨rfl, rfl, rfl, rfl⟩
  | forgotten =>
    refine h.calm [_] (World.trace_dropFutureRef ..) (by simp [Event.reaps]) honce hfrozen ?_ ?_ ?_ ?_
    all_goals simp only [World.inner_dropFutureRef]
    · exact ⟨rfl, rfl, rfl, rfl⟩
    all_goals rfl
  | handleDropped =>
    refine h.calm [] (World.trace_dropHandle ..) hnil honce hfrozen ?_ ?_ ?_ ?_
    all_goals simp only [World.inner_dropHandle]
    exact ⟨rfl, rfl, rfl, rfl⟩
  | _ => exact h.calm [] rfl hnil honce hfrozen ⟨rfl, rfl, rfl, rfl⟩ rfl rfl rfl

theorem accepted (h : Accounts s) (honce : AcceptedOnce s') (ha : Accepted s s' t p e f) :
    Accounts s' := by
  refine h.grow (p.sequential.toList.map (fun g =>
    .seqStarted g s.world.nextSlot (s.world.files g).cursor) ++
      [.accepted t p s.world.inner.fileRegistration]) ?_ ?_ honce ?_ ?_ ?_ ?_ ?_
  · rw [ha.trace, List.append_assoc]
    rfl
  · cases p.sequential <;> simp [Event.reaps]
  · exact .of_eq ha.nextRegistry ha.registries
  · exact ⟨ha.bufferRegistration, ha.retiredBufferRegistrations, ha.fileRegistration,
      ha.retiredFileRegistrations⟩
  · rw [ha.ring]
    rfl
  · rw [ha.payloads.countP_eq, List.countP_cons, h.inFlight, ha.registrationInFlight]
    cases hp : p.registersBuffers with
    | false => simp
    | true =>
      have hidle : s.world.inner.registrationInFlight = false := by
        unfold OpPayload.registersBuffers at hp
        cases hpending : p.pendingRegistration with
        | none => simp [hpending] at hp
        | some pending =>
          cases pending with
          | files files => simp [hpending, PendingRegistration.isBuffers] at hp
          | buffers => exact (ha.admitted.replacing _ _ _ _ _ hpending).1
      rw [hidle]
      rfl
  · intro hc
    rw [ha.ring] at hc
    exact absurd (ha.isOpen.symm.trans hc) (by rintro ⟨⟩)

end Accounts

theorem kept_accounts (ok : Sys ws → Action ws → Prop) : KeptGiven ok OnRecord Accounts where
  initial s hs := by
    have hpayloads : s.payloads = [] := by
      rw [Sys.payloads, hs.inner]
      exact OpSlab.payloads_new
    have htrace : s.world.trace = [] := by
      rw [World.trace, hs.log]
      rfl
    refine
      { inFlight := by rw [hpayloads, hs.inner]; rfl
        buffers := fun _ => ?_
        files := fun _ => ?_
        known := by simp [htrace]
        ended := fun hc => ?_ }
    · rw [htrace, hs.inner]
      exact .nil
    · rw [htrace, hs.inner]
      exact .nil
    · rw [hs.inner] at hc
      cases hc
  move s s' hb hj h hm := h.move hb hj hm
  accepted s s' t p e f request answers hb hj h hok hmade ha :=
    h.accepted ((kept_acceptedOnce ok).accepted s s' t p e f request answers hb hj.2 hok hmade ha) ha
  setCursor s file position hb hj h hok :=
    h.calm [_] rfl (by simp [Event.reaps])
      ((kept_acceptedOnce ok).setCursor s file position hb hj.2 hok) (.of_eq rfl rfl)
      ⟨rfl, rfl, rfl, rfl⟩ rfl rfl rfl

theorem accounts_of_reachable (hr : (systemMachine ws).Reachable s) : Accounts s :=
  (((kept_onRecord _).and (kept_accounts _)).reachable hr).2

-- ---------------------------------------------------------------------------
-- Bookkeeping
-- ---------------------------------------------------------------------------

theorem World.unregistering_resolve (w : World ws) {p : OpPayload} (cqe : Cqe ws)
    (hp : p.registersBuffers = false) :
    (w.resolveCompletion p cqe).1.inner.registrationInFlight = w.inner.registrationInFlight ∧
      (w.resolveCompletion p cqe).1.inner.bufferRegistration = w.inner.bufferRegistration := by
  rw [resolveCompletion_inner]
  rcases w.settleRegistration_cases p (completionResult cqe.outcome) with
    ⟨-, h⟩ | ⟨pending, _, hpending, -, h⟩ | ⟨_, _, -, -, h⟩ | ⟨_, _, _, _, _, _, hpending, -, -⟩
  · rw [h]
    exact ⟨rfl, rfl⟩
  · have hfiles : pending.isBuffers = false := by
      rwa [OpPayload.registersBuffers, hpending] at hp
    rw [h, hfiles]
    exact ⟨Bool.and_true _, rfl⟩
  · rw [h]
    exact ⟨rfl, rfl⟩
  · rw [OpPayload.registersBuffers, hpending] at hp
    cases hp

/-- Reaping what is not the completion of a buffer registration. -/
theorem World.reapOne_unregistering (w : World ws) (failure : Option HResult)
    (hother : ∀ cqe rest op, w.inner.ring.completions = cqe :: rest → cqe.token.kind = .operation →
      w.inner.slab.cell cqe.token.key = some (.live op) → op.payload.registersBuffers = false) :
    (w.reapOne failure).1.inner.registrationInFlight = w.inner.registrationInFlight ∧
      (w.reapOne failure).1.inner.bufferRegistration = w.inner.bufferRegistration := by
  unfold World.reapOne
  split
  · exact ⟨rfl, rfl⟩
  · exact ⟨rfl, rfl⟩
  rename_i ring cqe hpop
  obtain ⟨rest, hcompletions, rfl⟩ := IoRing.pop_some hpop
  dsimp only
  split
  · exact ⟨rfl, rfl⟩
  rename_i hkind
  split
  · exact ⟨rfl, rfl⟩
  rename_i slab payload hcomplete
  have hkind : cqe.token.kind = .operation := by
    cases hk : cqe.token.kind with
    | operation => rfl
    | cancel => exact absurd hk hkind
  obtain ⟨op, hcell, rfl⟩ := OpSlab.complete_some hcomplete
  exact unregistering_resolve _ _ (hother cqe rest op hcompletions hkind hcell)

/-- In every reachable state: a buffer registration is in flight exactly when the
slab holds a request for one, and it holds one at most; while the ring is open
the current registrations are those whose completions were the last reaped with
success, and every one before them is kept; once it is closed there are none;
and no completion but a buffer registration's own changes what is in flight or
current. -/
theorem registration_books (hr : (systemMachine ws).Reachable s) :
    (s.payloads.countP OpPayload.registersBuffers =
      if s.world.inner.registrationInFlight then 1 else 0) ∧
    (s.world.inner.ring.closed = false →
      Succession (RegistersBuffers s.world.trace) (TellsBuffers s.world) s.world.trace
        s.world.inner.bufferRegistration s.world.inner.retiredBufferRegistrations ∧
      Succession (RegistersFiles s.world.trace) (TellsFiles s.world.trace) s.world.trace
        s.world.inner.fileRegistration s.world.inner.retiredFileRegistrations) ∧
    (s.world.inner.ring.closed = true → s.world.inner.bufferRegistration = none ∧
      s.world.inner.fileRegistration = none ∧ s.world.inner.registrationInFlight = false) ∧
    ∀ failure, (∀ cqe rest op, s.world.inner.ring.completions = cqe :: rest →
      cqe.token.kind = .operation → s.world.inner.slab.cell cqe.token.key = some (.live op) →
        op.payload.registersBuffers = false) →
      (s.world.reapOne failure).1.inner.registrationInFlight = s.world.inner.registrationInFlight ∧
        (s.world.reapOne failure).1.inner.bufferRegistration = s.world.inner.bufferRegistration := by
  have h := accounts_of_reachable hr
  refine ⟨?_, fun hc => ⟨h.buffers hc, h.files hc⟩, h.ended, fun failure hother => ?_⟩
  · rw [h.inFlight]
    cases s.world.inner.registrationInFlight <;> rfl
  · exact s.world.reapOne_unregistering failure hother

/-- A buffer is registered, and another in its place. -/
def registerTwice : List (Action .w64) :=
  [.start (.registerBuffers [⟨4096, 512, 512⟩]) .willing,
    .pollDrive 7 .willing,
    .execute ⟨.registerBuffers [⟨4096, 512⟩], 2 ^ 17⟩ registeredOk,
    .report ⟨.registerBuffers [⟨4096, 512⟩], 2 ^ 17⟩ registeredOk,
    .advance .willing, .advance .willing,
    .start (.registerBuffers [⟨8192, 512, 512⟩]) .willing,
    .advance .willing, .advance .willing,
    .execute ⟨.registerBuffers [⟨8192, 512⟩], 2 ^ 18⟩ registeredOk,
    .report ⟨.registerBuffers [⟨8192, 512⟩], 2 ^ 18⟩ registeredOk,
    .advance .willing]

/-- The second registration is current, and the first is kept. -/
theorem registration_books_superseded : ∃ s : Sys .w64,
    s.world.inner.bufferRegistration = some 1 ∧ s.world.inner.retiredBufferRegistrations = [0] ∧
    Succession (RegistersBuffers s.world.trace) (TellsBuffers s.world) s.world.trace
      s.world.inner.bufferRegistration s.world.inner.retiredBufferRegistrations := by
  obtain ⟨s, hrun, hopen, hcurrent, hretired⟩ : ∃ s, (systemMachine .w64).run .new registerTwice =
      some s ∧ s.world.inner.ring.closed = false ∧ s.world.inner.bufferRegistration = some 1 ∧
      s.world.inner.retiredBufferRegistrations = [0] :=
    ⟨_, rfl, rfl, rfl, rfl⟩
  exact ⟨s, hcurrent, hretired, ((registration_books (reachable_of_run hrun)).2.1 hopen).1⟩

end WinIoring.Runtime
