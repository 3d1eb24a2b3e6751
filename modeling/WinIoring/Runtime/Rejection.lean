import WinIoring.Runtime.Slots

/-!
# Rejected requests

A request rejected before its entry is queued gives its buffers back and leaves
the driver as it was, but for a spent slot.
-/

namespace WinIoring.Runtime

open Slab

variable {ws : WordSize} {s s' : Sys ws} {slab : OpSlab ws OpPayload} {files : FileId → FileState}

/-- Two states that differ in nothing but slots no operation is in, and in what
is known of a file's type. -/
structure Restored (s s' : Sys ws) : Prop where
  inner : ∃ slab, s'.world.inner = { s.world.inner with slab }
  cell : s'.world.inner.slab.cell = s.world.inner.slab.cell
  occupied : s'.world.inner.slab.occupied = s.world.inner.slab.occupied
  outstanding : s'.world.inner.slab.outstanding = s.world.inner.slab.outstanding
  length : s'.world.inner.slab.length ≤ s.world.inner.slab.length + 1
  registries : s'.world.registries = s.world.registries
  nextRegistry : s'.world.nextRegistry = s.world.nextRegistry
  results : s'.world.results = s.world.results
  log : s'.world.log = s.world.log
  sequential : ∀ f,
    (s'.world.files f).sequentialOutstanding = (s.world.files f).sequentialOutstanding
  cursor : ∀ f, (s'.world.files f).cursor = (s.world.files f).cursor
  futures : s'.futures = s.futures
  handles : s'.handles.Perm s.handles

theorem Untouched.occupied {w : World ws} (h : Untouched w slab files) :
    slab.occupied = w.inner.slab.occupied := by
  have hpayload := OpSlab.payloadAt_congr h.cell
  refine Nat.le_antisymm (OpSlab.occupied_le fun k p hp => ?_) (OpSlab.occupied_le fun k p hp => ?_)
  · exact ⟨p, hpayload ▸ hp⟩
  · exact ⟨p, hpayload ▸ hp⟩

theorem Untouched.outstanding {w : World ws} (h : Untouched w slab files) :
    slab.outstanding = w.inner.slab.outstanding := by
  refine Nat.le_antisymm (OpSlab.outstanding_le fun k c hc => ?_)
    (OpSlab.outstanding_le fun k c hc => ?_)
  · exact ⟨c, h.cell ▸ hc⟩
  · exact ⟨c, h.cell ▸ hc⟩

/-- A start that rejects its request restores what was there before. -/
theorem Untouched.restored (h : Untouched s.world slab files) (hhandles : handles.Perm s.handles) :
    Restored s { s with
      world := { s.world with inner := { s.world.inner with slab }, files }
      handles } where
  inner := ⟨slab, rfl⟩
  cell := h.cell
  occupied := h.occupied
  outstanding := h.outstanding
  length := h.length
  registries := rfl
  nextRegistry := rfl
  results := rfl
  log := rfl
  sequential f := (h.files f).2
  cursor f := (h.files f).1
  futures := rfl
  handles := hhandles

/-- In every state, a request that is rejected, at whatever point and
for whatever reason, gives its caller the buffers it took, in their order, and
restores the driver, the registrations and the files. -/
theorem rejection_atomic {e : FileError} (hfree : s.borrow = .free)
    (hstep : (systemMachine ws).step s (.start request a) = some s')
    (hissue : s.issue request a = some ((world, .error (e, given)), handles)) :
    given = s.given request ∧ Restored s s' := by
  obtain ⟨hstarted, hhandles⟩ := issue_cases hissue
  rcases hstarted with ⟨e', slab, files, hleft, heq⟩ | ⟨t, p, e', heq, -⟩
  · obtain ⟨rfl, hgiven⟩ := Prod.mk.inj heq
    obtain ⟨-, rfl⟩ := Prod.mk.inj (Except.error.inj hgiven)
    refine ⟨rfl, ?_⟩
    have hstart : s.start request a = some s' := by
      simp only [systemMachine, Sys.step] at hstep
      split at hstep
      · cases hstep
      · simpa [Sys.callerRuns, Sys.applicationStep, hfree] using hstep
    simp only [Sys.start, hissue, Option.map_some, Option.some.injEq] at hstart
    exact hstart ▸ hleft.restored hhandles.symm
  · cases heq

/-- A sequential read whose entry the ring refuses, after its guard is taken and
its slot filled. -/
theorem rejection_atomic_refused : ∃ s s' : Sys .w64, ∃ a : StartAnswers,
    (systemMachine .w64).step s (.start (.seqRead 3 (.owned ⟨4096, 512, 0⟩) 512) a) = some s' ∧
    s'.world.inner.slab.length = 1 ∧ Restored s s' := by
  obtain ⟨s', hstep, hlength⟩ : ∃ s', (systemMachine .w64).step .new
      (.start (.seqRead 3 (.owned ⟨4096, 512, 0⟩) 512)
        { StartAnswers.willing with refusal := some submissionQueueFull }) = some s' ∧
      s'.world.inner.slab.length = 1 :=
    ⟨_, rfl, by decide⟩
  obtain ⟨world, e, handles, hissue⟩ : ∃ world e handles, (Sys.new : Sys .w64).issue
      (.seqRead 3 (.owned ⟨4096, 512, 0⟩) 512)
      { StartAnswers.willing with refusal := some submissionQueueFull } =
        some ((world, .error (e, [.owned ⟨4096, 512, 0⟩])), handles) :=
    ⟨_, _, _, rfl⟩
  exact ⟨.new, s', _, hstep, hlength, (rejection_atomic rfl hstep hissue).2⟩

end WinIoring.Runtime
