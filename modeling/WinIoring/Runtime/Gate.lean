import WinIoring.Runtime.Transitions

/-!
# The shutdown gate

The mode only rises, and once it has left running nothing enters the slab and no
buffer is checked out.
-/

namespace WinIoring.Runtime

open Slab

variable {ws : WordSize} {s s' : Sys ws}

/-- No move lowers the mode. -/
theorem Move.rank_le (h : Move b s s') :
    s.world.inner.shutdown.rank ≤ s'.world.inner.shutdown.rank := by
  cases h with
  | quiet hq => rw [hq.world.inner.shutdown]
  | escalated hless => exact hless.le
  | resolved =>
    rw [Sys.withWorld, World.shutdown_resolveCompletion]
    exact le_refl _
  | released =>
    rw [Sys.withWorld, World.release_inner]
    exact le_refl _
  | delivered =>
    rw [Sys.receive_world, World.inner_deliver]
  | forgotten => rw [World.inner_dropFutureRef]; exact le_refl _
  | handleDropped => rw [World.inner_dropHandle]
  | _ => exact le_refl _

/-- No move fills a slot. -/
theorem Move.cell (h : Move b s s') (hcell : s'.world.inner.slab.cell k = some c) :
    ∃ c', s.world.inner.slab.cell k = some c' := by
  rcases h.promoted_or with hpromoted | ⟨-, hcells⟩
  · rw [hpromoted.slab, OpSlab.cell_promote] at hcell
    obtain ⟨c', hc', -⟩ := Option.map_eq_some_iff.mp hcell
    exact ⟨c', hc'⟩
  · exact (hcells k).exists_of_some hcell

-- ---------------------------------------------------------------------------
-- Behind the gate
-- ---------------------------------------------------------------------------

/-- Nothing entered between two states. -/
structure Shut (s s' : Sys ws) : Prop where
  accepted : ∀ t p checked, .accepted t p checked ∈ s'.world.log →
    .accepted t p checked ∈ s.world.log
  payloads : ∀ k p, s'.world.inner.slab.payloadAt k = some p →
    s.world.inner.slab.payloadAt k = some p
  cells : ∀ k c, s'.world.inner.slab.cell k = some c → ∃ c', s.world.inner.slab.cell k = some c'

theorem Shut.refl (s : Sys ws) : Shut s s := ⟨fun _ _ _ => id, fun _ _ => id, fun _ c h => ⟨c, h⟩⟩

theorem Shut.trans (h : Shut s s') (h' : Shut s' s'') : Shut s s'' where
  accepted t p checked hacc := h.accepted t p checked (h'.accepted t p checked hacc)
  payloads k p hp := h.payloads k p (h'.payloads k p hp)
  cells k c hc := by
    obtain ⟨c', hc'⟩ := h'.cells k c hc
    exact h.cells k c' hc'

theorem mem_trace_accepted {w : World ws} :
    .accepted t p checked ∈ w.trace ↔ .accepted t p checked ∈ w.log := by
  simp [World.trace, Event.traced]

theorem Move.shut (h : Move b s s') : Shut s s' where
  accepted _ _ _ hacc := mem_trace_accepted.mp (h.mem_accepted.mp (mem_trace_accepted.mpr hacc))
  payloads _ _ := h.payloadAt
  cells _ _ := h.cell

theorem Moves.shut (h : Moves b s s') : Shut s s' := by
  induction h with
  | refl => exact .refl _
  | tail _ hlast ih => exact ih.trans hlast.shut

theorem Moves.rank_le (h : Moves b s s') :
    s.world.inner.shutdown.rank ≤ s'.world.inner.shutdown.rank := by
  induction h with
  | refl => exact le_refl _
  | tail _ hlast ih => exact ih.trans hlast.rank_le

/-- One step never lowers the mode, and lets nothing in once it has left
running. -/
theorem step_gate (hb : Books s) (h : s.step a = some s') :
    s.world.inner.shutdown.rank ≤ s'.world.inner.shutdown.rank ∧
      (s.world.inner.shutdown ≠ .running → Shut s s') := by
  cases step_stride hb.noneDescribed h with
  | moves hm _ => exact ⟨hm.rank_le, fun _ => hm.shut⟩
  | accepted _ ha =>
    rw [ha.shutdown]
    exact ⟨le_refl _, fun hmode => absurd ha.admitted.running hmode⟩
  | setCursor heq =>
    subst heq
    refine ⟨le_refl _, fun _ => ⟨fun t p checked hacc => ?_, fun _ _ => id, fun _ c hc => ⟨c, hc⟩⟩⟩
    rcases List.mem_cons.mp hacc with heq | hacc
    · cases heq
    · exact hacc

/-- Over every run: the mode never decreases; a torn-down driver is not running;
and from a state whose mode has left running, nothing enters the slab, no more
slots are in use, and no buffer is checked out. -/
theorem shutdown_gate (hr : (systemMachine ws).Reachable s) :
    (s.world.inner.tornDown = true → s.world.inner.shutdown ≠ .running) ∧
    (∀ as s', (systemMachine ws).run s as = some s' →
      s.world.inner.shutdown.rank ≤ s'.world.inner.shutdown.rank ∧
      (s.world.inner.shutdown ≠ .running → Shut s s' ∧
        s'.world.inner.slab.occupied ≤ s.world.inner.slab.occupied ∧
        s'.world.inner.slab.outstanding ≤ s.world.inner.slab.outstanding)) ∧
    (s.world.inner.shutdown ≠ .running → ∀ collection index s',
      s.step (.checkOut collection index) = some s' →
        s'.handles = s.handles ∧ s'.world = s.world) := by
  refine ⟨fun htorn => (books_of_reachable hr).shutdown (.inl htorn), fun as s' hrun => ?_,
    fun hmode collection index s' h => ?_⟩
  · suffices s.world.inner.shutdown.rank ≤ s'.world.inner.shutdown.rank ∧
        (s.world.inner.shutdown ≠ .running → Shut s s') by
      refine ⟨this.1, fun hmode => ⟨this.2 hmode, ?_, ?_⟩⟩
      · exact OpSlab.occupied_le fun k p hp => ⟨p, (this.2 hmode).payloads k p hp⟩
      · exact OpSlab.outstanding_le (this.2 hmode).cells
    induction as generalizing s with
    | nil =>
      obtain rfl := Option.some.inj hrun
      exact ⟨le_refl _, fun _ => .refl s⟩
    | cons a as ih =>
      obtain ⟨s₁, hstep, hrest⟩ := Machine.run_cons.mp hrun
      obtain ⟨hrank, hshut⟩ := step_gate (books_of_reachable hr) hstep
      obtain ⟨hrank', hshut'⟩ := ih (hr.next hstep) hrest
      refine ⟨hrank.trans hrank', fun hmode => (hshut hmode).trans (hshut' fun hrunning => hmode ?_)⟩
      rw [hrunning] at hrank
      cases hm : s.world.inner.shutdown with
      | running => rfl
      | _ => rw [hm] at hrank; exact absurd hrank (by decide)
  · unfold Sys.step at h
    split at h
    · cases h
    dsimp only at h
    split at h
    · obtain ⟨r, -, rfl⟩ := Option.map_eq_some_iff.mp h
      split
      · have hrefused : s.world.checkOut r index = (s.world, .error .shuttingDown) := by
          simp [World.checkOut, hmode]
        rw [hrefused]
        exact ⟨rfl, rfl⟩
      · exact ⟨rfl, rfl⟩
    · cases h

/-- A driver shut down with a read in flight: a second read is refused. -/
theorem shutdown_gate_draining : ∃ s s' : Sys .w64,
    s.world.inner.slab.occupied = 1 ∧ s.world.inner.shutdown = .graceful ∧
    (systemMachine .w64).run s [.start (.flush 4) .willing] = some s' ∧
    s'.world.inner.slab.occupied ≤ s.world.inner.slab.occupied := by
  obtain ⟨s, s', hrun, hocc, hmode, hrun'⟩ : ∃ s s', (systemMachine .w64).run .new
      [.start (.flush 3) .willing, .escalate .graceful] = some s ∧
      s.world.inner.slab.occupied = 1 ∧ s.world.inner.shutdown = .graceful ∧
      (systemMachine .w64).run s [.start (.flush 4) .willing] = some s' :=
    ⟨_, _, rfl, rfl, rfl, rfl⟩
  have hgate := (shutdown_gate (reachable_of_run hrun)).2.1 _ _ hrun'
  exact ⟨s, s', hocc, hmode, hrun', (hgate.2 (by simp [hmode])).2.1⟩

end WinIoring.Runtime
