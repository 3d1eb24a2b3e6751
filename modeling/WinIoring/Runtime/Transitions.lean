import WinIoring.Runtime.Safety

/-!
# What becomes of an operation

The ways a slot changes from one move to the next. A submission promotes every
built slot at once, and is counted. Everything else changes at most one slot, and
never how far its operation has got.
-/

namespace WinIoring.Runtime

open Slab

variable {ws : WordSize} {s s' : Sys ws}

/-- What can happen to a cell other than its promotion. -/
inductive CellMove : Option (Cell OpPayload) → Option (Cell OpPayload) → Prop
  | same : CellMove c c
  | requested (hlife : op.lifecycle = .submitted) (hcancel : op.cancel = .neverRequested) :
    CellMove (some (.live op)) (some (.live { op with cancel := .pending }))
  | cancelled (hcancel : op.cancel = .pending) :
    CellMove (some (.live op)) (some (.live { op with cancel := .completed }))
  | cleared : CellMove (some .tombstone) none
  | finished : CellMove (some (.live op)) op.finish
  | abandoned : CellMove (some (.live op)) none
  | detached : CellMove (some (.live op)) (some (.live { op with observer := .detached }))

namespace CellMove

variable {c c' : Option (Cell OpPayload)}

theorem of_eq {cell cell' : Key → Option (Cell OpPayload)} (h : cell' = cell) (k : Key) :
    CellMove (cell k) (cell' k) := by
  rw [h]
  exact .same

theorem of_update {cell cell' : Key → Option (Cell OpPayload)} (hk₀ : cell k₀ = c)
    (hcell : cell' = Function.update cell k₀ c') (h : CellMove c c') (k : Key) :
    CellMove (cell k) (cell' k) := by
  subst hcell hk₀
  by_cases hk : k = k₀
  · subst hk
    rw [Function.update_self]
    exact h
  · rw [Function.update_of_ne hk]
    exact .same

/-- Draining abandons what is live. -/
theorem drain {slab : OpSlab ws OpPayload} (k : Key) : CellMove (slab.cell k) (slab.drain.1.cell k) := by
  rw [OpSlab.cell_drain]
  cases slab.cell k with
  | none => exact .same
  | some c =>
    cases c with
    | live op => exact .abandoned
    | tombstone => exact .same

/-- An operation that is still there has got as far as it had. -/
theorem live (h : CellMove c c') {op' : Occupant OpPayload} (hc : c' = some (.live op')) :
    ∃ op, c = some (.live op) ∧ op'.lifecycle = op.lifecycle ∧ op'.payload = op.payload ∧
      (op.observer = .detached → op'.observer = .detached) ∧
      (op'.cancel = .neverRequested → op.cancel = .neverRequested) := by
  cases h with
  | same => exact ⟨op', hc, rfl, rfl, id, id⟩
  | requested =>
    obtain rfl := Cell.live.inj (Option.some.inj hc)
    exact ⟨_, rfl, rfl, rfl, id, nofun⟩
  | cancelled =>
    obtain rfl := Cell.live.inj (Option.some.inj hc)
    exact ⟨_, rfl, rfl, rfl, id, nofun⟩
  | cleared => cases hc
  | finished =>
    unfold Occupant.finish at hc
    split at hc <;> cases hc
  | abandoned => cases hc
  | detached =>
    obtain rfl := Cell.live.inj (Option.some.inj hc)
    exact ⟨_, rfl, rfl, rfl, fun _ => rfl, id⟩

/-- Nothing comes of an empty cell. -/
theorem exists_of_some (h : CellMove c c') {x : Cell OpPayload} (hc : c' = some x) : ∃ y, c = some y := by
  cases h with
  | same => exact ⟨x, hc⟩
  | cleared => cases hc
  | _ => exact ⟨_, rfl⟩

end CellMove

/-- Every built slot was promoted by one successful submission. -/
structure Promoted (d d' : DriverInner ws) : Prop where
  slab : d'.slab = d.slab.promoteBuiltToSubmitted
  submissions : d'.submissions = d.submissions + 1
  deferredCancels : d'.deferredCancels = d.deferredCancels

theorem Move.promoted_or (h : Move b s s') : Promoted s.world.inner s'.world.inner ∨
    s'.world.inner.submissions = s.world.inner.submissions ∧
      ∀ k, CellMove (s.world.inner.slab.cell k) (s'.world.inner.slab.cell k) := by
  cases h with
  | quiet hq => exact .inr ⟨hq.world.inner.submissions, CellMove.of_eq (congrArg _ hq.world.inner.slab)⟩
  | refused hcell => exact .inr ⟨rfl, CellMove.of_eq hcell⟩
  | cancelled _ _ hkind hlive hlife hcancel =>
    have hcell := (OpSlab.cell_registerCancel hkind hlive hcancel).1
    exact .inr ⟨rfl, CellMove.of_update hlive hcell (.requested hlife hcancel)⟩
  | submitted => exact .inl ⟨rfl, rfl, rfl⟩
  | @reapedCancel cqe _ _ _ _ hkind =>
    refine .inr ⟨rfl, ?_⟩
    by_cases hpending : ∃ c, s.world.inner.slab.cell cqe.token.key = some c ∧ c.cancelPending
    · obtain ⟨c, hc, hp⟩ := hpending
      refine CellMove.of_update hc (OpSlab.cell_completeCancel hkind hc hp).1 ?_
      cases c with
      | live op => exact .cancelled hp
      | tombstone => exact .cleared
    · have hinert := OpSlab.completeCancel_inert (s := s.world.inner.slab) (t := cqe.token)
        fun _ c hc hp => hpending ⟨c, hc, hp⟩
      exact CellMove.of_eq (congrArg (·.1.cell) hinert)
  | @resolved cqe rest _ op _ _ hkind hlive =>
    obtain ⟨_, _, _, _, _, hinner⟩ := (s.world.setInner { s.world.inner with
      slab := (s.world.inner.slab.complete cqe.token).1
      ring := { s.world.inner.ring with completions := rest } }).resolveCompletion_books op.payload cqe
    rw [Sys.withWorld, hinner]
    exact .inr ⟨rfl, CellMove.of_update hlive (OpSlab.cell_complete hkind hlive).1 .finished⟩
  | released =>
    rw [Sys.withWorld, World.release_inner]
    exact .inr ⟨rfl, CellMove.drain⟩
  | detached t =>
    refine .inr ⟨rfl, ?_⟩
    by_cases hlive : ∃ op, s.world.inner.slab.cell t.key = some (.live op)
    · obtain ⟨op, hop⟩ := hlive
      exact CellMove.of_update hop (OpSlab.cell_detach hop) .detached
    · exact CellMove.of_eq (congrArg (·.1.cell) (OpSlab.detach_inert (not_exists.mp hlive)))
  | delivered =>
    rw [Sys.receive_world, World.inner_deliver]
    exact .inr ⟨rfl, fun _ => .same⟩
  | forgotten =>
    rw [World.inner_dropFutureRef]
    exact .inr ⟨rfl, fun _ => .same⟩
  | handleDropped =>
    rw [World.inner_dropHandle]
    exact .inr ⟨rfl, fun _ => .same⟩
  | _ => exact .inr ⟨rfl, fun _ => .same⟩

/-- Teardown is final. -/
theorem Move.tornDown (h : Move b s s') (htorn : s.world.inner.tornDown = true) :
    s'.world.inner.tornDown = true := by
  cases h with
  | quiet hq => exact hq.world.inner.tornDown.trans htorn
  | resolved =>
    rw [Sys.withWorld, World.tornDown_resolveCompletion]
    exact htorn
  | released =>
    rw [Sys.withWorld, World.release_inner]
  | delivered =>
    rw [Sys.receive_world, World.inner_deliver]
    exact htorn
  | forgotten =>
    rw [World.inner_dropFutureRef]
    exact htorn
  | handleDropped =>
    rw [World.inner_dropHandle]
    exact htorn
  | _ => exact htorn

theorem Stride.tornDown (h : Stride s s' a) (htorn : s.world.inner.tornDown = true) :
    s'.world.inner.tornDown = true := by
  cases h with
  | moves hm hcalm =>
    clear hcalm
    induction hm with
    | refl => exact htorn
    | tail _ hlast ih => exact hlast.tornDown ih
  | accepted _ ha => exact ha.tornDown.trans htorn
  | setCursor hs => exact hs ▸ htorn

end WinIoring.Runtime
