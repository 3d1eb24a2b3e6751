import WinIoring.Machine.Run

/-!
# Watching a machine

What a run says beyond its last state: a history kept beside the state by an
observer that changes nothing, and the outputs of the steps in their order.
-/

universe u v w

namespace Machine

variable {σ : Type u} {α : Type v} {γ : Type w} {m : Machine σ α}

-- ---------------------------------------------------------------------------
-- Histories
-- ---------------------------------------------------------------------------

/-- The machine with a history beside its state. The observer sees each step and
the state on either side of it. -/
def watch (m : Machine σ α) (start : γ) (observe : σ → α → σ → γ → γ) : Machine (σ × γ) α where
  init p := m.init p.1 ∧ p.2 = start
  step p a := (m.step p.1 a).map fun s => (s, observe p.1 a s p.2)

variable {start : γ} {observe : σ → α → σ → γ → γ} {ok : σ × γ → α → Prop} {p p' : σ × γ}

theorem watch_step : (m.watch start observe).step p a = some p' ↔
    m.step p.1 a = some p'.1 ∧ p'.2 = observe p.1 a p'.1 p.2 := by
  simp only [watch, Option.map_eq_some_iff]
  constructor
  · rintro ⟨s, hs, rfl⟩
    exact ⟨hs, rfl⟩
  · rintro ⟨hs, heq⟩
    exact ⟨p'.1, hs, Prod.ext rfl heq.symm⟩

/-- Whatever can happen can be watched. -/
theorem exists_watch_run (h : m.run p.1 as = some t) :
    ∃ g, (m.watch start observe).run p as = some (t, g) := by
  induction as generalizing p with
  | nil =>
    obtain rfl := Option.some.inj h
    exact ⟨p.2, rfl⟩
  | cons a as ih =>
    obtain ⟨s', hs, hrest⟩ := run_cons.mp h
    obtain ⟨g, hg⟩ := ih (p := (s', observe p.1 a s' p.2)) hrest
    exact ⟨g, run_cons.mpr ⟨_, watch_step.mpr ⟨hs, rfl⟩, hg⟩⟩

/-- Whatever is watched can happen unwatched. -/
theorem ReachableBy.of_watch (h : (m.watch start observe).ReachableBy ok p) : m.Reachable p.1 := by
  induction h with
  | init h => exact .init h.1
  | step _ _ hs ih => exact ih.next (watch_step.mp hs).1

/-- The invariant rule for a watched machine. -/
theorem ReachableBy.invariant_watch {I : σ → γ → Prop} (h : (m.watch start observe).ReachableBy ok p)
    (hinit : ∀ s, m.init s → I s start)
    (hstep : ∀ s g a s', m.Reachable s → I s g → ok (s, g) a → m.step s a = some s' →
      I s' (observe s a s' g)) : I p.1 p.2 := by
  refine h.invariant (I := fun p => I p.1 p.2) ?_ ?_
  · rintro ⟨s, g⟩ ⟨hs, rfl⟩
    exact hinit s hs
  · rintro ⟨s, g⟩ a ⟨s', g'⟩ hr hi ha hs
    obtain ⟨hs, hg⟩ := watch_step.mp hs
    obtain rfl : g' = observe s a s' g := hg
    exact hstep s g a s' hr.of_watch hi ha hs

-- ---------------------------------------------------------------------------
-- Outputs
-- ---------------------------------------------------------------------------

variable {β : Type w} {out : σ → α → List β}

/-- What the steps of a run put out, in order. -/
def outputs (m : Machine σ α) (out : σ → α → List β) (s : σ) : List α → List β
  | [] => []
  | a :: as => out s a ++ ((m.step s a).map fun s' => m.outputs out s' as).getD []

/-- The rule for runs with outputs: a law that takes in each step's output holds
of the outputs of the whole run. -/
theorem outputs_run {I : σ → List β → Prop}
    (hstep : ∀ s a s' bs, I s bs → m.step s a = some s' → I s' (bs ++ out s a)) (h : I s bs)
    (hrun : m.run s as = some t) : I t (bs ++ m.outputs out s as) := by
  induction as generalizing s bs with
  | nil =>
    obtain rfl := Option.some.inj hrun
    simpa [outputs] using h
  | cons a as ih =>
    obtain ⟨s', hs, hrest⟩ := run_cons.mp hrun
    have := ih (hstep s a s' bs h hs) hrest
    simpa [outputs, hs] using this

end Machine
