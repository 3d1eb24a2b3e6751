import Mathlib

/-!
# Runs of a partial machine

A machine has start states and a partial step. Reachability is over runs whose
steps all meet a side condition, so that a law about every run and a law about
the runs of careful callers are instances of one notion, and both are proved by
one induction.
-/

universe u v

/-- The states a machine may start in, and what an action does to a state. An
action that is not enabled has no next state. -/
structure Machine (σ : Type u) (α : Type v) where
  init : σ → Prop
  step : σ → α → Option σ

namespace Machine

variable {σ : Type u} {α : Type v} {m : Machine σ α} {ok ok' : σ → α → Prop}

-- ---------------------------------------------------------------------------
-- Finite runs
-- ---------------------------------------------------------------------------

/-- Performs the actions in order, stopping at the first that is not enabled. -/
def run (m : Machine σ α) (s : σ) : List α → Option σ
  | [] => some s
  | a :: as => (m.step s a).bind fun s' => m.run s' as

@[simp] theorem run_nil (s : σ) : m.run s [] = some s := rfl

theorem run_cons : m.run s (a :: as) = some t ↔ ∃ s', m.step s a = some s' ∧ m.run s' as = some t := by
  simp [run, Option.bind_eq_some_iff]

theorem run_append : m.run s (as ++ bs) = some t ↔
    ∃ s', m.run s as = some s' ∧ m.run s' bs = some t := by
  induction as generalizing s with
  | nil => simp
  | cons a as ih =>
    simp only [List.cons_append, run_cons, ih]
    constructor
    · rintro ⟨s1, h1, s2, h2, h3⟩
      exact ⟨s2, ⟨s1, h1, h2⟩, h3⟩
    · rintro ⟨s2, ⟨s1, h1, h2⟩, h3⟩
      exact ⟨s1, h1, s2, h2, h3⟩

-- ---------------------------------------------------------------------------
-- Reachable states
-- ---------------------------------------------------------------------------

/-- The states some run reaches in which every step meets `ok`. -/
inductive ReachableBy (m : Machine σ α) (ok : σ → α → Prop) : σ → Prop
  | init (h : m.init s) : ReachableBy m ok s
  | step (hr : ReachableBy m ok s) (ha : ok s a) (hs : m.step s a = some s') : ReachableBy m ok s'

/-- The states some run reaches. -/
abbrev Reachable (m : Machine σ α) : σ → Prop := m.ReachableBy fun _ _ => True

theorem ReachableBy.mono (h : m.ReachableBy ok s) (himp : ∀ s a, ok s a → ok' s a) :
    m.ReachableBy ok' s := by
  induction h with
  | init h => exact .init h
  | step _ ha hs ih => exact .step ih (himp _ _ ha) hs

theorem ReachableBy.reachable (h : m.ReachableBy ok s) : m.Reachable s :=
  h.mono fun _ _ _ => trivial

theorem Reachable.next (h : m.Reachable s) (hs : m.step s a = some s') : m.Reachable s' :=
  .step h trivial hs

/-- The invariant rule. The step may use that its source is reachable, and with
it every invariant proved before. -/
theorem ReachableBy.invariant {I : σ → Prop} (h : m.ReachableBy ok s)
    (hinit : ∀ s, m.init s → I s)
    (hstep : ∀ s a s', m.ReachableBy ok s → I s → ok s a → m.step s a = some s' → I s') : I s := by
  induction h with
  | init h => exact hinit _ h
  | step hr ha hs ih => exact hstep _ _ _ hr ih ha hs

/-- A run of actions a side condition always allows. -/
theorem ReachableBy.run (h : m.ReachableBy ok s) (hok : ∀ a ∈ as, ∀ s, ok s a) (hrun : m.run s as = some t) :
    m.ReachableBy ok t := by
  induction as generalizing s with
  | nil => exact Option.some.inj hrun ▸ h
  | cons a as ih =>
    obtain ⟨s', hs, hrest⟩ := run_cons.mp hrun
    exact ih (.step h (hok a List.mem_cons_self s) hs) (fun a ha => hok a (List.mem_cons_of_mem _ ha)) hrest

theorem Reachable.run (h : m.Reachable s) (hrun : m.run s as = some t) : m.Reachable t := by
  induction as generalizing s with
  | nil =>
    simp only [run_nil, Option.some.injEq] at hrun
    exact hrun ▸ h
  | cons a as ih =>
    obtain ⟨s', hs, hrest⟩ := run_cons.mp hrun
    exact ih (h.next hs) hrest

/-- Every reachable state is the end of a run from a start state. -/
theorem Reachable.exists_run (h : m.Reachable s) : ∃ s0 as, m.init s0 ∧ m.run s0 as = some s := by
  induction h with
  | init h => exact ⟨_, [], h, rfl⟩
  | @step s a s' _ _ hs ih =>
    obtain ⟨s0, as, h0, hrun⟩ := ih
    exact ⟨s0, as ++ [a], h0, run_append.mpr ⟨s, hrun, run_cons.mpr ⟨s', hs, rfl⟩⟩⟩

/-- The machine started in one state. -/
def startingAt (m : Machine σ α) (s₀ : σ) : Machine σ α := { m with init := (· = s₀) }

theorem Reachable.of_startingAt (h₀ : m.Reachable s₀) (h : (m.startingAt s₀).Reachable s) :
    m.Reachable s := by
  induction h with
  | init heq => exact heq ▸ h₀
  | step _ _ hs ih => exact ih.next hs

/-- A run is no longer than what its steps use up. -/
theorem run_length_le {f : σ → Nat} (hstep : ∀ s a t, m.step s a = some t → f t < f s)
    (h : m.run s as = some t) : as.length + f t ≤ f s := by
  induction as generalizing s with
  | nil =>
    obtain rfl := Option.some.inj h
    exact Nat.le_of_eq (Nat.zero_add _)
  | cons a as ih =>
    obtain ⟨s', hs, hrest⟩ := run_cons.mp h
    have hlt := hstep s a s' hs
    have hle := ih hrest
    rw [List.length_cons]
    omega

/-- The machine with only the actions a check lets through. -/
def guarded (m : Machine σ α) (check : σ → α → Bool) : Machine σ α where
  init := m.init
  step s a := if check s a then m.step s a else none

/-- A run that passes a check meets every side condition the check implies. -/
theorem Reachable.of_guarded {check : σ → α → Bool} (h : (m.guarded check).Reachable s)
    (hok : ∀ s a, check s a → ok s a) : m.ReachableBy ok s := by
  induction h with
  | init h => exact .init h
  | @step s a s' _ _ hs ih =>
    simp only [guarded] at hs
    split at hs
    · exact .step ih (hok s a ‹_›) hs
    · cases hs

end Machine
