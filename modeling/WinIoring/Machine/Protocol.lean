import Mathlib

/-!
# Protocols

A protocol says which events may follow which. Its histories are kept newest
event first, as a log is. A protocol for one party gives one for any number of
parties that take no notice of each other, and what a whole history says of one
party is what that party's own events say.
-/

universe u v w

/-- Where a party starts, and where each event it may take part in leaves it. -/
structure Protocol (γ : Type u) (ε : Type v) where
  start : γ
  step : γ → ε → γ → Prop

namespace Protocol

variable {γ : Type u} {ε : Type v} {κ : Type w}

-- ---------------------------------------------------------------------------
-- Histories
-- ---------------------------------------------------------------------------

/-- The events, newest first, that lead from one state to another. -/
inductive Run (p : Protocol γ ε) (g : γ) : List ε → γ → Prop
  | nil : Run p g [] g
  | cons (h : Run p g es g') (hs : p.step g' e g'') : Run p g (e :: es) g''

/-- The histories of a protocol. -/
abbrev History (p : Protocol γ ε) : List ε → γ → Prop := p.Run p.start

variable {p : Protocol γ ε} {g g' g'' : γ} {es es' : List ε} {e : ε}

theorem Run.single (hs : p.step g e g') : p.Run g [e] g' := .cons .nil hs

@[simp] theorem run_nil : p.Run g [] g' ↔ g' = g := by
  constructor
  · intro h
    cases h
    rfl
  · rintro rfl
    exact .nil

@[simp] theorem run_cons : p.Run g (e :: es) g'' ↔ ∃ g', p.Run g es g' ∧ p.step g' e g'' := by
  constructor
  · intro h
    cases h with
    | cons h hs => exact ⟨_, h, hs⟩
  · rintro ⟨g', h, hs⟩
    exact .cons h hs

theorem Run.append (h : p.Run g es g') (h' : p.Run g' es' g'') : p.Run g (es' ++ es) g'' := by
  induction h' with
  | nil => exact h
  | cons _ hs ih => exact .cons ih hs

/-- A history can be cut anywhere. -/
theorem Run.split (h : p.Run g (es' ++ es) g'') : ∃ g', p.Run g es g' ∧ p.Run g' es' g'' := by
  induction es' generalizing g'' with
  | nil => exact ⟨g'', h, .nil⟩
  | cons e es' ih =>
    obtain ⟨x, hx, hs⟩ := run_cons.mp h
    obtain ⟨g', h, h'⟩ := ih hx
    exact ⟨g', h, .cons h' hs⟩

/-- The invariant rule for histories. -/
theorem Run.invariant {I : List ε → γ → Prop} (h : p.Run g es g') (h0 : I [] g)
    (hstep : ∀ es g e g', I es g → p.step g e g' → I (e :: es) g') : I es g' := by
  induction h with
  | nil => exact h0
  | cons _ hs ih => exact hstep _ _ _ _ ih hs

-- ---------------------------------------------------------------------------
-- What happens once
-- ---------------------------------------------------------------------------

/-- Events after which their kind cannot recur happen once, if at all. -/
theorem Run.countP_eq (h : p.Run g es g') (happens : ε → Bool) (done : γ → Bool) (h0 : done g = false)
    (honce : ∀ g e g', p.step g e g' → happens e = true → done g = false ∧ done g' = true)
    (hother : ∀ g e g', p.step g e g' → happens e = false → done g' = done g) :
    es.countP happens = if done g' then 1 else 0 := by
  induction h with
  | nil => simp [h0]
  | @cons es g₁ e g₂ _ hs ih =>
    rw [List.countP_cons, ih]
    cases he : happens e with
    | true =>
      obtain ⟨hbefore, hafter⟩ := honce _ _ _ hs he
      simp [hbefore, hafter]
    | false => simp [hother _ _ _ hs he]

-- ---------------------------------------------------------------------------
-- Many parties
-- ---------------------------------------------------------------------------

variable [DecidableEq κ] {key : ε → Option κ} {f f' : κ → γ}

/-- A protocol for each key. An event concerns the one party it is keyed by, or
none. -/
def each (p : Protocol γ ε) (key : ε → Option κ) : Protocol (κ → γ) ε where
  start := fun _ => p.start
  step f e f' := match key e with
    | none => f' = f
    | some k => ∃ g, p.step (f k) e g ∧ f' = Function.update f k g

theorem each_step_none (hkey : key e = none) : (p.each key).step f e f' ↔ f' = f := by
  simp only [each, hkey]

theorem each_step_some {k : κ} (hkey : key e = some k) :
    (p.each key).step f e f' ↔ ∃ g, p.step (f k) e g ∧ f' = Function.update f k g := by
  simp only [each, hkey]

/-- An event that concerns nobody may always happen. -/
theorem Run.skip (h : (p.each key).Run f es f') (hkey : key e = none) : (p.each key).Run f (e :: es) f' :=
  .cons h ((each_step_none hkey).mpr rfl)

theorem Run.skipAll {new : List ε} (h : (p.each key).Run f es f') (hkey : ∀ e ∈ new, key e = none) :
    (p.each key).Run f (new ++ es) f' := by
  induction new with
  | nil => exact h
  | cons e new ih =>
    exact (ih fun x hx => hkey x (List.mem_cons_of_mem _ hx)).skip (hkey e List.mem_cons_self)

theorem Run.move {k : κ} (h : (p.each key).Run f es f') (hkey : key e = some k) (hs : p.step (f' k) e g) :
    (p.each key).Run f (e :: es) (Function.update f' k g) :=
  .cons h ((each_step_some hkey).mpr ⟨g, hs, rfl⟩)

/-- What a history says of one party. -/
theorem Run.party (h : (p.each key).Run f es f') (k : κ) :
    p.Run (f k) (es.filter fun e => key e = some k) (f' k) := by
  induction h with
  | nil => exact .nil
  | @cons es f₁ e f₂ _ hs ih =>
    cases hkey : key e with
    | none =>
      obtain rfl := (each_step_none hkey).mp hs
      simpa [hkey] using ih
    | some k' =>
      obtain ⟨g, hg, rfl⟩ := (each_step_some hkey).mp hs
      by_cases hk : k' = k
      · subst hk
        simpa [hkey] using ⟨_, ih, hg⟩
      · simpa [hkey, hk, Function.update_of_ne (Ne.symm hk)] using ih

end Protocol
