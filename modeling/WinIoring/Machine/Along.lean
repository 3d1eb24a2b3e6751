import WinIoring.Machine.Run

/-!
# Along a run

Conditions on every step of a run, and what they add up to: where each step pays
for itself out of a potential, the cost of a run is bounded by the potential it
starts with and the credit its steps bring in.
-/

universe u v

namespace Machine

variable {σ : Type u} {α : Type v} {m : Machine σ α} {P Q : σ → α → Prop}

/-- Every step the actions take, from a state on, meets `P`. -/
def Along (m : Machine σ α) (P : σ → α → Prop) (s : σ) : List α → Prop
  | [] => True
  | a :: as => ∀ s', m.step s a = some s' → P s a ∧ m.Along P s' as

theorem Reachable.along_congr (h : m.Reachable s)
    (hiff : ∀ s a s', m.Reachable s → m.step s a = some s' → (P s a ↔ Q s a)) (as : List α) :
    m.Along P s as ↔ m.Along Q s as := by
  induction as generalizing s with
  | nil => exact Iff.rfl
  | cons a as ih =>
    refine forall_congr' fun s' => forall_congr' fun hs => ?_
    exact and_congr (hiff s a s' h hs) (ih (h.next hs))

theorem along_and : m.Along (fun s a => P s a ∧ Q s a) s as ↔ m.Along P s as ∧ m.Along Q s as := by
  induction as generalizing s with
  | nil => exact (and_self_iff).symm
  | cons a as ih =>
    simp only [Along, ih]
    constructor
    · intro h
      exact ⟨fun s' hs => ⟨(h s' hs).1.1, (h s' hs).2.1⟩, fun s' hs => ⟨(h s' hs).1.2, (h s' hs).2.2⟩⟩
    · rintro ⟨hp, hq⟩ s' hs
      exact ⟨⟨(hp s' hs).1, (hq s' hs).1⟩, (hp s' hs).2, (hq s' hs).2⟩

/-- A run along which `P` fails has a first step that breaks it. -/
theorem exists_of_not_along (h : ¬ m.Along P s as) :
    ∃ bs a cs u, as = bs ++ a :: cs ∧ m.run s bs = some u ∧ m.Along P s bs ∧ ¬ P u a := by
  induction as generalizing s with
  | nil => exact absurd trivial h
  | cons a as ih =>
    simp only [Along, not_forall] at h
    obtain ⟨s', hs, h⟩ := h
    by_cases ha : P s a
    · obtain ⟨bs, b, cs, u, rfl, hrun, halong, hb⟩ := ih fun hrest => h ⟨ha, hrest⟩
      refine ⟨a :: bs, b, cs, u, rfl, run_cons.mpr ⟨s', hs, hrun⟩, ?_, hb⟩
      intro t ht
      obtain rfl := Option.some.inj (hs.symm.trans ht)
      exact ⟨ha, halong⟩
    · exact ⟨[], a, as, s, rfl, rfl, trivial, ha⟩

/-- A run that passes a check meets what the check implies. -/
theorem along_of_guarded {check : σ → α → Bool} (h : (m.guarded check).run s as = some t)
    (hok : ∀ s a, check s a → P s a) : m.run s as = some t ∧ m.Along P s as := by
  induction as generalizing s with
  | nil => exact ⟨h, trivial⟩
  | cons a as ih =>
    obtain ⟨s', hs, hrest⟩ := run_cons.mp h
    obtain ⟨hrun, halong⟩ := ih hrest
    simp only [guarded] at hs
    split at hs
    · rename_i hcheck
      refine ⟨run_cons.mpr ⟨s', hs, hrun⟩, fun u hu => ⟨hok s a hcheck, ?_⟩⟩
      obtain rfl := Option.some.inj (hs.symm.trans hu)
      exact halong
    · cases hs

/-- The invariant rule for a run that meets a condition. -/
theorem Along.invariant {I : σ → Prop} (h : m.Along P s as) (hrun : m.run s as = some t)
    (hi : I s) (hstep : ∀ s a s', I s → P s a → m.step s a = some s' → I s') : I t := by
  induction as generalizing s with
  | nil =>
    obtain rfl := Option.some.inj hrun
    exact hi
  | cons a as ih =>
    obtain ⟨s', hs, hrest⟩ := run_cons.mp hrun
    obtain ⟨hp, h⟩ := h s' hs
    exact ih h hrest (hstep s a s' hi hp hs)

/-- The rule of potentials: what the steps of a run cost is what the potential
falls by and what they bring in, at `k` a unit. -/
theorem Along.cost_le {I : σ → Prop} {f : σ → Nat} {c d : α → Nat} {k : Nat} (h : m.Along P s as)
    (hrun : m.run s as = some t) (hi : I s)
    (hstep : ∀ s a s', I s → P s a → m.step s a = some s' →
      I s' ∧ c a + f s' ≤ f s + k * d a) :
    (as.map c).sum + f t ≤ f s + k * (as.map d).sum := by
  induction as generalizing s with
  | nil =>
    obtain rfl := Option.some.inj hrun
    simp
  | cons a as ih =>
    obtain ⟨s', hs, hrest⟩ := run_cons.mp hrun
    obtain ⟨hp, h⟩ := h s' hs
    obtain ⟨hi', hpays⟩ := hstep s a s' hi hp hs
    have hle := ih h hrest hi'
    simp only [List.map_cons, List.sum_cons, Nat.mul_add]
    omega

/-- What the steps of a run come to, where what one costs depends on the state it is
taken in. -/
def spent (m : Machine σ α) (c : σ → α → Nat) (s : σ) : List α → Nat
  | [] => 0
  | a :: as => c s a + (m.step s a).elim 0 fun s' => m.spent c s' as

/-- The rule of potentials for such costs. -/
theorem spent_le {I : σ → Prop} {f : σ → Nat} {c d : σ → α → Nat} {k : Nat} (hrun : m.run s as = some t) (hi : I s)
    (hstep : ∀ s a s', I s → m.step s a = some s' → I s' ∧ c s a + f s' ≤ f s + k * d s a) :
    m.spent c s as + f t ≤ f s + k * m.spent d s as := by
  induction as generalizing s with
  | nil =>
    obtain rfl := Option.some.inj hrun
    simp [spent]
  | cons a as ih =>
    obtain ⟨s', hs, hrest⟩ := run_cons.mp hrun
    obtain ⟨hi', hpays⟩ := hstep s a s' hi hs
    have hle := ih hrest hi'
    simp only [spent, hs, Option.elim_some, Nat.mul_add]
    omega

/-- A machine that pays for each step of its own comes to rest within what it has. -/
theorem exists_rest {I : σ → Prop} {busy : σ → Prop} {f : σ → Nat} (act : Nat → α) (hi : I s)
    (hstep : ∀ s n, I s → busy s → ∃ s', m.step s (act n) = some s' ∧ I s' ∧ 1 + f s' ≤ f s) :
    ∃ n t, n ≤ f s ∧ m.run s ((List.range n).map act) = some t ∧ I t ∧ ¬ busy t := by
  induction hf : f s using Nat.strong_induction_on generalizing s act with
  | h k ih =>
    by_cases hbusy : busy s
    · obtain ⟨s', hs, hi', hpays⟩ := hstep s 0 hi hbusy
      obtain ⟨n, t, hn, hrun, ht⟩ := ih (f s') (by omega) (fun n => act (n + 1)) hi' (fun s n => hstep s (n + 1)) rfl
      refine ⟨n + 1, t, by omega, ?_, ht⟩
      rw [List.range_succ_eq_map, List.map_cons, List.map_map]
      exact run_cons.mpr ⟨s', hs, hrun⟩
    · exact ⟨0, s, Nat.zero_le _, rfl, hi, hbusy⟩

end Machine
