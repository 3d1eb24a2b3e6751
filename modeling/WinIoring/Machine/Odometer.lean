import Mathlib

/-!
# Odometers

A position that is read by whatever starts, and moves only once what has started
is settled. Where nothing is ever left unsettled when something starts, what reads
it reads the sum of all that started before.
-/

namespace WinIoring.Machine.Odometer

universe u

-- ---------------------------------------------------------------------------
-- Histories
-- ---------------------------------------------------------------------------

/-- What happens to an odometer. Histories are newest first. -/
inductive Tick (ι : Type u) where
  | started (i : ι)
  /-- It is over, and has gained something or come to nothing. -/
  | settled (i : ι) (n : Option Nat)
  | set (position : Nat)

section Histories

variable {ι : Type u} {i : ι} {ts ts' : List (Tick ι)}

def starts : List (Tick ι) → List ι
  | [] => []
  | .started i :: ts => i :: starts ts
  | _ :: ts => starts ts

def settles : List (Tick ι) → List ι
  | [] => []
  | .settled i _ :: ts => i :: settles ts
  | _ :: ts => settles ts

/-- The history since the position was last set. -/
def since : List (Tick ι) → List (Tick ι)
  | [] => []
  | .set _ :: _ => []
  | t :: ts => t :: since ts

/-- The position last set, or the one there was at first. -/
def base (start : Nat) : List (Tick ι) → Nat
  | [] => start
  | .set position :: _ => position
  | _ :: ts => base start ts

/-- No position is out of range. -/
def Within (cap : Nat) : List (Tick ι) → Prop
  | [] => True
  | .set position :: ts => position ≤ cap ∧ Within cap ts
  | _ :: ts => Within cap ts

/-- Nothing starts twice or once it has been settled, and nothing is settled
twice. -/
def Once : List (Tick ι) → Prop
  | [] => True
  | .started i :: ts => i ∉ starts ts ∧ i ∉ settles ts ∧ Once ts
  | .settled i _ :: ts => i ∉ settles ts ∧ Once ts
  | .set _ :: ts => Once ts

theorem starts_append (ts ts' : List (Tick ι)) : starts (ts ++ ts') = starts ts ++ starts ts' := by
  induction ts with
  | nil => rfl
  | cons t ts ih => cases t <;> simp [starts, ih]

theorem settles_append (ts ts' : List (Tick ι)) : settles (ts ++ ts') = settles ts ++ settles ts' := by
  induction ts with
  | nil => rfl
  | cons t ts ih => cases t <;> simp [settles, ih]

theorem starts_since (ts : List (Tick ι)) : starts (since ts) <+: starts ts := by
  induction ts with
  | nil => exact List.prefix_rfl
  | cons t ts ih =>
    cases t with
    | started j => exact List.cons_prefix_cons.mpr ⟨rfl, ih⟩
    | settled => exact ih
    | set => exact List.nil_prefix

theorem since_append (h : ∀ p, .set p ∉ ts) (ts' : List (Tick ι)) : since (ts ++ ts') = ts ++ since ts' := by
  induction ts with
  | nil => rfl
  | cons t ts ih =>
    have hrest := ih fun p hp => h p (List.mem_cons_of_mem _ hp)
    cases t with
    | set p => exact absurd List.mem_cons_self (h p)
    | started | settled => exact congrArg (List.cons _) hrest

theorem base_append (h : ∀ p, .set p ∉ ts) (start : Nat) (ts' : List (Tick ι)) :
    base start (ts ++ ts') = base start ts' := by
  induction ts with
  | nil => rfl
  | cons t ts ih =>
    have hrest := ih fun p hp => h p (List.mem_cons_of_mem _ hp)
    cases t with
    | set p => exact absurd List.mem_cons_self (h p)
    | started | settled => exact hrest

theorem Once.of_append (h : Once (ts ++ ts')) : Once ts' := by
  induction ts with
  | nil => exact h
  | cons t ts ih =>
    cases t with
    | started => exact ih h.2.2
    | settled => exact ih h.2
    | set => exact ih h

theorem Within.of_append {cap : Nat} (h : Within cap (ts ++ ts')) : Within cap ts' := by
  induction ts with
  | nil => exact h
  | cons t ts ih =>
    cases t with
    | started | settled => exact ih h
    | set => exact ih h.2

theorem Within.settled {cap : Nat} (h : Within cap ts') (hts : ∀ t ∈ ts, ∃ i n, t = .settled i n) :
    Within cap (ts ++ ts') := by
  induction ts with
  | nil => exact h
  | cons t ts ih =>
    obtain ⟨i, n, rfl⟩ := hts t List.mem_cons_self
    exact ih fun t ht => hts t (List.mem_cons_of_mem _ ht)

theorem Once.starts_nodup (h : Once ts) : (starts ts).Nodup := by
  induction ts with
  | nil => exact .nil
  | cons t ts ih =>
    cases t with
    | started => exact List.nodup_cons.mpr ⟨h.1, ih h.2.2⟩
    | settled => exact ih h.2
    | set => exact ih h

/-- What is settled is not settled again. -/
theorem Once.not_settled (h : Once (ts ++ ts')) (hi : i ∈ settles ts') : i ∉ settles ts := by
  induction ts with
  | nil => exact List.not_mem_nil
  | cons t ts ih =>
    cases t with
    | started => exact ih h.2.2
    | settled j n =>
      have hj : j ∉ settles ts' := fun hmem => h.1 (settles_append ts ts' ▸ List.mem_append_right _ hmem)
      rintro (_ | ⟨_, hmem⟩)
      · exact hj hi
      · exact ih h.2 hmem
    | set => exact ih h

end Histories

variable {ι : Type u} [DecidableEq ι] {cap start p : Nat} {i j : ι} {ts ts' : List (Tick ι)}

/-- What a history settles for one of those it started. -/
def gain (i : ι) : List (Tick ι) → Nat
  | [] => 0
  | .settled j n :: ts => (if j = i then n.getD 0 else 0) + gain i ts
  | _ :: ts => gain i ts

/-- What it settles for all of them. -/
def gains (ts : List (Tick ι)) (is : List ι) : Nat := (is.map fun i => gain i ts).sum

theorem gain_append (i : ι) (ts ts' : List (Tick ι)) : gain i (ts ++ ts') = gain i ts + gain i ts' := by
  induction ts with
  | nil => exact (Nat.zero_add _).symm
  | cons t ts ih => cases t <;> simp only [List.cons_append, gain, ih, Nat.add_assoc]

theorem gain_eq_zero (h : i ∉ settles ts) : gain i ts = 0 := by
  induction ts with
  | nil => rfl
  | cons t ts ih =>
    cases t with
    | settled j n =>
      have hne : j ≠ i := fun hji => h (hji ▸ List.mem_cons_self)
      have hnot : i ∉ settles ts := fun hi => h (List.mem_cons_of_mem _ hi)
      simp only [gain, if_neg hne, ih hnot]
    | started | set => exact ih h

/-- One that is among them gains. -/
theorem gains_settled {is : List ι} {n : Option Nat} (hnodup : is.Nodup) :
    gains (.settled i n :: ts) is = gains ts is + if i ∈ is then n.getD 0 else 0 := by
  induction is with
  | nil => rfl
  | cons j is ih =>
    obtain ⟨hj, hnodup⟩ := List.nodup_cons.mp hnodup
    have hrest := ih hnodup
    simp only [gains, List.map_cons, List.sum_cons, gain] at hrest ⊢
    rw [hrest]
    by_cases hij : i = j
    · subst hij
      simp [hj]
      omega
    · simp [hij]
      omega

-- ---------------------------------------------------------------------------
-- Readings
-- ---------------------------------------------------------------------------

structure Reading (ι : Type u) where
  position : Nat
  /-- What has started and is not settled. -/
  pending : List ι

def Reading.turn (cap : Nat) (r : Reading ι) : Tick ι → Reading ι
  | .started i => { r with pending := i :: r.pending }
  | .settled i n =>
    if i ∈ r.pending then
      { position := (n.map fun n => min (r.position + n) cap).getD r.position, pending := r.pending.erase i }
    else
      r
  | .set position => { r with position }

/-- Where a history leaves an odometer on which nothing was pending. -/
def read (cap start : Nat) : List (Tick ι) → Reading ι
  | [] => { position := start, pending := [] }
  | t :: ts => (read cap start ts).turn cap t

/-- Nothing starts, and the position is not set, with anything pending. -/
def Calm (cap start : Nat) : List (Tick ι) → Prop
  | [] => True
  | .settled _ _ :: ts => Calm cap start ts
  | _ :: ts => (read cap start ts).pending = [] ∧ Calm cap start ts

theorem Calm.of_append (h : Calm cap start (ts ++ ts')) : Calm cap start ts' := by
  induction ts with
  | nil => exact h
  | cons t ts ih =>
    cases t with
    | settled => exact ih h
    | started | set => exact ih h.2

/-- What is only settled starts nothing. -/
theorem Calm.settled (h : Calm cap start ts') (hts : ∀ t ∈ ts, ∃ i n, t = .settled i n) :
    Calm cap start (ts ++ ts') := by
  induction ts with
  | nil => exact h
  | cons t ts ih =>
    obtain ⟨i, n, rfl⟩ := hts t List.mem_cons_self
    exact ih fun t ht => hts t (List.mem_cons_of_mem _ ht)

theorem pending_spec (h : Once ts) : (read cap start ts).pending.Nodup ∧
    ∀ i, i ∈ (read cap start ts).pending ↔ i ∈ starts ts ∧ i ∉ settles ts := by
  induction ts with
  | nil => exact ⟨.nil, by simp [read, starts]⟩
  | cons t ts ih =>
    cases t with
    | started j =>
      obtain ⟨hstarts, hsettles, h⟩ := h
      obtain ⟨hnodup, hiff⟩ := ih h
      refine ⟨List.nodup_cons.mpr ⟨fun hmem => hstarts ((hiff j).mp hmem).1, hnodup⟩, fun i => ?_⟩
      simp only [read, Reading.turn, starts, settles, List.mem_cons, hiff]
      constructor
      · rintro (rfl | ⟨hi, hnot⟩)
        · exact ⟨.inl rfl, hsettles⟩
        · exact ⟨.inr hi, hnot⟩
      · rintro ⟨rfl | hi, hnot⟩
        · exact .inl rfl
        · exact .inr ⟨hi, hnot⟩
    | settled j n =>
      obtain ⟨hsettles, h⟩ := h
      obtain ⟨hnodup, hiff⟩ := ih h
      simp only [read, Reading.turn, starts, settles, List.mem_cons, not_or]
      split
      · refine ⟨hnodup.erase j, fun i => ?_⟩
        rw [hnodup.mem_erase_iff, hiff]
        tauto
      · rename_i hj
        refine ⟨hnodup, fun i => (hiff i).trans (and_congr_right fun hi => ?_)⟩
        refine (and_iff_right_of_imp fun hnot => ?_).symm
        rintro rfl
        exact hj ((hiff i).mpr ⟨hi, hnot⟩)
    | set => exact ih h

/-- In a calm history whatever is pending has started since the position was set. -/
theorem pending_since (hcalm : Calm cap start ts) (hi : i ∈ (read cap start ts).pending) : i ∈ starts (since ts) := by
  induction ts with
  | nil => cases hi
  | cons t ts ih =>
    cases t with
    | started j =>
      rw [read, Reading.turn, hcalm.1] at hi
      exact List.mem_singleton.mp hi ▸ List.mem_cons_self
    | settled j n =>
      refine ih hcalm ?_
      rw [read, Reading.turn] at hi
      split at hi
      · exact List.mem_of_mem_erase hi
      · exact hi
    | set =>
      rw [read, Reading.turn, hcalm.1] at hi
      cases hi

/-- In a calm history the position is the sum of all that started since it was set. -/
theorem position_eq (honce : Once ts) (hcalm : Calm cap start ts) (hstart : start ≤ cap) (hwithin : Within cap ts) :
    (read cap start ts).position = min (base start ts + gains ts (starts (since ts))) cap := by
  induction ts with
  | nil => simpa [read, base, gains, starts, since] using hstart
  | cons t ts ih =>
    cases t with
    | started j =>
      have hnone : gain j ts = 0 := gain_eq_zero honce.2.1
      have hgains : gains (.started j :: ts) (j :: starts (since ts)) = gains ts (starts (since ts)) := by
        simp only [gains, List.map_cons, List.sum_cons, gain, hnone, Nat.zero_add]
      exact (ih honce.2.2 hcalm.2 hwithin).trans (congrArg (fun g => min (base start ts + g) cap) hgains.symm)
    | settled j n =>
      have hposition := ih honce.2 hcalm hwithin
      have hnodup : (starts (since ts)).Nodup := honce.2.starts_nodup.sublist (starts_since ts).sublist
      have hpending : j ∈ (read cap start ts).pending ↔ j ∈ starts (since ts) := by
        refine ⟨pending_since hcalm, fun hj => ((pending_spec honce.2).2 j).mpr ⟨?_, honce.1⟩⟩
        exact (starts_since ts).subset hj
      simp only [read, Reading.turn, base, since, starts, gains_settled hnodup, hpending]
      split
      · cases n with
        | none => exact hposition
        | some n =>
          simp only [hposition, Option.map_some, Option.getD_some]
          omega
      · exact hposition
    | set position =>
      simp only [read, Reading.turn, base, since, starts, gains, List.map_nil, List.sum_nil, Nat.add_zero]
      exact (Nat.min_eq_left hwithin.1).symm

/-- What starts in a calm history reads the sum of all that started before it. -/
theorem reads_sum {after before : List (Tick ι)} (honce : Once (after ++ .started i :: before))
    (hcalm : Calm cap start (after ++ .started i :: before)) (hstart : start ≤ cap)
    (hwithin : Within cap (after ++ .started i :: before)) : (read cap start before).position =
      min (base start before + gains (after ++ .started i :: before) (starts (since before))) cap := by
  obtain ⟨hidle, hbefore⟩ := hcalm.of_append
  have hgains :
      gains (after ++ .started i :: before) (starts (since before)) = gains before (starts (since before)) := by
    refine congrArg List.sum (List.map_congr_left fun j hj => ?_)
    have hsettled : j ∈ settles before := by
      by_contra hnot
      have hpending : j ∈ (read cap start before).pending :=
        ((pending_spec honce.of_append.2.2).2 j).mpr ⟨(starts_since before).subset hj, hnot⟩
      rw [hidle] at hpending
      cases hpending
    have hafter : j ∉ settles after := honce.not_settled (i := j) hsettled
    rw [gain_append, gain_eq_zero hafter, Nat.zero_add]
    rfl
  rw [hgains]
  exact position_eq honce.of_append.2.2 hbefore hstart hwithin.of_append

/-- Of two that start in a calm history, the position not set between them, the
second reads more than the first unless the first gained nothing. -/
theorem reads_lt {after mid old : List (Tick ι)} (honce : Once (after ++ .started i :: (mid ++ .started j :: old)))
    (hcalm : Calm cap start (after ++ .started i :: (mid ++ .started j :: old))) (hstart : start ≤ cap)
    (hwithin : Within cap (after ++ .started i :: (mid ++ .started j :: old))) (hmid : ∀ p, .set p ∉ mid)
    (hgain : gain j (after ++ .started i :: (mid ++ .started j :: old)) ≠ 0)
    (hroom : (read cap start (mid ++ .started j :: old)).position < cap) :
    (read cap start old).position < (read cap start (mid ++ .started j :: old)).position := by
  have hsecond := reads_sum honce hcalm hstart hwithin
  have hsplit :
      after ++ .started i :: (mid ++ .started j :: old) = (after ++ .started i :: mid) ++ .started j :: old := by
    simp
  have hfirst := reads_sum (hsplit ▸ honce) (hsplit ▸ hcalm) hstart (hsplit ▸ hwithin)
  rw [← hsplit] at hfirst
  generalize after ++ .started i :: (mid ++ .started j :: old) = ts at *
  rw [since_append hmid, base_append hmid] at hsecond
  change _ = min (base start old + gains ts (starts (mid ++ .started j :: since old))) cap at hsecond
  rw [starts_append] at hsecond
  simp only [gains, starts, List.map_append, List.sum_append, List.map_cons, List.sum_cons] at hfirst hsecond
  omega

end WinIoring.Machine.Odometer
