import Mathlib

/-!
# Shared storage

Pieces of storage, numbered as they are made, that count who refers to them. What
a piece stores goes when the last reference to it does.
-/

namespace WinIoring.Machine

open scoped List

universe u

variable {β : Type u} {refs refs' : List Nat} {count count' : Nat → Nat} {n r : Nat}

-- ---------------------------------------------------------------------------
-- Counted references
-- ---------------------------------------------------------------------------

/-- Every reference is to a piece there is, and each piece counts its own. -/
structure Shared (refs : List Nat) (count : Nat → Nat) (n : Nat) : Prop where
  known : ∀ r ∈ refs, r < n
  counted : ∀ r < n, count r = refs.count r

namespace Shared

theorem nil (count : Nat → Nat) : Shared [] count 0 where
  known r hr := by cases hr
  counted r hr := absurd hr (Nat.not_lt_zero r)

theorem perm (h : Shared refs count n) (hrefs : refs'.Perm refs) : Shared refs' count n where
  known r hr := h.known r (hrefs.mem_iff.mp hr)
  counted r hr := (h.counted r hr).trans (hrefs.count_eq r).symm

theorem congr (h : Shared refs count n) (hcount : ∀ r < n, count' r = count r) : Shared refs count' n where
  known := h.known
  counted r hr := (hcount r hr).trans (h.counted r hr)

/-- A reference makes another. -/
theorem clone (h : Shared refs count n) (hr : r ∈ refs) :
    Shared (r :: refs) (Function.update count r (count r + 1)) n where
  known q hq := by
    rcases List.mem_cons.mp hq with rfl | hq
    · exact h.known q hr
    · exact h.known q hq
  counted q hq := by
    rw [Function.update_apply, List.count_cons, ← h.counted q hq]
    by_cases hqr : q = r
    · simp [hqr]
    · simp [hqr, Ne.symm hqr]

/-- A reference goes. -/
theorem drop (h : Shared (r :: refs) count n) : Shared refs (Function.update count r (count r - 1)) n where
  known q hq := h.known q (List.mem_cons_of_mem _ hq)
  counted q hq := by
    have hcount := h.counted q hq
    rw [List.count_cons] at hcount
    rw [Function.update_apply]
    by_cases hqr : q = r
    · subst hqr
      simp [hcount]
    · simp [hqr, hcount, Ne.symm hqr]

/-- Whoever refers to a piece is counted by it. -/
theorem pos (h : Shared refs count n) (hr : r ∈ refs) : 0 < count r :=
  h.counted r (h.known r hr) ▸ List.count_pos_iff.mpr hr

/-- A new piece, with its first references. -/
theorem create (h : Shared refs count n) (k : Nat) :
    Shared (List.replicate k n ++ refs) (Function.update count n k) (n + 1) where
  known q hq := by
    rcases List.mem_append.mp hq with hq | hq
    · exact (List.eq_of_mem_replicate hq).symm ▸ Nat.lt_succ_self n
    · exact (h.known q hq).trans (Nat.lt_succ_self n)
  counted q hq := by
    rw [Function.update_apply, List.count_append, List.count_replicate]
    by_cases hqn : q = n
    · subst hqn
      have hnone : refs.count q = 0 :=
        List.count_eq_zero.mpr fun hmem => Nat.lt_irrefl q (h.known q hmem)
      simp [hnone]
    · have hlt : q < n := Nat.lt_of_le_of_ne (Nat.le_of_lt_succ hq) hqn
      simp [hqn, Ne.symm hqn, h.counted q hlt]

end Shared

-- ---------------------------------------------------------------------------
-- What is stored
-- ---------------------------------------------------------------------------

/-- A list over the first numbers, with one of them set apart. -/
theorem flatMap_range_perm (f : Nat → List β) (hr : r < n) :
    ((List.range n).flatMap f).Perm (f r ++ (List.range n).flatMap (Function.update f r [])) := by
  have hmem : r ∈ List.range n := List.mem_range.mpr hr
  have hrest : ((List.range n).erase r).flatMap f = ((List.range n).erase r).flatMap (Function.update f r []) := by
    refine List.flatMap_congr fun q hq => ?_
    have hne : q ≠ r := (List.nodup_range.mem_erase_iff.mp hq).1
    rw [Function.update_of_ne hne]
  have hall := (List.perm_cons_erase hmem).flatMap_right f
  have hothers := (List.perm_cons_erase hmem).flatMap_right (Function.update f r [])
  rw [List.flatMap_cons, hrest] at hall
  rw [List.flatMap_cons, Function.update_self, List.nil_append] at hothers
  exact hall.trans (hothers.symm.append_left (f r))

/-- Changing one of them. -/
theorem flatMap_range_update (f : Nat → List β) (hr : r < n) (l : List β) :
    (f r ++ (List.range n).flatMap (Function.update f r l)).Perm (l ++ (List.range n).flatMap f) := by
  have hupdated := flatMap_range_perm (Function.update f r l) hr
  rw [Function.update_self, Function.update_idem] at hupdated
  have hold := flatMap_range_perm f hr
  calc f r ++ (List.range n).flatMap (Function.update f r l)
    _ ~ f r ++ (l ++ (List.range n).flatMap (Function.update f r [])) := hupdated.append_left (f r)
    _ ~ l ++ (f r ++ (List.range n).flatMap (Function.update f r [])) := List.perm_append_comm_assoc ..
    _ ~ l ++ (List.range n).flatMap f := hold.symm.append_left l

/-- What the pieces that somebody refers to store. -/
def stored (contents : Nat → List β) (count : Nat → Nat) (n : Nat) : List β :=
  (List.range n).flatMap fun r => if 0 < count r then contents r else []

theorem stored_congr {contents contents' : Nat → List β} (hcontents : ∀ r < n, contents' r = contents r)
    (hcount : ∀ r < n, 0 < count' r ↔ 0 < count r) : stored contents' count' n = stored contents count n := by
  refine List.flatMap_congr fun r hr => ?_
  rw [List.mem_range] at hr
  simp only [hcontents r hr, hcount r hr]

/-- A reference that is not the last takes nothing with it. -/
theorem stored_drop (contents : Nat → List β) (hcount : 1 < count r) :
    stored contents (Function.update count r (count r - 1)) n = stored contents count n := by
  refine stored_congr (fun _ _ => rfl) fun q _ => ?_
  rw [Function.update_apply]
  split
  · rename_i hqr
    subst hqr
    omega
  · rfl

theorem stored_clone (contents : Nat → List β) (hpos : 0 < count r) :
    stored contents (Function.update count r (count r + 1)) n = stored contents count n := by
  refine stored_congr (fun _ _ => rfl) fun q _ => ?_
  rw [Function.update_apply]
  split
  · rename_i hqr
    subst hqr
    omega
  · rfl

/-- The last takes what was stored. -/
theorem stored_last (contents : Nat → List β) (hr : r < n) (hcount : count r = 1) :
    (stored contents count n).Perm
      (contents r ++ stored contents (Function.update count r (count r - 1)) n) := by
  have hall := flatMap_range_perm (fun r => if 0 < count r then contents r else []) hr
  have hrest : Function.update (fun r => if 0 < count r then contents r else []) r [] =
      fun q => if 0 < Function.update count r (count r - 1) q then contents q else [] := by
    funext q
    by_cases hqr : q = r
    · subst hqr
      simp [hcount]
    · simp [hqr]
  rw [hrest] at hall
  simpa [stored, hcount] using hall

/-- A new piece adds what it stores. -/
theorem stored_create {contents contents' : Nat → List β} (hcontents : ∀ r < n, contents' r = contents r) {k : Nat}
    (hk : 0 < k) : stored contents' (Function.update count n k) (n + 1) = stored contents count n ++ contents' n := by
  have hold : stored contents' (Function.update count n k) n = stored contents count n := by
    refine stored_congr hcontents fun r hr => ?_
    rw [Function.update_of_ne (Nat.ne_of_lt hr)]
  rw [stored, List.range_succ, List.flatMap_append]
  change stored contents' (Function.update count n k) n ++ _ = _
  simp [hold, hk]

/-- With no references left nothing is stored. -/
theorem stored_nil (contents : Nat → List β) (h : Shared [] count n) : stored contents count n = [] := by
  refine List.flatMap_eq_nil_iff.mpr fun r hr => ?_
  rw [List.mem_range] at hr
  simp [h.counted r hr]

end WinIoring.Machine
