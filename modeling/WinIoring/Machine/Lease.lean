import Mathlib

/-!
# Leases

Things that are lent out one at a time: a list of what is held, wherever it is
held, and a mark on each thing. The marks tell exactly what is held, and nothing
is held twice.
-/

namespace WinIoring.Machine

variable {α : Type u} {held held' : List α} {marked marked' : α → Prop} {a : α}

structure Lease (held : List α) (marked : α → Prop) : Prop where
  nodup : held.Nodup
  marked_iff : ∀ a, marked a ↔ a ∈ held

namespace Lease

theorem nil (h : ∀ a, ¬ marked a) : Lease [] marked where
  nodup := .nil
  marked_iff a := iff_of_false (h a) List.not_mem_nil

/-- What is held may change hands. -/
theorem perm (h : Lease held marked) (hperm : held'.Perm held) (hmarked : ∀ a, marked' a ↔ marked a) :
    Lease held' marked' where
  nodup := hperm.nodup_iff.mpr h.nodup
  marked_iff a := (hmarked a).trans ((h.marked_iff a).trans hperm.mem_iff.symm)

/-- Something unmarked is lent out and marked. -/
theorem claim (h : Lease held marked) (hfree : ¬ marked a)
    (hmarked : ∀ b, marked' b ↔ marked b ∨ b = a) : Lease (a :: held) marked' where
  nodup := List.nodup_cons.mpr ⟨fun hmem => hfree ((h.marked_iff a).mpr hmem), h.nodup⟩
  marked_iff b := by rw [hmarked, h.marked_iff, List.mem_cons, or_comm]

/-- Something held goes, and its mark with it. -/
theorem release (h : Lease (a :: held) marked) (hmarked : ∀ b, marked' b ↔ marked b ∧ b ≠ a) :
    Lease held marked' where
  nodup := h.nodup.of_cons
  marked_iff b := by
    rw [hmarked, h.marked_iff, List.mem_cons]
    constructor
    · rintro ⟨hb, hne⟩
      exact hb.resolve_left hne
    · intro hb
      exact ⟨.inr hb, fun heq => (List.nodup_cons.mp h.nodup).1 (heq ▸ hb)⟩

/-- Nothing, or one thing, goes. -/
theorem releaseOption (a : Option α) (h : Lease (a.toList ++ held) marked)
    (hmarked : ∀ b, marked' b ↔ marked b ∧ some b ≠ a) : Lease held marked' := by
  cases a with
  | none => exact h.perm (.refl _) fun b => by simp [hmarked]
  | some a => exact h.release fun b => by simp [hmarked]

end Lease

-- ---------------------------------------------------------------------------
-- Places
-- ---------------------------------------------------------------------------

section Places

variable {ι : Type v} [DecidableEq ι] {places : List ι} {i : ι}

/-- What is held in places that hold one thing each, with one of the places set
apart. -/
theorem perm_filterMap (h : places.Nodup) (hi : i ∈ places) (f : ι → Option α) :
    (places.filterMap f).Perm ((f i).toList ++ places.filterMap (Function.update f i none)) := by
  induction places with
  | nil => cases hi
  | cons j places ih =>
    obtain ⟨hj, hnodup⟩ := List.nodup_cons.mp h
    rcases List.mem_cons.mp hi with rfl | hi
    · have hsame : places.filterMap (Function.update f i none) = places.filterMap f :=
        List.filterMap_congr fun k hk => Function.update_of_ne (fun he : k = i => hj (he ▸ hk)) ..
      rw [List.filterMap_cons_none (Function.update_self ..), hsame]
      cases hf : f i with
      | none => rw [List.filterMap_cons_none hf, Option.toList, List.nil_append]
      | some a => rw [List.filterMap_cons_some hf]; exact .refl _
    · have hne : j ≠ i := fun he => hj (he ▸ hi)
      have hfj : Function.update f i none j = f j := Function.update_of_ne hne ..
      cases hf : f j with
      | none =>
        rw [List.filterMap_cons_none hf, List.filterMap_cons_none (hfj.trans hf)]
        exact ih hnodup hi
      | some a =>
        rw [List.filterMap_cons_some hf, List.filterMap_cons_some (hfj.trans hf)]
        exact ((ih hnodup hi).cons a).trans List.perm_middle.symm

/-- An empty place is filled. -/
theorem perm_filterMap_update (h : places.Nodup) (hi : i ∈ places) {f : ι → Option α}
    (hempty : f i = none) (a : Option α) :
    (places.filterMap (Function.update f i a)).Perm (a.toList ++ places.filterMap f) := by
  have hperm := perm_filterMap h hi (Function.update f i a)
  have hsame : Function.update f i none = f := by
    rw [← hempty]
    exact Function.update_eq_self i f
  rwa [Function.update_self, Function.update_idem, hsame] at hperm

end Places

end WinIoring.Machine
