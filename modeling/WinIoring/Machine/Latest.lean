import Mathlib

/-!
# The latest event of a kind

A log is read newest first. What its latest event of a kind tells is fixed until
the next event of that kind.
-/

namespace WinIoring.Machine

variable {ε : Type u} {α : Type v}

/-- What a log's latest event of a kind tells: nothing if it has none. -/
inductive Latest (kind : ε → Prop) (tells : ε → α → Prop) : List ε → Option α → Prop
  | nil : Latest kind tells [] none
  | hit (hkind : kind e) (htells : tells e a) : Latest kind tells (e :: es) (some a)
  | skip (hkind : ¬ kind e) (h : Latest kind tells es a) : Latest kind tells (e :: es) a

namespace Latest

variable {kind kind' : ε → Prop} {tells tells' : ε → α → Prop} {es es' : List ε} {a : Option α}

/-- Events of other kinds change nothing. -/
theorem append (h : Latest kind tells es a) (hes : ∀ e ∈ es', ¬ kind e) :
    Latest kind tells (es' ++ es) a := by
  induction es' with
  | nil => exact h
  | cons e es' ih =>
    exact .skip (hes e List.mem_cons_self) (ih fun x hx => hes x (List.mem_cons_of_mem _ hx))

theorem congr (h : Latest kind tells es a) (hkind : ∀ e ∈ es, kind' e ↔ kind e)
    (htells : ∀ e ∈ es, ∀ x, tells e x → tells' e x) : Latest kind' tells' es a := by
  induction h with
  | nil => exact .nil
  | @hit e x es hk hs =>
    exact .hit ((hkind e List.mem_cons_self).mpr hk) (htells e List.mem_cons_self x hs)
  | @skip e es a hk h ih =>
    refine .skip (fun hk' => hk ((hkind e List.mem_cons_self).mp hk')) (ih ?_ ?_)
    · exact fun x hx => hkind x (List.mem_cons_of_mem _ hx)
    · exact fun x hx => htells x (List.mem_cons_of_mem _ hx)

/-- An event of the log tells it. -/
theorem mem (h : Latest kind tells es (some x)) : ∃ e ∈ es, kind e ∧ tells e x := by
  generalize ha : some x = a at h
  induction h with
  | nil => cases ha
  | @hit e y es hk hs =>
    obtain rfl := Option.some.inj ha
    exact ⟨e, List.mem_cons_self, hk, hs⟩
  | @skip e es a hk h ih =>
    obtain ⟨e', he', hke', hse'⟩ := ih ha
    exact ⟨e', List.mem_cons_of_mem _ he', hke', hse'⟩

end Latest

/-- Each event of a kind replaces what the one before it told, and nothing that
was replaced is lost. -/
structure Succession (kind : ε → Prop) (tells : ε → α → Prop) (log : List ε) (current : Option α)
    (retired : List α) : Prop where
  latest : Latest kind tells log current
  kept : ∀ e ∈ log, kind e → ∃ a, tells e a ∧ a ∈ current.toList ++ retired

namespace Succession

variable {kind kind' : ε → Prop} {tells tells' : ε → α → Prop} {es es' : List ε}
  {current : Option α} {retired : List α}

theorem nil : Succession kind tells [] none [] where
  latest := .nil
  kept := nofun

theorem append (h : Succession kind tells es current retired) (hes : ∀ e ∈ es', ¬ kind e) :
    Succession kind tells (es' ++ es) current retired where
  latest := h.latest.append hes
  kept e he hk := h.kept e ((List.mem_append.mp he).resolve_left fun he => hes e he hk) hk

theorem succeed (h : Succession kind tells es current retired) (hkind : kind e) (htells : tells e a) :
    Succession kind tells (e :: es) (some a) (retired ++ current.toList) where
  latest := .hit hkind htells
  kept e' he hk := by
    rcases List.mem_cons.mp he with rfl | he
    · exact ⟨a, htells, List.mem_cons_self⟩
    · obtain ⟨b, hb, hmem⟩ := h.kept e' he hk
      exact ⟨b, hb, List.mem_append_right _ (List.perm_append_comm.mem_iff.mp hmem)⟩

theorem congr (h : Succession kind tells es current retired) (hkind : ∀ e ∈ es, kind' e ↔ kind e)
    (htells : ∀ e ∈ es, ∀ x, tells e x → tells' e x) : Succession kind' tells' es current retired where
  latest := h.latest.congr hkind htells
  kept e he hk := by
    obtain ⟨a, ha, hmem⟩ := h.kept e he ((hkind e he).mp hk)
    exact ⟨a, htells e he a ha, hmem⟩

end Succession

end WinIoring.Machine
