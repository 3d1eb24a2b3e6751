import Mathlib

/-!
# Digests

A hash fed symbol by symbol, where no step can lose a difference, and a digest
that adds up the hashes of a collection, whatever its order.
-/

namespace WinIoring.Machine

-- ---------------------------------------------------------------------------
-- Feeding symbols
-- ---------------------------------------------------------------------------

section Feed

variable {σ : Type u} {β : Type v} {f : σ → β → σ}

/-- What comes after a difference does not hide it. -/
theorem foldl_injective (hstate : ∀ b, Function.Injective fun s => f s b) (l : List β) :
    Function.Injective fun s => l.foldl f s := by
  induction l with
  | nil => exact Function.injective_id
  | cons b l ih =>
    intro s s' h
    exact hstate b (ih h)

/-- Two inputs that differ in one symbol are told apart. -/
theorem foldl_symbol_injective (hstate : ∀ b, Function.Injective fun s => f s b)
    (hsymbol : ∀ s, Function.Injective (f s)) {s : σ} {before after : List β} {b b' : β}
    (h : (before ++ b :: after).foldl f s = (before ++ b' :: after).foldl f s) : b = b' := by
  rw [List.foldl_append, List.foldl_append, List.foldl_cons, List.foldl_cons] at h
  exact hsymbol _ (foldl_injective hstate after h)

end Feed

-- ---------------------------------------------------------------------------
-- Adding up
-- ---------------------------------------------------------------------------

section Sum

variable {δ : Type u} {M : Type v} [AddCommMonoid M]

def digest (hash : δ → M) (l : List δ) : M := (l.map hash).sum

variable {hash : δ → M} {l l' rest : List δ}

@[simp] theorem digest_nil : digest hash ([] : List δ) = 0 := rfl

@[simp] theorem digest_cons (x : δ) : digest hash (x :: l) = hash x + digest hash l := List.sum_cons

@[simp] theorem digest_append : digest hash (l ++ l') = digest hash l + digest hash l' := by
  rw [digest, List.map_append, List.sum_append]
  rfl

/-- The order does not matter. -/
theorem digest_perm (h : l.Perm l') : digest hash l = digest hash l' := (h.map hash).sum_eq

/-- Collections that differ in one place have different digests if the two hashes
there differ. -/
theorem digest_ne_of_perm_cons [IsCancelAdd M] {x y : δ} (hl : l.Perm (x :: rest)) (hl' : l'.Perm (y :: rest))
    (hne : hash x ≠ hash y) : digest hash l ≠ digest hash l' := by
  rw [digest_perm hl, digest_perm hl', digest_cons, digest_cons]
  exact fun h => hne (add_right_cancel h)

end Sum

end WinIoring.Machine
