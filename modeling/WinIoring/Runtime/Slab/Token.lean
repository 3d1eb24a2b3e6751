import Mathlib

/-!
# Tokens

A token is one machine word that names a slab slot, the generation it was issued
in, and which of two completions to expect. The word size is a parameter, since
the layout serves 32-bit and 64-bit targets alike.
-/

namespace WinIoring

/-- The targets the layout is written for. -/
inductive WordSize where
  | w32
  | w64
  deriving DecidableEq

/-- `usize::BITS`. -/
def WordSize.bits : WordSize → Nat
  | .w32 => 32
  | .w64 => 64

namespace Slab

def kindBits : Nat := 1

def indexBits : Nat := 16

/-- The bits left over for the generation counter. -/
def generationBits (ws : WordSize) : Nat := ws.bits - kindBits - indexBits

/-- The largest number of slots the token layout can address. -/
def maxSlots : Nat := 1 <<< indexBits

def kindMask : Nat := (1 <<< kindBits) - 1

def indexMask : Nat := (1 <<< indexBits) - 1

def generationMask (ws : WordSize) : Nat := (1 <<< generationBits ws) - 1

/-- The generation a slot starts at. One rather than zero, so that no issued
token is zero: the platform reads a cancellation target of zero as everything
on the handle. -/
def firstGeneration : Nat := 1

/-- What kind of completion a token identifies. -/
inductive TokenKind where
  | operation
  | cancel
  deriving DecidableEq

def TokenKind.bit : TokenKind → Nat
  | .operation => 0
  | .cancel => 1

/-- Identifies a slot, and what sort of completion to expect for it. -/
@[ext] structure Token (ws : WordSize) where
  raw : BitVec ws.bits
  deriving DecidableEq

namespace Token

variable {ws : WordSize}

instance : LawfulBEq (Token ws) := inferInstance

def new (kind : TokenKind) (index generation : Nat) : Token ws :=
  let usize := BitVec.ofNat ws.bits
  ⟨usize kind.bit |||
    ((usize index &&& usize indexMask) <<< kindBits) |||
    ((usize generation &&& usize (generationMask ws)) <<< (kindBits + indexBits))⟩

def kind (t : Token ws) : TokenKind :=
  if t.raw &&& BitVec.ofNat _ kindMask = 0 then .operation else .cancel

def index (t : Token ws) : Nat :=
  ((t.raw >>> kindBits) &&& BitVec.ofNat _ indexMask).toNat

def generation (t : Token ws) : Nat :=
  ((t.raw >>> (kindBits + indexBits)) &&& BitVec.ofNat _ (generationMask ws)).toNat

/-- The same slot and generation, identifying a cancellation request's own
completion. -/
def toCancel (t : Token ws) : Token ws := new .cancel t.index t.generation

/-- The same slot and generation, identifying the operation. -/
def toOperation (t : Token ws) : Token ws := new .operation t.index t.generation

def asUserData (t : Token ws) : BitVec ws.bits := t.raw

def fromUserData (value : BitVec ws.bits) : Token ws := ⟨value⟩

@[simp] theorem fromUserData_asUserData (t : Token ws) : fromUserData t.asUserData = t := rfl

@[simp] theorem asUserData_inj {t u : Token ws} : t.asUserData = u.asUserData ↔ t = u :=
  ⟨fun h => Token.ext h, fun h => h ▸ rfl⟩

-- ---------------------------------------------------------------------------
-- The layout in arithmetic
-- ---------------------------------------------------------------------------

theorem bits_eq (ws : WordSize) : ws.bits = 17 + generationBits ws := by
  cases ws <;> rfl

theorem generationBits_pos (ws : WordSize) : 1 < generationBits ws := by
  cases ws <;> decide

theorem generationMask_eq (ws : WordSize) : generationMask ws = 2 ^ generationBits ws - 1 := by
  simp [generationMask, Nat.shiftLeft_eq]

theorem firstGeneration_le_mask (ws : WordSize) : firstGeneration ≤ generationMask ws := by
  cases ws <;> decide

/-- Masking with the low `n` bits is a remainder. -/
theorem toNat_and_mask (x : BitVec w) (hn : n ≤ w) :
    (x &&& BitVec.ofNat w (2 ^ n - 1)).toNat = x.toNat % 2 ^ n := by
  have hlt : 2 ^ n - 1 < 2 ^ w := by
    have := Nat.pow_le_pow_right (n := 2) (by decide) hn
    have := Nat.two_pow_pos n
    omega
  rw [BitVec.toNat_and, BitVec.toNat_ofNat, Nat.mod_eq_of_lt hlt, Nat.and_two_pow_sub_one_eq_mod]

theorem kindBit_lt (kind : TokenKind) : kind.bit < 2 := by
  cases kind <;> decide

/-- The three fields of a fresh token, added up rather than or-ed. -/
theorem toNat_new (kind : TokenKind) (index generation : Nat) :
    (new kind index generation : Token ws).raw.toNat =
      kind.bit + 2 * (index % 2 ^ 16) + 2 ^ 17 * (generation % 2 ^ generationBits ws) := by
  have hk := kindBit_lt kind
  have hi : index % 2 ^ 16 < 2 ^ 16 := Nat.mod_lt _ (by decide)
  have hg : generation % 2 ^ generationBits ws < 2 ^ generationBits ws :=
    Nat.mod_lt _ (Nat.two_pow_pos _)
  have hw : 2 ^ ws.bits = 2 ^ 17 * 2 ^ generationBits ws := by
    rw [bits_eq, Nat.pow_add]
  have hg1 : 2 ≤ 2 ^ generationBits ws :=
    Nat.pow_le_pow_right (i := 1) Nat.two_pos (generationBits_pos ws).le
  have hindex : ((BitVec.ofNat ws.bits index &&& BitVec.ofNat ws.bits indexMask)).toNat
      = index % 2 ^ 16 := by
    have h16 : 16 ≤ ws.bits := by rw [bits_eq]; omega
    rw [show indexMask = 2 ^ 16 - 1 from rfl, toNat_and_mask _ h16, BitVec.toNat_ofNat,
      Nat.mod_mod_of_dvd _ (Nat.pow_dvd_pow 2 h16)]
  have hgen : (BitVec.ofNat ws.bits generation &&& BitVec.ofNat ws.bits (generationMask ws)).toNat
      = generation % 2 ^ generationBits ws := by
    have hle : generationBits ws ≤ ws.bits := by rw [bits_eq]; omega
    rw [generationMask_eq, toNat_and_mask _ hle, BitVec.toNat_ofNat,
      Nat.mod_mod_of_dvd _ (Nat.pow_dvd_pow 2 hle)]
  have hgw : 2 ^ 17 * (generation % 2 ^ generationBits ws) + 2 ^ 17 ≤ 2 ^ ws.bits := by
    rw [hw]; omega
  simp only [new, BitVec.toNat_or, BitVec.toNat_shiftLeft, hindex, hgen, BitVec.toNat_ofNat,
    Nat.shiftLeft_eq, show kindBits = 1 from rfl, show indexBits = 16 from rfl]
  rw [Nat.mod_eq_of_lt (a := kind.bit) (by omega), Nat.mod_eq_of_lt (a := _ * 2 ^ 1) (by omega),
    Nat.mod_eq_of_lt (a := _ * 2 ^ (1 + 16)) (by omega)]
  -- The fields occupy disjoint bits, so each `or` is a sum.
  have h1 : kind.bit ||| index % 2 ^ 16 * 2 ^ 1 = index % 2 ^ 16 * 2 ^ 1 + kind.bit := by
    rw [Nat.or_comm, ← Nat.shiftLeft_eq, Nat.shiftLeft_add_eq_or_of_lt (by omega)]
  have h2 : (index % 2 ^ 16 * 2 ^ 1 + kind.bit) |||
      generation % 2 ^ generationBits ws * 2 ^ (1 + 16) =
      generation % 2 ^ generationBits ws * 2 ^ (1 + 16) + (index % 2 ^ 16 * 2 ^ 1 + kind.bit) := by
    rw [Nat.or_comm, ← Nat.shiftLeft_eq, Nat.shiftLeft_add_eq_or_of_lt (by omega)]
  rw [h1, h2]
  omega

theorem kind_eq (t : Token ws) : t.kind = if t.raw.toNat % 2 = 0 then .operation else .cancel := by
  have h1 : 1 ≤ ws.bits := by rw [bits_eq]; omega
  have h := toNat_and_mask t.raw h1
  rw [Nat.pow_one] at h
  simp only [kind, show kindMask = 2 - 1 from rfl, ← BitVec.toNat_inj, h]
  rfl

theorem index_eq (t : Token ws) : t.index = t.raw.toNat / 2 % 2 ^ 16 := by
  have h16 : 16 ≤ ws.bits := by rw [bits_eq]; omega
  rw [index, show indexMask = 2 ^ 16 - 1 from rfl, toNat_and_mask _ h16,
    BitVec.toNat_ushiftRight, Nat.shiftRight_eq_div_pow]
  rfl

theorem generation_eq (t : Token ws) : t.generation = t.raw.toNat / 2 ^ 17 := by
  have hle : generationBits ws ≤ ws.bits := by rw [bits_eq]; omega
  have hlt : t.raw.toNat < 2 ^ 17 * 2 ^ generationBits ws := by
    rw [← Nat.pow_add, ← bits_eq]
    exact t.raw.isLt
  rw [generation, generationMask_eq, toNat_and_mask _ hle, BitVec.toNat_ushiftRight,
    Nat.shiftRight_eq_div_pow]
  exact Nat.mod_eq_of_lt (Nat.div_lt_of_lt_mul hlt)

-- ---------------------------------------------------------------------------
-- Packing and unpacking
-- ---------------------------------------------------------------------------

@[simp] theorem kind_new (kind : TokenKind) (i g : Nat) :
    (new kind i g : Token ws).kind = kind := by
  rw [kind_eq, toNat_new]
  cases kind
  · rw [if_pos (by simp only [TokenKind.bit]; omega)]
  · rw [if_neg (by simp only [TokenKind.bit]; omega)]

theorem index_new (kind : TokenKind) (i g : Nat) :
    (new kind i g : Token ws).index = i % 2 ^ 16 := by
  have hk := kindBit_lt kind
  rw [index_eq, toNat_new]
  omega

theorem generation_new (kind : TokenKind) (i g : Nat) :
    (new kind i g : Token ws).generation = g % 2 ^ generationBits ws := by
  have hk := kindBit_lt kind
  rw [generation_eq, toNat_new]
  omega

theorem index_lt (t : Token ws) : t.index < maxSlots := by
  rw [index_eq]
  exact Nat.mod_lt _ (by decide)

theorem generation_le (t : Token ws) : t.generation ≤ generationMask ws := by
  have hlt : t.raw.toNat < 2 ^ 17 * 2 ^ generationBits ws := by
    rw [← Nat.pow_add, ← bits_eq]
    exact t.raw.isLt
  have := Nat.div_lt_of_lt_mul hlt
  rw [generation_eq, generationMask_eq]
  omega

theorem index_new_of_lt {kind : TokenKind} (hi : i < maxSlots) : (new kind i g : Token ws).index = i := by
  rw [index_new]
  exact Nat.mod_eq_of_lt hi

theorem generation_new_of_le {kind : TokenKind} (hg : g ≤ generationMask ws) :
    (new kind i g : Token ws).generation = g := by
  have := Nat.two_pow_pos (generationBits ws)
  rw [generationMask_eq] at hg
  rw [generation_new, Nat.mod_eq_of_lt (by omega)]

/-- A token is its three fields. -/
theorem ext_fields {t u : Token ws} (hk : t.kind = u.kind) (hi : t.index = u.index)
    (hg : t.generation = u.generation) : t = u := by
  rw [kind_eq, kind_eq] at hk
  rw [index_eq, index_eq] at hi
  rw [generation_eq, generation_eq] at hg
  have hbit : t.raw.toNat % 2 = u.raw.toNat % 2 := by
    rcases Nat.mod_two_eq_zero_or_one t.raw.toNat with ht | ht <;>
      rcases Nat.mod_two_eq_zero_or_one u.raw.toNat with hu | hu <;> simp [ht, hu] at hk ⊢
  exact Token.ext (BitVec.eq_of_toNat_eq (by omega))

@[simp] theorem new_fields (t : Token ws) : new t.kind t.index t.generation = t :=
  ext_fields (kind_new ..) (index_new_of_lt t.index_lt) (generation_new_of_le t.generation_le)

@[simp] theorem kind_toCancel (t : Token ws) : t.toCancel.kind = .cancel := kind_new ..

@[simp] theorem index_toCancel (t : Token ws) : t.toCancel.index = t.index :=
  index_new_of_lt t.index_lt

@[simp] theorem generation_toCancel (t : Token ws) : t.toCancel.generation = t.generation :=
  generation_new_of_le t.generation_le

@[simp] theorem kind_toOperation (t : Token ws) : t.toOperation.kind = .operation := kind_new ..

@[simp] theorem index_toOperation (t : Token ws) : t.toOperation.index = t.index :=
  index_new_of_lt t.index_lt

@[simp] theorem generation_toOperation (t : Token ws) : t.toOperation.generation = t.generation :=
  generation_new_of_le t.generation_le

theorem toOperation_of_kind {t : Token ws} (h : t.kind = .operation) : t.toOperation = t :=
  ext_fields (by simp [h]) (by simp) (by simp)

theorem toCancel_of_kind {t : Token ws} (h : t.kind = .cancel) : t.toCancel = t :=
  ext_fields (by simp [h]) (by simp) (by simp)

@[simp] theorem toOperation_toCancel (t : Token ws) : t.toCancel.toOperation = t.toOperation :=
  ext_fields (by simp) (by simp) (by simp)

@[simp] theorem toCancel_toOperation (t : Token ws) : t.toOperation.toCancel = t.toCancel :=
  ext_fields (by simp) (by simp) (by simp)

theorem toCancel_ne {t u : Token ws} (hu : u.kind = .operation) : t.toCancel ≠ u := by
  intro h
  have := congrArg kind h
  simp [hu] at this

/-- A token whose generation has started counting is not the user data the
platform reads as a wildcard. -/
theorem asUserData_ne_zero {t : Token ws} (h : firstGeneration ≤ t.generation) :
    t.asUserData ≠ 0 := by
  intro hz
  rw [generation_eq, show t.raw = 0 from hz] at h
  simp [firstGeneration] at h

-- ---------------------------------------------------------------------------
-- The layout as a bijection
-- ---------------------------------------------------------------------------

/-- What unpacking a token reports. -/
structure Carries (t : Token ws) (kind : TokenKind) (index generation : Nat) : Prop where
  kind : t.kind = kind
  index : t.index = index
  generation : t.generation = generation

theorem carries_new {kind : TokenKind} (hi : i < maxSlots) (hg : g ≤ generationMask ws) :
    (new kind i g : Token ws).Carries kind i g :=
  ⟨kind_new .., index_new_of_lt hi, generation_new_of_le hg⟩

/-- Two packings that unpack to what was packed are told apart by any field. -/
theorem Carries.inj {t u : Token ws} (ht : t.Carries k i g) (hu : u.Carries k' i' g') (h : t = u) :
    k = k' ∧ i = i' ∧ g = g' := by
  subst h
  exact ⟨ht.kind.symm.trans hu.kind, ht.index.symm.trans hu.index,
    ht.generation.symm.trans hu.generation⟩

theorem carries_toCancel (t : Token ws) : t.toCancel.Carries .cancel t.index t.generation :=
  ⟨kind_toCancel t, index_toCancel t, generation_toCancel t⟩

theorem carries_toOperation (t : Token ws) : t.toOperation.Carries .operation t.index t.generation :=
  ⟨kind_toOperation t, index_toOperation t, generation_toOperation t⟩

/-- The kind bit alone separates an operation from a cancellation. -/
theorem asUserData_ne_of_kind {t u : Token ws} (ht : t.kind = .operation) (hu : u.kind = .cancel) :
    t.asUserData ≠ u.asUserData := by
  intro h
  rw [asUserData_inj.mp h, hu] at ht
  cases ht

/-- On either word size: an index and a generation in range come back from the
token they are packed into, also by way of user data, and no two packings in
range are one word; turning a token into its cancellation or into its operation
changes the kind only, and each turns the other back; no operation's user data
is a cancellation's; and every word is the packing of the fields it unpacks to,
which are in range. -/
theorem token_packing (ws : WordSize) :
    (∀ kind i g, i < maxSlots → g ≤ generationMask ws →
      (new kind i g : Token ws).Carries kind i g ∧
      (fromUserData (new kind i g : Token ws).asUserData).Carries kind i g) ∧
    (∀ kind i g kind' i' g', i < maxSlots → g ≤ generationMask ws → i' < maxSlots →
      g' ≤ generationMask ws →
      (new kind i g : Token ws).asUserData = (new kind' i' g' : Token ws).asUserData →
      kind = kind' ∧ i = i' ∧ g = g') ∧
    (∀ t : Token ws, t.toCancel.Carries .cancel t.index t.generation ∧
      t.toOperation.Carries .operation t.index t.generation ∧
      (t.kind = .operation → t.toCancel.toOperation = t) ∧
      (t.kind = .cancel → t.toOperation.toCancel = t)) ∧
    (∀ t u : Token ws, t.kind = .operation → u.kind = .cancel → t.asUserData ≠ u.asUserData) ∧
    ∀ w : BitVec ws.bits, ∃ i g, i < maxSlots ∧ g ≤ generationMask ws ∧
      (fromUserData w).Carries (fromUserData w).kind i g ∧
      (new (fromUserData w).kind i g : Token ws).asUserData = w := by
  refine ⟨?_, ?_, ?_, ?_, ?_⟩
  · intro kind i g hi hg
    have h : (new kind i g : Token ws).Carries kind i g := carries_new hi hg
    exact ⟨h, by rwa [fromUserData_asUserData]⟩
  · intro kind i g kind' i' g' hi hg hi' hg' h
    exact (carries_new hi hg).inj (carries_new hi' hg') (asUserData_inj.mp h)
  · intro t
    refine ⟨carries_toCancel t, carries_toOperation t, ?_, ?_⟩
    · intro hk
      rw [toOperation_toCancel, toOperation_of_kind hk]
    · intro hk
      rw [toCancel_toOperation, toCancel_of_kind hk]
  · intro t u
    exact asUserData_ne_of_kind
  · intro w
    have h : new (fromUserData w).kind (fromUserData w).index (fromUserData w).generation =
        fromUserData w := new_fields _
    exact ⟨_, _, index_lt _, generation_le _, ⟨rfl, rfl, rfl⟩, congrArg asUserData h⟩

/-- The last slot in its last generation, on a 32-bit target: every bit of the
word is set but the kind. -/
theorem token_packing_last :
    (new .operation 65535 32767 : Token .w32).asUserData = 0xfffffffe ∧
    (new .operation 65535 32767 : Token .w32).Carries .operation 65535 32767 := by
  obtain ⟨hround, -⟩ := token_packing .w32
  exact ⟨rfl, (hround .operation 65535 32767 (by decide) (by decide)).1⟩

end Token

end Slab

end WinIoring
