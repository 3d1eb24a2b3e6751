import WinIoring.Runtime.Slab.Token

/-!
# Alignment

What a volume demands of offsets, lengths and addresses, as the host reports it,
and the one granularity the unbuffered arm uses for all three.
-/

namespace WinIoring.Bench

/-- A machine word. -/
abbrev Usize (ws : WordSize) := BitVec ws.bits

/-- `isize::MAX`. -/
def isizeMax (ws : WordSize) : Nat := 2 ^ (ws.bits - 1) - 1

-- ---------------------------------------------------------------------------
-- Least multiples
-- ---------------------------------------------------------------------------

/-- The least multiple of `g` that is at least `n`. -/
def IsLeastMultiple (g n k : Nat) : Prop := IsLeast {m | g ∣ m ∧ n ≤ m} k

namespace IsLeastMultiple

variable {g n k l : Nat}

theorem self (h : g ∣ n) : IsLeastMultiple g n n := ⟨⟨h, Nat.le_refl n⟩, fun _ hm => hm.2⟩

/-- The distance to the next multiple, unless there is none to go. -/
theorem pad (hg : 0 < g) (h : n % g ≠ 0) : IsLeastMultiple g n (n + (g - n % g)) := by
  have hmod := Nat.mod_add_div n g
  have hlt := Nat.mod_lt n hg
  have hsum : n + (g - n % g) = g * (n / g + 1) := by
    rw [Nat.mul_succ]
    omega
  refine ⟨⟨hsum ▸ Nat.dvd_mul_right .., Nat.le_add_right ..⟩, ?_⟩
  rintro m ⟨⟨q, rfl⟩, hm⟩
  -- A multiple below the next one is at most the previous one.
  by_contra hbelow
  rw [hsum] at hbelow
  have hq : q ≤ n / g := Nat.le_of_lt_succ (Nat.lt_of_mul_lt_mul_left (Nat.not_le.mp hbelow))
  have := Nat.mul_le_mul_left g hq
  omega

theorem unique (h : IsLeastMultiple g n k) (h' : IsLeastMultiple g n l) : k = l := IsLeast.unique h h'

theorem le (h : IsLeastMultiple g n k) : n ≤ k := h.1.2

end IsLeastMultiple

-- ---------------------------------------------------------------------------
-- Powers of two
-- ---------------------------------------------------------------------------

/-- Of two powers of two the smaller divides the larger. -/
theorem isPowerOfTwo_dvd {a b : Nat} (ha : a.isPowerOfTwo) (hb : b.isPowerOfTwo) (h : a ≤ b) : a ∣ b := by
  obtain ⟨i, rfl⟩ := ha
  obtain ⟨j, rfl⟩ := hb
  exact Nat.pow_dvd_pow 2 ((Nat.pow_le_pow_iff_right (by decide)).mp h)

/-- A list with nothing else in it than powers of two and zeros, and not only
zeros, has a power of two for its maximum, and everything in it divides that. -/
theorem foldl_max_isPowerOfTwo {rs : List Nat} (hrs : ∀ r ∈ rs, r = 0 ∨ r.isPowerOfTwo) {m : Nat}
    (hm : m.isPowerOfTwo) : (rs.foldl max m).isPowerOfTwo ∧ m ∣ rs.foldl max m ∧
      ∀ r ∈ rs, r ≠ 0 → r ∣ rs.foldl max m := by
  induction rs generalizing m with
  | nil => exact ⟨hm, Nat.dvd_refl m, by simp⟩
  | cons r rs ih =>
    have hmax : (max m r).isPowerOfTwo ∧ m ∣ max m r ∧ (r ≠ 0 → r ∣ max m r) := by
      rcases hrs r (by simp) with rfl | hr
      · exact ⟨by rwa [Nat.max_zero], by rw [Nat.max_zero], fun h => absurd rfl h⟩
      · have hpow : (max m r).isPowerOfTwo := by
          rcases Nat.le_total m r with h | h
          · rwa [Nat.max_eq_right h]
          · rwa [Nat.max_eq_left h]
        exact ⟨hpow, isPowerOfTwo_dvd hm hpow (Nat.le_max_left ..),
          fun _ => isPowerOfTwo_dvd hr hpow (Nat.le_max_right ..)⟩
    obtain ⟨hpow, hdvd, hr⟩ := hmax
    obtain ⟨hfold, hinit, hrest⟩ := ih (fun x hx => hrs x (by simp [hx])) hpow
    refine ⟨hfold, hdvd.trans hinit, fun x hx hne => ?_⟩
    rcases List.mem_cons.mp hx with rfl | hx
    · exact (hr hne).trans hinit
    · exact hrest x hx hne

-- ---------------------------------------------------------------------------
-- What the host reports
-- ---------------------------------------------------------------------------

/-- The errors of this module, with the values their texts give. -/
inductive AlignError where
  /-- A reported value that is present and not a power of two. -/
  | unsupported (name : String) (value : UInt32)
  | roundingOverflows (n align : Nat)
  | notPowerOfTwo (align : Nat)
  | layout
  | outOfMemory (cap align : Nat)
  deriving DecidableEq

structure Alignment where
  alignmentRequirement : UInt32
  logicalSector : UInt32
  physicalAtomicity : UInt32
  physicalPerformance : UInt32
  byteOffsetForSectorAlignment : UInt32
  diskBytesPerSector : UInt32
  deriving DecidableEq

def isPowerOfTwo (x : UInt32) : Bool := x.toNat.isPowerOfTwo

namespace Alignment

/-- The answers `validate` holds to being a power of two if they are there. -/
def optional (a : Alignment) : List (String × UInt32) := [
  ("PhysicalBytesPerSectorForAtomicity", a.physicalAtomicity),
  ("PhysicalBytesPerSectorForPerformance", a.physicalPerformance),
  ("AlignmentRequirement", a.alignmentRequirement),
  ("BytesPerSector", a.diskBytesPerSector)]

def validate (a : Alignment) : Except AlignError Unit := do
  if a.logicalSector = 0 ∨ ¬ isPowerOfTwo a.logicalSector then
    throw (.unsupported "LogicalBytesPerSector" a.logicalSector)
  a.optional.forM fun (name, value) =>
    if value ≠ 0 ∧ ¬ isPowerOfTwo value then throw (.unsupported name value) else pure ()

/-- The strictest of the reported values. -/
def granularity (ws : WordSize) (a : Alignment) : Usize ws :=
  .ofNat _ (max (max (max (max a.logicalSector a.physicalAtomicity) a.physicalPerformance)
    a.alignmentRequirement) a.diskBytesPerSector).toNat

/-- Every answer that is a demand on what a read names. -/
def requirements (a : Alignment) : List UInt32 := a.logicalSector :: a.optional.map Prod.snd

end Alignment

/-- `usize::checked_next_multiple_of`. -/
def checkedNextMultipleOf {w : Nat} (n rhs : BitVec w) : Option (BitVec w) :=
  let r := n % rhs
  if rhs = 0 then
    none
  else if r = 0 then
    some n
  else if n.toNat + (rhs - r).toNat < 2 ^ w then
    some (n + (rhs - r))
  else
    none

namespace Alignment

variable {ws : WordSize}

def roundUp (a : Alignment) (n : Usize ws) : Except AlignError (Usize ws) :=
  let g := a.granularity ws
  match checkedNextMultipleOf n g with
  | some m => .ok m
  | none => .error (.roundingOverflows n.toNat g.toNat)

/-- Whether `n` is a legal length or offset for an unbuffered read. -/
def isAligned (ws : WordSize) (a : Alignment) (n : UInt64) : Bool :=
  n % .ofNat (a.granularity ws).toNat = 0

end Alignment

-- ---------------------------------------------------------------------------
-- Aligned buffers
-- ---------------------------------------------------------------------------

/-- `Layout::from_size_align`: the size rounded up to the alignment has to stay
within `isize::MAX`. -/
def Layout.fromSizeAlign {ws : WordSize} (size align : Usize ws) : Bool :=
  align.toNat.isPowerOfTwo ∧ size.toNat + align.toNat ≤ isizeMax ws + 1

structure AlignedBuf (ws : WordSize) where
  ptr : Usize ws
  cap : Usize ws
  align : Usize ws
  len : Usize ws
  deriving DecidableEq

namespace AlignedBuf

variable {ws : WordSize}

/-- `alloc` is what the allocator answers a layout with. -/
def new (alloc : Usize ws → Usize ws → Option (Usize ws)) (cap align : Usize ws) :
    Except AlignError (AlignedBuf ws) :=
  if ¬ align.toNat.isPowerOfTwo then
    .error (.notPowerOfTwo align.toNat)
  else
    match checkedNextMultipleOf (if cap ≤ align then align else cap) align with
    | none => .error (.roundingOverflows cap.toNat align.toNat)
    | some cap =>
      if ¬ Layout.fromSizeAlign cap align then
        .error .layout
      else
        match alloc cap align with
        | none => .error (.outOfMemory cap.toNat align.toNat)
        | some ptr => .ok { ptr, cap, align, len := 0 }

/-- Whether the base address satisfies the alignment that was asked for. -/
def isAligned (b : AlignedBuf ws) : Bool := b.ptr % b.align = 0

end AlignedBuf

-- ---------------------------------------------------------------------------
-- Rounding
-- ---------------------------------------------------------------------------

/-- Rounding is exact, and fails only where the multiple is not a word. -/
theorem checkedNextMultipleOf_spec {w : Nat} {g : BitVec w} (hg : 0 < g.toNat) (n : BitVec w) :
    ∃ k, IsLeastMultiple g.toNat n.toNat k ∧
      checkedNextMultipleOf n g = if k < 2 ^ w then some (.ofNat w k) else none := by
  have hne : g ≠ 0 := by
    rintro rfl
    exact absurd hg (by simp)
  have hmod : (n % g).toNat = n.toNat % g.toNat := BitVec.toNat_umod
  by_cases hr : n % g = 0
  · have hdvd : g.toNat ∣ n.toNat := by
      refine Nat.dvd_of_mod_eq_zero ?_
      rw [← hmod, hr]
      rfl
    refine ⟨n.toNat, .self hdvd, ?_⟩
    rw [if_pos n.isLt, BitVec.ofNat_toNat, BitVec.setWidth_eq]
    simp only [checkedNextMultipleOf, hne, hr, if_true, if_false]
  · have hr' : n.toNat % g.toNat ≠ 0 := fun h => hr (BitVec.eq_of_toNat_eq (hmod.trans h))
    have hlt := Nat.mod_lt n.toNat hg
    have hsub : (g - n % g).toNat = g.toNat - n.toNat % g.toNat := by
      have hle : n % g ≤ g := by
        rw [BitVec.le_def, hmod]
        exact hlt.le
      rw [BitVec.toNat_sub_of_le hle, hmod]
    refine ⟨_, .pad hg hr', ?_⟩
    simp only [checkedNextMultipleOf, hne, hr, if_false, hsub]
    split
    · rename_i hfits
      refine congrArg some (BitVec.eq_of_toNat_eq ?_)
      rw [BitVec.toNat_add, hsub, BitVec.toNat_ofNat]
    · rfl

theorem checkedNextMultipleOf_eq_some {w : Nat} {g n m : BitVec w} (hg : 0 < g.toNat) :
    checkedNextMultipleOf n g = some m ↔ IsLeastMultiple g.toNat n.toNat m.toNat := by
  obtain ⟨k, hk, heq⟩ := checkedNextMultipleOf_spec hg n
  rw [heq]
  constructor
  · intro h
    split at h
    · rename_i hfits
      obtain rfl := Option.some.inj h
      rwa [BitVec.toNat_ofNat, Nat.mod_eq_of_lt hfits]
    · cases h
  · intro h
    obtain rfl := hk.unique h
    rw [if_pos m.isLt, BitVec.ofNat_toNat, BitVec.setWidth_eq]

theorem checkedNextMultipleOf_eq_none {w : Nat} {g n : BitVec w} (hg : 0 < g.toNat) :
    checkedNextMultipleOf n g = none ↔ ∃ k, IsLeastMultiple g.toNat n.toNat k ∧ 2 ^ w ≤ k := by
  obtain ⟨k, hk, heq⟩ := checkedNextMultipleOf_spec hg n
  rw [heq]
  constructor
  · intro h
    split at h
    · cases h
    · exact ⟨k, hk, Nat.not_lt.mp ‹_›⟩
  · rintro ⟨l, hl, hle⟩
    obtain rfl := hk.unique hl
    rw [if_neg (Nat.not_lt.mpr hle)]


-- ---------------------------------------------------------------------------
-- The granularity
-- ---------------------------------------------------------------------------

theorem forM_ok {ε : Type u} {β : Type v} {l : List β} {f : β → Except ε Unit} :
    l.forM f = .ok () ↔ ∀ x ∈ l, f x = .ok () := by
  induction l with
  | nil => simp [pure, Except.pure]
  | cons x l ih =>
    have hcons : (x :: l).forM f = (f x >>= fun _ => l.forM f) := rfl
    rw [hcons, List.forall_mem_cons, ← ih]
    cases f x <;> simp [bind, Except.bind]

theorem isPowerOfTwo_iff {x : UInt32} : isPowerOfTwo x = true ↔ x.toNat.isPowerOfTwo :=
  decide_eq_true_iff

theorem toNat_max (a b : UInt32) : (max a b).toNat = max a.toNat b.toNat := by
  show (if a ≤ b then b else a).toNat = max a.toNat b.toNat
  split
  · exact (Nat.max_eq_right (UInt32.le_iff_toNat_le.mp ‹_›)).symm
  · exact (Nat.max_eq_left (UInt32.le_iff_toNat_le.mp (UInt32.le_of_lt (UInt32.not_le.mp ‹_›)))).symm

namespace Alignment

variable {ws : WordSize} {a : Alignment}

/-- What a report that passed has said. -/
theorem of_validate (h : a.validate = .ok ()) : a.logicalSector.toNat.isPowerOfTwo ∧
    ∀ r ∈ a.requirements, r.toNat = 0 ∨ r.toNat.isPowerOfTwo := by
  unfold validate at h
  by_cases hsector : a.logicalSector = 0 ∨ ¬ isPowerOfTwo a.logicalSector
  · rw [if_pos hsector] at h
    cases h
  · rw [if_neg hsector] at h
    obtain ⟨-, hpow⟩ := not_or.mp hsector
    have hpow : a.logicalSector.toNat.isPowerOfTwo := isPowerOfTwo_iff.mp (not_not.mp hpow)
    refine ⟨hpow, fun r hr => ?_⟩
    rcases List.mem_cons.mp hr with rfl | hr
    · exact .inr hpow
    · obtain ⟨⟨name, value⟩, hmem, rfl⟩ := List.mem_map.mp hr
      have hvalue := forM_ok.mp h _ hmem
      dsimp only at hvalue
      by_cases hbad : value ≠ 0 ∧ ¬ isPowerOfTwo value
      · rw [if_pos hbad] at hvalue
        cases hvalue
      · by_cases hzero : value = 0
        · exact .inl (by rw [hzero]; rfl)
        · exact .inr (isPowerOfTwo_iff.mp (not_not.mp fun hp => hbad ⟨hzero, hp⟩))

/-- The granularity is the largest answer. -/
theorem toNat_granularity (ws : WordSize) (a : Alignment) : (a.granularity ws).toNat =
    (a.optional.map fun r => r.2.toNat).foldl max a.logicalSector.toNat := by
  have hbits : 2 ^ 32 ≤ 2 ^ ws.bits := by cases ws <;> decide
  rw [granularity, BitVec.toNat_ofNat, Nat.mod_eq_of_lt ((UInt32.toNat_lt _).trans_le hbits)]
  simp only [toNat_max, optional, List.map_cons, List.map_nil, List.foldl_cons, List.foldl_nil]

theorem granularity_spec (ws : WordSize) (h : a.validate = .ok ()) : (a.granularity ws).toNat.isPowerOfTwo ∧
    ∀ r ∈ a.requirements, r ≠ 0 → r.toNat ∣ (a.granularity ws).toNat := by
  obtain ⟨hsector, hall⟩ := of_validate h
  have hopt : ∀ r ∈ a.optional.map fun r => r.2.toNat, r = 0 ∨ r.isPowerOfTwo := by
    intro r hr
    obtain ⟨p, hp, rfl⟩ := List.mem_map.mp hr
    exact hall p.2 (List.mem_cons_of_mem _ (List.mem_map_of_mem hp))
  obtain ⟨hpow, hfirst, hrest⟩ := foldl_max_isPowerOfTwo hopt hsector
  rw [toNat_granularity]
  refine ⟨hpow, fun r hr hne => ?_⟩
  rcases List.mem_cons.mp hr with rfl | hr
  · exact hfirst
  · obtain ⟨p, hp, rfl⟩ := List.mem_map.mp hr
    exact hrest _ (List.mem_map.mpr ⟨p, hp, rfl⟩) fun hz => hne (UInt32.toNat_inj.mp hz)

theorem granularity_pos (h : a.validate = .ok ()) : 0 < (a.granularity ws).toNat :=
  Nat.pos_of_isPowerOfTwo (granularity_spec ws h).1

theorem roundUp_eq_ok (h : a.validate = .ok ()) {n m : Usize ws} :
    a.roundUp n = .ok m ↔ IsLeastMultiple (a.granularity ws).toNat n.toNat m.toNat := by
  rw [← checkedNextMultipleOf_eq_some (granularity_pos h), roundUp]
  cases checkedNextMultipleOf n (a.granularity ws) <;> simp

theorem roundUp_eq_error (h : a.validate = .ok ()) {n : Usize ws} :
    (∃ e, a.roundUp n = .error e) ↔
      ∃ k, IsLeastMultiple (a.granularity ws).toNat n.toNat k ∧ 2 ^ ws.bits ≤ k := by
  rw [← checkedNextMultipleOf_eq_none (granularity_pos h), roundUp]
  cases checkedNextMultipleOf n (a.granularity ws) <;> simp

/-- A length or an offset that passes is a multiple of the granularity. -/
theorem dvd_of_isAligned {n : UInt64} (h : a.isAligned ws n = true) : (a.granularity ws).toNat ∣ n.toNat := by
  have hzero : n % .ofNat (a.granularity ws).toNat = 0 := of_decide_eq_true h
  have hlt : (a.granularity ws).toNat < 2 ^ 64 :=
    (a.granularity ws).isLt.trans_le (by cases ws <;> decide)
  refine Nat.dvd_of_mod_eq_zero ?_
  have := congrArg UInt64.toNat hzero
  rwa [UInt64.toNat_mod, UInt64.toNat_ofNat_of_lt' hlt] at this

end Alignment

namespace AlignedBuf

variable {ws : WordSize}

theorem dvd_of_isAligned {b : AlignedBuf ws} (h : b.isAligned = true) : b.align.toNat ∣ b.ptr.toNat := by
  have hzero : b.ptr % b.align = 0 := of_decide_eq_true h
  refine Nat.dvd_of_mod_eq_zero ?_
  rw [← BitVec.toNat_umod, hzero]
  rfl

/-- What a buffer that was allocated looks like. -/
theorem of_new {alloc : Usize ws → Usize ws → Option (Usize ws)} {cap align : Usize ws} {b : AlignedBuf ws}
    (h : new alloc cap align = .ok b) : b.align = align ∧ align.toNat.isPowerOfTwo ∧
      IsLeastMultiple align.toNat (max cap.toNat align.toNat) b.cap.toNat ∧
      b.cap.toNat ≤ isizeMax ws := by
  unfold new at h
  split at h
  · cases h
  rename_i hpow
  have hpow := not_not.mp hpow
  split at h
  · cases h
  rename_i rounded hrounded
  split at h
  · cases h
  rename_i hlayout
  split at h
  · cases h
  obtain rfl := Except.ok.inj h
  have hpos := Nat.pos_of_isPowerOfTwo hpow
  have hleast := (checkedNextMultipleOf_eq_some hpos).mp hrounded
  have hmax : (if cap ≤ align then align else cap).toNat = max cap.toNat align.toNat := by
    split
    · exact (Nat.max_eq_right (BitVec.le_def.mp ‹_›)).symm
    · exact (Nat.max_eq_left (Nat.le_of_not_le fun hle => ‹¬ cap ≤ align› (BitVec.le_def.mpr hle))).symm
  obtain ⟨-, hsize⟩ := of_decide_eq_true (not_not.mp hlayout)
  refine ⟨rfl, hpow, hmax ▸ hleast, ?_⟩
  show rounded.toNat ≤ isizeMax ws
  omega

end AlignedBuf

/-- Whatever the volume reports: if the report passes, the granularity meets every
demand in it, rounding is to the least multiple and fails only where that is no
machine word, a check of an offset, a length or an address holds it to every
demand, and an allocation is of the least capacity that will do and within what
one may be. -/
theorem alignment_meets_requirements (ws : WordSize) {a : Alignment} (h : a.validate = .ok ()) :
    (∀ r ∈ a.requirements, r ≠ 0 → r.toNat ∣ (a.granularity ws).toNat) ∧
    (∀ n m : Usize ws,
      a.roundUp n = .ok m ↔ IsLeastMultiple (a.granularity ws).toNat n.toNat m.toNat) ∧
    (∀ n : Usize ws, (∃ e, a.roundUp n = .error e) ↔
      ∃ k, IsLeastMultiple (a.granularity ws).toNat n.toNat k ∧ 2 ^ ws.bits ≤ k) ∧
    (∀ n : UInt64, a.isAligned ws n = true → ∀ r ∈ a.requirements, r ≠ 0 → r.toNat ∣ n.toNat) ∧
    (∀ b : AlignedBuf ws, b.align = a.granularity ws → b.isAligned = true →
      ∀ r ∈ a.requirements, r ≠ 0 → r.toNat ∣ b.ptr.toNat) ∧
    ∀ alloc (cap align : Usize ws) b, AlignedBuf.new alloc cap align = .ok b →
      IsLeastMultiple align.toNat (max cap.toNat align.toNat) b.cap.toNat ∧
        b.cap.toNat ≤ isizeMax ws := by
  obtain ⟨-, hdvd⟩ := Alignment.granularity_spec ws h
  refine ⟨hdvd, fun n m => Alignment.roundUp_eq_ok h, fun n => Alignment.roundUp_eq_error h, ?_, ?_, ?_⟩
  · intro n hn r hr hne
    exact (hdvd r hr hne).trans (Alignment.dvd_of_isAligned hn)
  · intro b halign hb r hr hne
    exact (hdvd r hr hne).trans (halign ▸ AlignedBuf.dvd_of_isAligned hb)
  · intro alloc cap align b hb
    obtain ⟨-, -, hleast, hmax⟩ := AlignedBuf.of_new hb
    exact ⟨hleast, hmax⟩

/-- A volume with 512-byte logical and 4096-byte physical sectors, and nothing said
about the rest. -/
theorem alignment_meets_requirements_512e :
    ∃ a : Alignment, a.validate = .ok () ∧ (a.granularity .w64).toNat = 4096 ∧
      a.roundUp (4097 : Usize .w64) = .ok 8192 ∧
      (512 : UInt32).toNat ∣ (a.granularity .w64).toNat := by
  let a : Alignment := {
    alignmentRequirement := 1
    logicalSector := 512
    physicalAtomicity := 4096
    physicalPerformance := 4096
    byteOffsetForSectorAlignment := 0
    diskBytesPerSector := 0 }
  have hvalid : a.validate = .ok () := by decide
  obtain ⟨hdvd, -⟩ := alignment_meets_requirements .w64 hvalid
  exact ⟨a, hvalid, by decide, by decide, hdvd 512 (by decide) (by decide)⟩

end WinIoring.Bench
