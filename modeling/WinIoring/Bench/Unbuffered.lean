import WinIoring.Bench.Concurrency

/-!
# Unbuffered reads

The offsets an iteration of the unbuffered benchmark reads, and the loop that
issues the reads. Unbuffered I/O wants every offset on the device's granularity
and every block inside the file; the run wants every read whole.
-/

namespace WinIoring.Bench

inductive Scenario where
  | sequentialRead
  | randomRead
  | writeThenRead
  | bulkRead
  deriving DecidableEq

-- ---------------------------------------------------------------------------
-- Offsets
-- ---------------------------------------------------------------------------

def saturatingSub (a b : UInt64) : UInt64 := if b ≤ a then a - b else 0

/-- How many aligned offsets leave room for a whole block. -/
def slots (block align fileBytes : UInt64) : UInt64 := saturatingSub fileBytes block / align + 1

/-- One turn of the generator behind the random pattern. -/
def lcg (state : UInt64) : UInt64 := state * 6364136223846793005 + 1442695040888963407

/-- The generator's state after each of `n` turns. -/
def lcgStates (state : UInt64) : Nat → List UInt64
  | 0 => []
  | n + 1 => lcg state :: lcgStates (lcg state) n

/-- The slot either pattern makes of a number. -/
def slotOffset (slots align x : UInt64) : UInt64 := x % slots * align

def offsets (scenario : Scenario) (operations block align fileBytes : UInt64) : List UInt64 :=
  let align := max align 1
  let slots := slots block align fileBytes
  match scenario with
  | .sequentialRead => (List.range operations.toNat).map fun i => slotOffset slots align (.ofNat i)
  | _ => (lcgStates 0x2545F4914F6CDD1D operations.toNat).map fun (state : UInt64) =>
      slotOffset slots align (state >>> 16)

/-- Every offset is on the granularity, with a whole block after it. -/
def Legal (block align fileBytes : UInt64) (os : List UInt64) : Prop :=
  ∀ o ∈ os, (max align 1).toNat ∣ o.toNat ∧ o.toNat + block.toNat ≤ fileBytes.toNat

/-- Each offset is a block past the one before, or zero where no further block
fits. -/
def Contiguous (block fileBytes : UInt64) (os : List UInt64) : Prop :=
  ∀ i a b, os[i]? = some a → os[i + 1]? = some b →
    b.toNat = if a.toNat + 2 * block.toNat ≤ fileBytes.toNat then a.toNat + block.toNat else 0

/-- Until the offsets start over, no read overlaps a later one. -/
def Apart (block : UInt64) (os : List UInt64) : Prop :=
  ∀ i k a b, os[i]? = some a → os[i + k + 1]? = some b →
    (∀ j c, i < j → j ≤ i + k + 1 → os[j]? = some c → c ≠ 0) → a.toNat + block.toNat ≤ b.toNat

theorem Contiguous.apart {block fileBytes : UInt64} {os : List UInt64} (h : Contiguous block fileBytes os) :
    Apart block os := by
  intro i k
  induction k with
  | zero =>
    intro a b ha hb hforward
    have hnext := h i a b ha hb
    have hb0 := hforward (i + 0 + 1) b (by omega) (Nat.le_refl _) hb
    split at hnext
    · exact hnext.ge
    · exact absurd (UInt64.toNat_inj.mp hnext) hb0
  | succ k ih =>
    intro a b ha hb hforward
    obtain ⟨hlen, -⟩ := List.getElem?_eq_some_iff.mp hb
    obtain ⟨c, hc⟩ : ∃ c, os[i + k + 1]? = some c := ⟨_, List.getElem?_eq_getElem (by omega)⟩
    have hbefore := ih a c ha hc fun j d hij hj => hforward j d hij (by omega)
    have hnext := h (i + k + 1) c b hc hb
    have hb0 := hforward (i + (k + 1) + 1) b (by omega) (Nat.le_refl _) hb
    split at hnext
    · omega
    · exact absurd (UInt64.toNat_inj.mp hnext) hb0

section Offsets

variable {block align fileBytes : UInt64}

theorem one_le_granule (align : UInt64) : 0 < (max align 1).toNat := by
  have hone : (1 : UInt64) ≤ max align 1 := by
    show (1 : UInt64) ≤ if align ≤ 1 then 1 else align
    split
    · exact UInt64.le_refl 1
    · exact UInt64.le_of_lt (UInt64.not_le.mp ‹_›)
  exact UInt64.le_iff_toNat_le.mp hone

/-- The count of slots does not wrap. -/
theorem toNat_slots (hblock : 1 ≤ block) (hfile : block ≤ fileBytes) : (slots block align fileBytes).toNat =
    (fileBytes.toNat - block.toNat) / align.toNat + 1 := by
  have hsub := UInt64.toNat_sub_of_le _ _ hfile
  have hpos := UInt64.le_iff_toNat_le.mp hblock
  have hle := Nat.div_le_self (fileBytes.toNat - block.toNat) align.toNat
  have hlt := fileBytes.toNat_lt
  have hone : (1 : UInt64).toNat = 1 := rfl
  rw [hone] at hpos
  rw [slots, saturatingSub, if_pos hfile, UInt64.toNat_add, UInt64.toNat_div, hsub, hone]
  exact Nat.mod_eq_of_lt (by omega)

/-- The last slot still has room. -/
theorem slot_le (block align fileBytes x : Nat) :
    x % ((fileBytes - block) / align + 1) * align ≤ fileBytes - block := by
  have hmod := Nat.mod_lt x (Nat.succ_pos ((fileBytes - block) / align))
  have hmul := Nat.mul_le_mul_right align (Nat.le_of_lt_succ hmod)
  exact hmul.trans (Nat.div_mul_le_self ..)

/-- Nor does the offset of a slot. -/
theorem toNat_slotOffset (hblock : 1 ≤ block) (hfile : block ≤ fileBytes) (x : UInt64) :
    (slotOffset (slots block align fileBytes) align x).toNat =
      x.toNat % ((fileBytes.toNat - block.toNat) / align.toNat + 1) * align.toNat := by
  have hslot := slot_le block.toNat align.toNat fileBytes.toNat x.toNat
  have hlt := fileBytes.toNat_lt
  rw [slotOffset, UInt64.toNat_mul, UInt64.toNat_mod, toNat_slots hblock hfile]
  exact Nat.mod_eq_of_lt (by omega)

theorem slotOffset_legal (hblock : 1 ≤ block) (hfile : block ≤ fileBytes) (x : UInt64) :
    align.toNat ∣ (slotOffset (slots block align fileBytes) align x).toNat ∧
      (slotOffset (slots block align fileBytes) align x).toNat + block.toNat ≤ fileBytes.toNat := by
  have hslot := slot_le block.toNat align.toNat fileBytes.toNat x.toNat
  have hfits := UInt64.le_iff_toNat_le.mp hfile
  rw [toNat_slotOffset hblock hfile]
  exact ⟨Nat.dvd_mul_left .., by omega⟩

/-- Whatever the pattern, every offset is legal. -/
theorem offsets_legal (scenario : Scenario) (operations align : UInt64) (hblock : 1 ≤ block)
    (hfile : block ≤ fileBytes) :
    Legal block align fileBytes (offsets scenario operations block align fileBytes) := by
  intro o ho
  unfold offsets at ho
  dsimp only at ho
  split at ho
  all_goals
    obtain ⟨x, -, rfl⟩ := List.mem_map.mp ho
    exact slotOffset_legal hblock hfile _

theorem sequential_getElem? (hblock : 1 ≤ block) (hfile : block ≤ fileBytes) {operations align o : UInt64}
    {i : Nat} : (offsets .sequentialRead operations block align fileBytes)[i]? = some o ↔
      i < operations.toNat ∧ o.toNat =
        i % ((fileBytes.toNat - block.toNat) / (max align 1).toNat + 1) * (max align 1).toNat := by
  have hget : (offsets .sequentialRead operations block align fileBytes)[i]? =
      ((List.range operations.toNat)[i]?).map fun i =>
        slotOffset (slots block (max align 1) fileBytes) (max align 1) (.ofNat i) := List.getElem?_map ..
  rw [hget]
  by_cases hi : i < operations.toNat
  · have hnat : (UInt64.ofNat i).toNat = i := UInt64.toNat_ofNat_of_lt' (hi.trans operations.toNat_lt)
    rw [List.getElem?_range hi, Option.map_some, Option.some_inj, ← UInt64.toNat_inj,
      toNat_slotOffset hblock hfile, hnat, and_iff_right hi]
    exact eq_comm
  · rw [List.getElem?_eq_none (by simpa using hi)]
    exact iff_of_false nofun fun h => hi h.1

/-- Slots a block apart follow one another until there is no further one. -/
theorem slot_succ {block fileBytes i : Nat} (hblock : 0 < block) :
    (i + 1) % ((fileBytes - block) / block + 1) * block =
      if i % ((fileBytes - block) / block + 1) * block + 2 * block ≤ fileBytes then
        i % ((fileBytes - block) / block + 1) * block + block
      else 0 := by
  have hx := Nat.mod_lt i (Nat.succ_pos ((fileBytes - block) / block))
  rw [← Nat.mod_add_mod i _ 1]
  generalize hq : (fileBytes - block) / block = q at hx ⊢
  generalize i % (q + 1) = x at hx ⊢
  have hfits : x * block + 2 * block ≤ fileBytes ↔ x + 1 ≤ q := by
    rw [← hq, Nat.le_div_iff_mul_le hblock, Nat.add_one_mul x]
    omega
  by_cases hnext : x + 1 ≤ q
  · rw [if_pos (hfits.mpr hnext), Nat.mod_eq_of_lt (Nat.lt_succ_of_le hnext), Nat.succ_mul]
  · have hlast : x + 1 = q + 1 := by omega
    rw [if_neg fun h => hnext (hfits.mp h), hlast, Nat.mod_self, Nat.zero_mul]

/-- Where the granularity divides the block, the offsets are contiguous only if it
is the block, or there is no second slot or no second read. -/
theorem contiguous_iff {operations align : UInt64} (hblock : 1 ≤ block) (hfile : block ≤ fileBytes)
    (hdvd : (max align 1).toNat ∣ block.toNat) :
    Contiguous block fileBytes (offsets .sequentialRead operations block align fileBytes) ↔
      (max align 1).toNat = block.toNat ∨ operations.toNat ≤ 1 ∨
        fileBytes.toNat < block.toNat + (max align 1).toNat := by
  have hpos : 0 < block.toNat := UInt64.le_iff_toNat_le.mp hblock
  have hgranule := one_le_granule align
  have hle := Nat.le_of_dvd hpos hdvd
  constructor
  · intro h
    by_contra hne
    obtain ⟨hstride, hcount, hroom⟩ : (max align 1).toNat ≠ block.toNat ∧ 1 < operations.toNat ∧
        block.toNat + (max align 1).toNat ≤ fileBytes.toNat := by
      simpa only [not_or, not_le, not_lt] using hne
    -- The second offset is one granule in.
    have hslots : 1 ≤ (fileBytes.toNat - block.toNat) / (max align 1).toNat := by
      rw [Nat.le_div_iff_mul_le hgranule]
      omega
    have hfirst : (offsets .sequentialRead operations block align fileBytes)[0]? = some 0 :=
      (sequential_getElem? hblock hfile).mpr ⟨Nat.zero_lt_of_lt hcount, by rw [Nat.zero_mod, Nat.zero_mul]; rfl⟩
    have hsecond : (offsets .sequentialRead operations block align fileBytes)[1]? = some (max align 1) :=
      (sequential_getElem? hblock hfile).mpr ⟨hcount, by rw [Nat.mod_eq_of_lt (by omega), Nat.one_mul]⟩
    have hnext := h 0 _ _ hfirst hsecond
    split at hnext
    · exact hstride (hnext.trans (Nat.zero_add _))
    · exact hgranule.ne' hnext
  · intro h i a b ha hb
    obtain ⟨hi, ha⟩ := (sequential_getElem? hblock hfile).mp ha
    obtain ⟨hi', hb⟩ := (sequential_getElem? hblock hfile).mp hb
    rw [ha, hb]
    rcases h with hstride | hcount | hroom
    · rw [hstride]
      exact slot_succ hpos
    · omega
    · have hnone : (fileBytes.toNat - block.toNat) / (max align 1).toNat = 0 :=
        Nat.div_eq_of_lt (by omega)
      rw [hnone, Nat.mod_one, Nat.mod_one, Nat.zero_mul, if_neg (by omega)]

end Offsets

/-- What is wanted of the offsets: legal whatever the pattern, and the sequential
ones contiguous wherever the granularity divides the block, so that they do not
overlap. -/
def WellPlaced (scenario : Scenario) (block align fileBytes : UInt64) (os : List UInt64) : Prop :=
  Legal block align fileBytes os ∧
    (scenario = .sequentialRead → (max align 1).toNat ∣ block.toNat →
      Contiguous block fileBytes os ∧ Apart block os)

/-- The sequential pattern strides by the granularity, so it is contiguous only
where that makes no difference. -/
theorem wellPlaced_iff (scenario : Scenario) (operations block align fileBytes : UInt64) (hblock : 1 ≤ block)
    (hfile : block ≤ fileBytes) :
    WellPlaced scenario block align fileBytes (offsets scenario operations block align fileBytes) ↔
      scenario ≠ .sequentialRead ∨ ¬ (max align 1).toNat ∣ block.toNat ∨
        (max align 1).toNat = block.toNat ∨ operations.toNat ≤ 1 ∨
        fileBytes.toNat < block.toNat + (max align 1).toNat := by
  rw [WellPlaced, and_iff_right (offsets_legal scenario operations align hblock hfile)]
  by_cases hscenario : scenario = .sequentialRead
  · subst hscenario
    by_cases hdvd : (max align 1).toNat ∣ block.toNat
    · rw [and_iff_left_of_imp Contiguous.apart, contiguous_iff hblock hfile hdvd]
      simp only [hdvd, forall_const, ne_eq, not_true_eq_false, false_or]
    · exact iff_of_true (fun _ h => absurd h hdvd) (.inr (.inl hdvd))
  · exact iff_of_true (fun h => absurd h hscenario) (.inl hscenario)

/-- The benchmark's own blocks on a device of 4096-byte sectors. -/
theorem not_wellPlaced_sequential : ¬ WellPlaced .sequentialRead 65536 4096 1048576
    (offsets .sequentialRead 2 65536 4096 1048576) := by
  rw [WellPlaced]
  intro h
  obtain ⟨hcontiguous, -⟩ := h.2 rfl (by decide)
  have hnext := hcontiguous 0 0 4096 rfl rfl
  revert hnext
  decide

/-- With blocks of one sector it is contiguous. -/
theorem wellPlaced_sector : WellPlaced .sequentialRead 4096 4096 1048576
    (offsets .sequentialRead 64 4096 4096 1048576) :=
  (wellPlaced_iff .sequentialRead 64 4096 4096 1048576 (by decide) (by decide)).mpr
    (.inr (.inr (.inl (by decide))))

-- ---------------------------------------------------------------------------
-- Reads
-- ---------------------------------------------------------------------------

/-- A read as it was issued: which of the offsets it is for, and what it asks. -/
structure Read where
  index : Nat
  offset : Nat
  length : UInt32
  buffer : Nat
  deriving DecidableEq

/-- Where `issue_reads` stands: refilling, awaiting a completion, or returned. -/
inductive ReadsPc where
  | refilling
  | awaiting
  | returned (result : Except IoError Nat)

/-- A call of `issue_reads`. `issued`, `completed` and `putBack` are the reads made,
the completions taken and the buffers put back, in order. -/
structure Reads where
  offsets : List Nat
  block : Nat
  next : Nat
  inFlight : List Read
  delivered : Nat
  issued : List Read
  completed : List (Read × Except IoError UInt32)
  putBack : List Nat
  pc : ReadsPc

inductive ReadsAction where
  | advance
  /-- `take_buffer` answers. -/
  | take (result : Except IoError Nat)
  /-- The read in flight at a place is the next to complete. -/
  | complete (i : Nat) (result : Except IoError UInt32)

namespace Reads

def new (offsets : List Nat) (block : Nat) : Reads where
  offsets
  block
  next := 0
  inFlight := []
  delivered := 0
  issued := []
  completed := []
  putBack := []
  pc := .refilling

def issue (s : Reads) (offset buffer : Nat) : Reads :=
  let read : Read := { index := s.next, offset, length := .ofNat s.block, buffer }
  { s with next := s.next + 1, inFlight := s.inFlight ++ [read], issued := s.issued ++ [read] }

/-- Puts the buffer of a completed read back, whatever came of the read. -/
def retire (s : Reads) (i : Nat) (read : Read) (result : Except IoError UInt32) : Reads :=
  { s with
    inFlight := s.inFlight.eraseIdx i
    completed := s.completed ++ [(read, result)]
    putBack := s.putBack ++ [read.buffer] }

def step (s : Reads) (action : ReadsAction) : Option Reads :=
  match s.pc, action with
  | .refilling, .advance => if s.next < s.offsets.length then none else some { s with pc := .awaiting }
  | .refilling, .take result =>
    s.offsets[s.next]?.map fun offset =>
      match result with
      | .ok buffer => s.issue offset buffer
      | .error e => { s with pc := if e = .wouldBlock then .awaiting else .returned (.error e) }
  | .awaiting, .advance =>
    if s.inFlight = [] then
      some { s with
        pc := .returned (if s.next ≥ s.offsets.length then .ok s.delivered else .error .wouldBlock) }
    else
      none
  | .awaiting, .complete i result =>
    s.inFlight[i]?.map fun read =>
      let s := s.retire i read result
      match result with
      | .error e => { s with pc := .returned (.error e) }
      | .ok n =>
        if n.toNat ≠ s.block then
          { s with pc := .returned (.error .unexpectedEof) }
        else
          { s with delivered := s.delivered + n.toNat, pc := .refilling }
  | _, _ => none

end Reads

def issueReads (offsets : List Nat) (block : Nat) : Machine Reads ReadsAction where
  init s := s = .new offsets block
  step := Reads.step

/-- A completion of exactly the block. -/
def Whole (block : Nat) (completion : Read × Except IoError UInt32) : Prop :=
  ∃ n, completion.2 = .ok n ∧ n.toNat = block

namespace Reads

/-- What a step of the loop can do. -/
inductive Turn (s : Reads) : Reads → Prop
  | filled (hpc : s.pc = .refilling) (hnext : s.offsets.length ≤ s.next) : Turn s { s with pc := .awaiting }
  | issue (hpc : s.pc = .refilling) (hoffset : s.offsets[s.next]? = some offset) : Turn s (s.issue offset buffer)
  | refused (hpc : s.pc = .refilling) (hnext : s.next < s.offsets.length) :
    Turn s { s with pc := if e = .wouldBlock then .awaiting else .returned (.error e) }
  | finish (hpc : s.pc = .awaiting) (hidle : s.inFlight = []) :
    Turn s { s with
      pc := .returned (if s.next ≥ s.offsets.length then .ok s.delivered else .error .wouldBlock) }
  | failed {read : Read} (hpc : s.pc = .awaiting) (hread : s.inFlight[i]? = some read)
    (hwhole : ¬ Whole s.block (read, result)) :
    Turn s { s.retire i read result with pc := .returned (.error e) }
  | whole {read : Read} (hpc : s.pc = .awaiting) (hread : s.inFlight[i]? = some read) (hn : n.toNat = s.block) :
    Turn s { s.retire i read (.ok n) with delivered := s.delivered + n.toNat, pc := .refilling }

theorem turn_of_step {s t : Reads} (h : s.step a = some t) : Turn s t := by
  unfold step at h
  split at h
  · split at h
    · cases h
    · obtain rfl := Option.some.inj h
      exact .filled ‹_› (Nat.le_of_not_lt ‹_›)
  · rename_i result hpc
    obtain ⟨offset, hoffset, rfl⟩ := Option.map_eq_some_iff.mp h
    cases result with
    | ok buffer => exact .issue hpc hoffset
    | error e => exact .refused hpc (List.getElem?_eq_some_iff.mp hoffset).1
  · split at h
    · obtain rfl := Option.some.inj h
      exact .finish ‹_› ‹_›
    · cases h
  · rename_i i result hpc
    obtain ⟨read, hread, rfl⟩ := Option.map_eq_some_iff.mp h
    cases result with
    | error e =>
      refine .failed hpc hread ?_
      rintro ⟨n, hn, -⟩
      cases hn
    | ok n =>
      dsimp only
      split
      · rename_i hn
        refine .failed hpc hread ?_
        rintro ⟨m, hm, hwhole⟩
        obtain rfl := Except.ok.inj hm
        exact hn hwhole
      · exact .whole hpc hread (Decidable.not_not.mp ‹_›)
  · cases h

/-- Every read issued is in flight or completed, each for its own offset. -/
structure Tallied (s : Reads) : Prop where
  next : s.next ≤ s.offsets.length
  indices : s.issued.map Read.index = List.range s.next
  places : s.issued.map Read.offset = s.offsets.take s.next
  lengths : ∀ read ∈ s.issued, read.length = .ofNat s.block
  split : (s.inFlight ++ s.completed.map Prod.fst).Perm s.issued
  putBack : s.putBack = s.completed.map fun completion => completion.1.buffer
  whole : (∀ e, s.pc ≠ .returned (.error e)) →
    s.delivered = s.completed.length * s.block ∧ ∀ completion ∈ s.completed, Whole s.block completion
  returned : ∀ n, s.pc = .returned (.ok n) →
    n = s.delivered ∧ s.next = s.offsets.length ∧ s.inFlight = []
  failed : ∀ e, s.pc = .returned (.error e) →
    s.next < s.offsets.length ∨ ∃ completion ∈ s.completed, ¬ Whole s.block completion

namespace Tallied

variable {s t : Reads}

theorem new (offsets : List Nat) (block : Nat) : Tallied (.new offsets block) where
  next := Nat.zero_le _
  indices := rfl
  places := rfl
  lengths := nofun
  split := .refl _
  putBack := rfl
  whole _ := ⟨(Nat.zero_mul _).symm, nofun⟩
  returned := nofun
  failed := nofun

/-- Taking a completion moves the read over, and its buffer back. -/
theorem split_retire {read : Read} (h : Tallied s) (hread : s.inFlight[i]? = some read)
    (result : Except IoError UInt32) :
    ((s.retire i read result).inFlight ++ (s.retire i read result).completed.map Prod.fst).Perm s.issued := by
  obtain ⟨hi, hget⟩ := List.getElem?_eq_some_iff.mp hread
  have hperm := List.getElem_cons_eraseIdx_perm hi
  rw [hget] at hperm
  refine List.Perm.trans ?_ ((hperm.append_right (s.completed.map Prod.fst)).trans h.split)
  rw [retire, List.map_append, ← List.append_assoc, List.cons_append]
  exact List.perm_append_singleton ..

theorem putBack_retire (h : Tallied s) (read : Read) (result : Except IoError UInt32) :
    s.putBack ++ [read.buffer] =
      (s.completed ++ [(read, result)]).map fun completion => completion.1.buffer := by
  rw [List.map_append, ← h.putBack]
  rfl

theorem turn (h : Tallied s) (hturn : Turn s t) : Tallied t := by
  cases hturn with
  | filled hpc hnext =>
    have hgoing : ∀ e, s.pc ≠ .returned (.error e) := by rw [hpc]; nofun
    exact { h with whole := fun _ => h.whole hgoing, returned := nofun, failed := nofun }
  | issue hpc hoffset =>
    rename_i offset buffer
    obtain ⟨hlt, hget⟩ := List.getElem?_eq_some_iff.mp hoffset
    have hgoing : ∀ e, s.pc ≠ .returned (.error e) := by rw [hpc]; nofun
    refine
      { h with
        next := hlt
        indices := ?_
        places := ?_
        lengths := fun read hread => ?_
        split := ?_
        returned := fun n hreturned => ?_
        failed := fun e hreturned => absurd hreturned (hgoing e) }
    · rw [Reads.issue, List.map_append, h.indices, List.range_succ]
      rfl
    · rw [Reads.issue, List.map_append, h.places, List.take_add_one, hoffset]
      rfl
    · rcases List.mem_append.mp hread with hread | hread
      · exact h.lengths read hread
      · obtain rfl := List.mem_singleton.mp hread
        rfl
    · refine (List.Perm.append_right _ List.perm_append_comm).trans ?_
      rw [List.append_assoc]
      exact (h.split.append_left _).trans List.perm_append_comm
    · cases hpc.symm.trans hreturned
  | refused hpc hnext =>
    have hgoing : ∀ e, s.pc ≠ .returned (.error e) := by rw [hpc]; nofun
    refine
      { h with
        whole := fun _ => h.whole hgoing
        returned := fun n hreturned => ?_
        failed := fun e hreturned => .inl hnext }
    dsimp only at hreturned
    split at hreturned <;> cases hreturned
  | finish hpc hidle =>
    have hgoing : ∀ e, s.pc ≠ .returned (.error e) := by rw [hpc]; nofun
    refine
      { h with
        whole := fun _ => h.whole hgoing
        returned := fun n hreturned => ?_
        failed := fun e hreturned => ?_ }
    · have hresult := ReadsPc.returned.inj hreturned
      split at hresult
      · obtain rfl := Except.ok.inj hresult
        exact ⟨rfl, Nat.le_antisymm h.next ‹_›, hidle⟩
      · cases hresult
    · have hresult := ReadsPc.returned.inj hreturned
      split at hresult
      · cases hresult
      · exact .inl (Nat.lt_of_not_le ‹_›)
  | failed hpc hread hwhole =>
    refine
      { h with
        split := h.split_retire hread _
        putBack := h.putBack_retire _ _
        whole := fun hgoing => absurd rfl (hgoing _)
        returned := nofun
        failed := fun e hreturned => .inr ⟨_, List.mem_append_right _ (List.mem_singleton.mpr rfl), hwhole⟩ }
  | whole hpc hread hn =>
    have hgoing : ∀ e, s.pc ≠ .returned (.error e) := by rw [hpc]; nofun
    obtain ⟨hdelivered, hall⟩ := h.whole hgoing
    refine
      { h with
        split := h.split_retire hread _
        putBack := h.putBack_retire _ _
        whole := fun _ => ⟨?_, fun completion hcompletion => ?_⟩
        returned := nofun
        failed := nofun }
    · show s.delivered + _ = (s.completed ++ [_]).length * s.block
      rw [hn, hdelivered, List.length_append, List.length_singleton, Nat.succ_mul]
    · rcases List.mem_append.mp hcompletion with hcompletion | hcompletion
      · exact hall completion hcompletion
      · obtain rfl := List.mem_singleton.mp hcompletion
        exact ⟨_, rfl, hn⟩

end Tallied

end Reads

namespace Reads

def rank : ReadsPc → Nat
  | .refilling => 2
  | .awaiting => 1
  | .returned _ => 0

/-- What is left of a call: two turns for each offset not yet issued, one for each
read in flight, and the way out. -/
def left (s : Reads) : Nat :=
  2 * (2 * (s.offsets.length - s.next) + s.inFlight.length) + rank s.pc

theorem left_turn {s t : Reads} (h : Turn s t) : t.left < s.left := by
  cases h with
  | filled hpc hnext =>
    simp only [left, rank, hpc]
    omega
  | issue hpc hoffset =>
    have hnext := (List.getElem?_eq_some_iff.mp hoffset).1
    simp only [left, issue, rank, hpc, List.length_append, List.length_singleton]
    omega
  | refused hpc hnext =>
    rename_i e
    have hrank : rank (if e = .wouldBlock then .awaiting else .returned (.error e)) < 2 := by
      rw [apply_ite rank]
      split
      · exact Nat.lt_succ_self 1
      · exact Nat.succ_pos 1
    simp only [left, hpc]
    exact Nat.add_lt_add_left hrank _
  | finish hpc hidle =>
    simp only [left, rank, hpc]
    omega
  | failed hpc hread hwhole =>
    have herase := List.length_eraseIdx_of_lt (List.getElem?_eq_some_iff.mp hread).1
    simp only [left, retire, rank, hpc, herase]
    omega
  | whole hpc hread hn =>
    have hi := (List.getElem?_eq_some_iff.mp hread).1
    have herase := List.length_eraseIdx_of_lt hi
    simp only [left, retire, rank, hpc, herase]
    omega

/-- What the loop is waiting for: itself, the pool, or any one of the reads in
flight. -/
def Awaits (s : Reads) : ReadsAction → Prop
  | .advance => s.pc = .refilling ∧ s.offsets.length ≤ s.next ∨ s.pc = .awaiting ∧ s.inFlight = []
  | .take _ => s.pc = .refilling ∧ s.next < s.offsets.length
  | .complete i _ => s.pc = .awaiting ∧ i < s.inFlight.length

/-- Whatever answers, the loop goes on. -/
theorem isSome_step {s : Reads} (h : s.Awaits a) : (s.step a).isSome := by
  unfold step
  cases a with
  | advance =>
    rcases h with ⟨hpc, hnext⟩ | ⟨hpc, hidle⟩
    · simp only [hpc, if_neg (Nat.not_lt.mpr hnext), Option.isSome_some]
    · simp only [hpc, if_pos hidle, Option.isSome_some]
  | take result =>
    obtain ⟨hpc, hnext⟩ := h
    simp only [hpc, List.getElem?_eq_getElem hnext, Option.map_some, Option.isSome_some]
  | complete i result =>
    obtain ⟨hpc, hi⟩ := h
    simp only [hpc, List.getElem?_eq_getElem hi, Option.map_some, Option.isSome_some]

/-- A call that has not returned awaits something, and of the pool or a read any
answer. -/
theorem exists_awaits (s : Reads) (h : ∀ result, s.pc ≠ .returned result) :
    s.Awaits .advance ∨ (∀ answer, s.Awaits (.take answer)) ∨
      s.inFlight ≠ [] ∧ ∀ i < s.inFlight.length, ∀ result, s.Awaits (.complete i result) := by
  match hpc : s.pc with
  | .refilling =>
    rcases Nat.lt_or_ge s.next s.offsets.length with hnext | hnext
    · exact .inr (.inl fun _ => ⟨hpc, hnext⟩)
    · exact .inl (.inl ⟨hpc, hnext⟩)
  | .awaiting =>
    by_cases hidle : s.inFlight = []
    · exact .inl (.inr ⟨hpc, hidle⟩)
    · exact .inr (.inr ⟨hidle, fun i hi _ => ⟨hpc, hi⟩⟩)
  | .returned result => exact absurd hpc (h result)

/-- A pool that yields nothing with nothing in flight fails the call, now or at the
await that follows. -/
theorem dry {s t : Reads} (hpc : s.pc = .refilling) (hidle : s.inFlight = [])
    (h : s.step (.take (.error e)) = some t) :
    t.pc = .returned (.error e) ∨
      t.pc = .awaiting ∧ ∀ a u, t.step a = some u → u.pc = .returned (.error .wouldBlock) := by
  unfold step at h
  rw [hpc] at h
  obtain ⟨offset, hoffset, rfl⟩ := Option.map_eq_some_iff.mp h
  have hnext := (List.getElem?_eq_some_iff.mp hoffset).1
  dsimp only
  split
  · refine .inr ⟨rfl, fun a u hu => ?_⟩
    unfold step at hu
    cases a with
    | advance =>
      simp only [hidle, if_pos, if_neg (Nat.not_le.mpr hnext), Option.some.injEq] at hu
      obtain rfl := hu
      rfl
    | take answer => cases hu
    | complete i result => simp [hidle] at hu
  · exact .inl rfl

/-- The offsets and the block of a call stay what they were. -/
theorem Turn.config {s t : Reads} (h : Turn s t) : t.offsets = s.offsets ∧ t.block = s.block := by
  cases h <;> exact ⟨rfl, rfl⟩

end Reads

theorem tallied_of_reachable {offsets : List Nat} {block : Nat} {s : Reads}
    (h : (issueReads offsets block).Reachable s) : s.Tallied ∧ s.offsets = offsets ∧ s.block = block := by
  refine h.invariant (I := fun s => s.Tallied ∧ s.offsets = offsets ∧ s.block = block) ?_ ?_
  · rintro s rfl
    exact ⟨.new offsets block, rfl, rfl⟩
  · rintro s a t - ⟨htallied, rfl, rfl⟩ - hs
    have hturn := Reads.turn_of_step hs
    exact ⟨htallied.turn hturn, hturn.config⟩

/-- The reads a call makes, and the buffers it puts back: one read an offset, in
order, each asking for the block, and one buffer put back for each completion
taken. -/
structure Reads.Faithful (offsets : List Nat) (block : Nat) (s : Reads) : Prop where
  indices : s.issued.map Read.index = List.range s.next
  places : s.issued.map Read.offset = offsets.take s.next
  lengths : ∀ read ∈ s.issued, read.length.toNat = block
  once : (s.inFlight ++ s.completed.map Prod.fst).Perm s.issued
  putBack : s.putBack = s.completed.map fun completion => completion.1.buffer

/-- A call that returned `result` was given every block whole, or failed. -/
structure Reads.Settled (offsets : List Nat) (block : Nat) (s : Reads) (result : Except IoError Nat) : Prop where
  iff_whole : (∃ n, result = .ok n) ↔
    s.issued.map Read.offset = offsets ∧ (s.completed.map Prod.fst).Perm s.issued ∧
      ∀ completion ∈ s.completed, Whole block completion
  total : ∀ n, result = .ok n → n = offsets.length * block

theorem reads_whole_or_failed (offsets : List Nat) (block : Nat) (hblock : block < 2 ^ 32) :
    (∀ s, (issueReads offsets block).Reachable s →
      s.Faithful offsets block ∧ (∀ result, s.pc = .returned result → s.Settled offsets block result) ∧
      ((∃ completion ∈ s.completed, ¬ Whole block completion) → ∃ e, s.pc = .returned (.error e)) ∧
      (s.pc = .refilling → s.inFlight = [] → ∀ e t, s.step (.take (.error e)) = some t →
        t.pc = .returned (.error e) ∨
          t.pc = .awaiting ∧ ∀ a u, t.step a = some u → u.pc = .returned (.error .wouldBlock))) ∧
    (∀ as s, (issueReads offsets block).run (.new offsets block) as = some s →
      as.length ≤ 4 * offsets.length + 2 ∧
      ((∀ result, s.pc ≠ .returned result) →
        s.Awaits .advance ∨ (∀ answer, s.Awaits (.take answer)) ∨
          s.inFlight ≠ [] ∧ ∀ i < s.inFlight.length, ∀ result, s.Awaits (.complete i result)) ∧
      ∀ a, s.Awaits a → ((issueReads offsets block).step s a).isSome) := by
  refine ⟨fun s h => ?_, fun as s hrun => ⟨?_, s.exists_awaits, fun a => Reads.isSome_step⟩⟩
  · obtain ⟨htallied, rfl, rfl⟩ := tallied_of_reachable h
    have hplaces := htallied.places
    refine ⟨?_, fun result hresult => ?_, fun hwrong => ?_, fun hpc hidle e t => Reads.dry hpc hidle⟩
    · refine
        { indices := htallied.indices
          places := hplaces
          lengths := fun read hread => ?_
          once := htallied.split
          putBack := htallied.putBack }
      rw [htallied.lengths read hread]
      exact UInt32.toNat_ofNat_of_lt' hblock
    · cases result with
      | ok n =>
        obtain ⟨rfl, hnext, hidle⟩ := htallied.returned n hresult
        obtain ⟨hdelivered, hall⟩ := htallied.whole fun e he => by cases hresult.symm.trans he
        have hsplit := htallied.split
        rw [hidle, List.nil_append] at hsplit
        rw [hnext, List.take_length] at hplaces
        refine ⟨iff_of_true ⟨_, rfl⟩ ⟨hplaces, hsplit, hall⟩, fun n hn => ?_⟩
        obtain rfl := Except.ok.inj hn
        have hcount := hsplit.length_eq
        rw [List.length_map] at hcount
        rw [hdelivered, hcount, ← hplaces, List.length_map]
      | error e =>
        refine ⟨iff_of_false nofun ?_, nofun⟩
        rintro ⟨hissued, -, hall⟩
        rcases htallied.failed e hresult with hnext | ⟨completion, hcompletion, hwrong⟩
        · have hlength := congrArg List.length (hplaces.symm.trans hissued)
          rw [List.length_take] at hlength
          omega
        · exact hwrong (hall completion hcompletion)
    · obtain ⟨completion, hcompletion, hwrong⟩ := hwrong
      by_contra hgoing
      have hall := (htallied.whole fun e he => hgoing ⟨e, he⟩).2
      exact hwrong (hall completion hcompletion)
  · have hlength := (issueReads offsets block).run_length_le
      (fun _ _ _ hs => Reads.left_turn (Reads.turn_of_step hs)) hrun
    have hleft : (Reads.new offsets block).left = 4 * offsets.length + 2 := by
      show 2 * (2 * (offsets.length - 0) + 0) + 2 = _
      omega
    omega

/-- Two reads through a pool of one buffer. -/
def pooled : List ReadsAction :=
  [.take (.ok 7), .take (.error .wouldBlock), .complete 0 (.ok 4096), .take (.ok 7), .advance,
    .complete 0 (.ok 4096), .advance, .advance]

theorem reads_pooled : ∃ s n, (issueReads [4096, 0] 4096).run (.new [4096, 0] 4096) pooled = some s ∧
    s.pc = .returned (.ok n) ∧ n = 8192 ∧ s.issued.map Read.offset = [4096, 0] ∧ s.putBack = [7, 7] := by
  have hends : ∃ s n, (issueReads [4096, 0] 4096).run (.new [4096, 0] 4096) pooled = some s ∧
      s.pc = .returned (.ok n) ∧ s.putBack = [7, 7] := ⟨_, _, rfl, rfl, rfl⟩
  obtain ⟨s, n, hsteps, hpc, hputBack⟩ := hends
  have hstart : (issueReads [4096, 0] 4096).Reachable (.new [4096, 0] 4096) := .init rfl
  have hreads := (reads_whole_or_failed [4096, 0] 4096 (by decide)).1 s (hstart.run hsteps)
  have hsettled := hreads.2.1 _ hpc
  exact ⟨s, n, hsteps, hpc, hsettled.total n rfl, (hsettled.iff_whole.mp ⟨n, rfl⟩).1, hputBack⟩

end WinIoring.Bench
