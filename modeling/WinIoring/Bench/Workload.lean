import WinIoring.Bench.Alignment
import WinIoring.Bench.Concurrency

/-!
# Working files

How the benchmarks fill the files they read: one buffer of a pattern, written from
its start as often as it takes. The documented content is byte `i % 251` at every
offset `i`, which the second buffer's worth no longer is.
-/

namespace WinIoring.Bench

/-- One write, at the end of what has been written so far. -/
structure Write where
  offset : Nat
  bytes : List UInt8

/-- What a file holds that was empty before these writes. -/
def contents (writes : List Write) : List UInt8 := (writes.map Write.bytes).flatten

/-- What the file system and the allocator answer. -/
structure Disk (ws : WordSize) where
  /-- Creating the directories above the path. -/
  createDirAll : Except IoError Unit
  /-- The length of the file that is there, if one is. -/
  metadata : Option UInt64
  create : Except IoError Unit
  isUnbuffered : Except IoError Bool
  alloc : Usize ws → Usize ws → Option (Usize ws)
  /-- The write at an offset. -/
  write : Nat → Except IoError Unit
  sync : Except IoError Unit

inductive WorkloadError where
  | io (e : IoError)
  | align (e : AlignError)
  | notMultiple (bytes granularity : Nat)
  | buffered
  deriving DecidableEq

/-- Byte `i` of both buffers. -/
def patternByte (i : Nat) : UInt8 := .ofNat (i % 251)

def pattern (len : Nat) : List UInt8 := (List.range len).map patternByte

/-- How many bytes the next turn of a loop takes, of those that remain. -/
abbrev Take := (remaining : Nat) → { n : Nat // n ≤ remaining }

/-- The loop of both functions from `written` on, with the writes it makes. `none`
is a loop that does not end: one that takes nothing stays where it is. -/
def writeFrom (write : Nat → Except IoError Unit) (take : Take) (content : List UInt8)
    (written remaining : Nat) : Option (Except WorkloadError (List Write)) :=
  if remaining = 0 then
    some (.ok [])
  else
    let n := take remaining
    if n.1 = 0 then
      none
    else
      match write written with
      | .error e => some (.error (.io e))
      | .ok () =>
        (writeFrom write take content (written + n) (remaining - n)).map fun rest =>
          rest.map ({ offset := written, bytes := content.take n } :: ·)
  termination_by remaining
  decreasing_by
    have hn : ¬ (take remaining).1 = 0 := ‹_›
    omega

section EnsureFile

variable {ws : WordSize}

/-- The length of the one buffer. -/
def contentLen : Nat := 1024 * 1024

/-- `((bytes - written) as usize).min(content.len())`. -/
def ensureFileTake (ws : WordSize) : Take := fun remaining =>
  ⟨min (remaining % 2 ^ ws.bits) contentLen, (Nat.min_le_left ..).trans (Nat.mod_le ..)⟩

/-- Creates the working file if it is missing or the wrong size. What it answers is
the writes it made, or nothing for a file it left alone. -/
def ensureFile (disk : Disk ws) (bytes : UInt64) :
    Option (Except WorkloadError (Option (List Write))) :=
  match disk.createDirAll with
  | .error e => some (.error (.io e))
  | .ok () =>
    if disk.metadata = some bytes then
      some (.ok none)
    else
      match disk.create with
      | .error e => some (.error (.io e))
      | .ok () =>
        match writeFrom disk.write (ensureFileTake ws) (pattern contentLen) 0 bytes.toNat with
        | none => none
        | some (.error e) => some (.error e)
        | some (.ok writes) =>
          match disk.sync with
          | .error e => some (.error (.io e))
          | .ok () => some (.ok (some writes))

/-- `g.max(1 << 20)`. -/
def atLeastMiB (g : Usize ws) : Usize ws :=
  if g ≤ .ofNat _ (1 <<< 20) then .ofNat _ (1 <<< 20) else g

/-- `(bytes - written).min(chunk as u64) as usize`. -/
def ensureUnbufferedTake (chunk : Usize ws) : Take := fun remaining =>
  ⟨min remaining chunk.toNat % 2 ^ ws.bits, (Nat.mod_le ..).trans (Nat.min_le_left ..)⟩

/-- Writes `bytes` of content through an unbuffered handle. `none` is a call that
does not return, here also for a chunk that cannot be rounded. -/
def ensureUnbufferedFile (disk : Disk ws) (alignment : Alignment) (bytes : UInt64) :
    Option (Except WorkloadError (List Write)) :=
  let g := alignment.granularity ws
  match disk.createDirAll with
  | .error e => some (.error (.io e))
  | .ok () =>
    if ¬ alignment.isAligned ws bytes then
      some (.error (.notMultiple bytes.toNat g.toNat))
    else
      match checkedNextMultipleOf (atLeastMiB g) g with
      | none => none
      | some chunk =>
        match AlignedBuf.new disk.alloc chunk g with
        | .error e => some (.error (.align e))
        | .ok buf =>
          match disk.create, disk.isUnbuffered with
          | .error e, _ => some (.error (.io e))
          | .ok (), .error e => some (.error (.io e))
          | .ok (), .ok false => some (.error .buffered)
          | .ok (), .ok true =>
            match writeFrom disk.write (ensureUnbufferedTake chunk) (pattern buf.cap.toNat) 0
                bytes.toNat with
            | none => none
            | some (.error e) => some (.error e)
            | some (.ok writes) =>
              match disk.sync with
              | .error e => some (.error (.io e))
              | .ok () => some (.ok writes)

end EnsureFile

-- ---------------------------------------------------------------------------
-- Writes that tile a file
-- ---------------------------------------------------------------------------

/-- The writes cover `remaining` bytes from `written` on, each with as much of the
buffer's first `chunk` bytes as is left to cover. -/
inductive Tiles (content : List UInt8) (chunk : Nat) : (written remaining : Nat) → List Write → Prop
  | nil : Tiles content chunk written 0 []
  | cons (hremaining : 0 < remaining)
    (htail : Tiles content chunk (written + min remaining chunk) (remaining - min remaining chunk) rest) :
    Tiles content chunk written remaining
      ({ offset := written, bytes := content.take (min remaining chunk) } :: rest)

namespace Tiles

variable {content : List UInt8} {chunk written remaining : Nat} {writes : List Write}

theorem length (h : Tiles content chunk written remaining writes) (hchunk : chunk ≤ content.length) :
    (contents writes).length = remaining := by
  induction h with
  | nil => rfl
  | @cons remaining written rest _ _ ih =>
    have htake : (content.take (min remaining chunk)).length = min remaining chunk := by
      rw [List.length_take]
      omega
    have hcons : (contents ({ offset := written, bytes := content.take (min remaining chunk) } :: rest)) =
        content.take (min remaining chunk) ++ contents rest := rfl
    rw [hcons, List.length_append, ih, htake]
    omega

/-- Every chunk starts over at the buffer's first byte. -/
theorem getElem? (h : Tiles content chunk written remaining writes) (hchunk : chunk ≤ content.length)
    {i : Nat} (hi : i < remaining) : (contents writes)[i]? = content[i % chunk]? := by
  induction h generalizing i with
  | nil => cases hi
  | @cons remaining written rest hremaining _ ih =>
    have htake : (content.take (min remaining chunk)).length = min remaining chunk := by
      rw [List.length_take]
      omega
    have hcons : (contents ({ offset := written, bytes := content.take (min remaining chunk) } :: rest)) =
        content.take (min remaining chunk) ++ contents rest := rfl
    rw [hcons]
    by_cases hfirst : i < min remaining chunk
    · have hlt : i < chunk := hfirst.trans_le (Nat.min_le_right ..)
      rw [List.getElem?_append_left (htake.symm ▸ hfirst), List.getElem?_take_of_lt hfirst,
        Nat.mod_eq_of_lt hlt]
    · -- Past the first chunk it is a whole chunk that was written.
      have hwhole : min remaining chunk = chunk := by omega
      rw [List.getElem?_append_right (htake.symm ▸ Nat.not_lt.mp hfirst), htake,
        ih (by omega), hwhole, ← Nat.mod_eq_sub_mod (by omega)]

theorem aligned (h : Tiles content chunk written remaining writes) (hchunk : chunk ≤ content.length) {g : Nat}
    (hg : g ∣ chunk) (hwritten : g ∣ written) (hremaining : g ∣ remaining) :
    ∀ w ∈ writes, g ∣ w.offset ∧ g ∣ w.bytes.length := by
  induction h with
  | nil => simp
  | @cons remaining written rest _ _ ih =>
    have hmin : g ∣ min remaining chunk := by
      rcases Nat.le_total remaining chunk with hle | hle
      · rwa [Nat.min_eq_left hle]
      · rwa [Nat.min_eq_right hle]
    have hlength : (content.take (min remaining chunk)).length = min remaining chunk := by
      rw [List.length_take]
      omega
    refine List.forall_mem_cons.mpr ⟨⟨hwritten, hlength.symm ▸ hmin⟩, ?_⟩
    exact ih (Nat.dvd_add hwritten hmin) (Nat.dvd_sub hremaining hmin)

end Tiles


section Loop

variable {write : Nat → Except IoError Unit} {take : Take} {content : List UInt8}
  {written remaining chunk : Nat} {writes : List Write}

/-- The turns of a loop that returned. -/
theorem writeFrom_eq_ok : writeFrom write take content written remaining = some (.ok writes) ↔
    (remaining = 0 ∧ writes = []) ∨
      (0 < remaining ∧ 0 < (take remaining).1 ∧ write written = .ok () ∧
        ∃ rest, writeFrom write take content (written + take remaining) (remaining - take remaining) =
            some (.ok rest) ∧
          writes = { offset := written, bytes := content.take (take remaining) } :: rest) := by
  rw [writeFrom]
  by_cases hzero : remaining = 0
  · simp [hzero, eq_comm]
  by_cases hn : (take remaining).1 = 0
  · simp [hzero, hn]
  cases hwrite : write written with
  | error e => simp [hzero, hn]
  | ok =>
    simp only [hzero, hn, if_false, Nat.pos_of_ne_zero hzero, Nat.pos_of_ne_zero hn, true_and, false_and,
      false_or, Option.map_eq_some_iff]
    constructor
    · rintro ⟨result, hrest, hmap⟩
      cases result with
      | error e => cases hmap
      | ok rest => exact ⟨rest, hrest, (Except.ok.inj hmap).symm⟩
    · rintro ⟨rest, hrest, rfl⟩
      exact ⟨.ok rest, hrest, rfl⟩

/-- A loop that takes whole chunks while there are any tiles the file. -/
theorem tiles_of_writeFrom (htake : ∀ n ≤ remaining, (take n).1 = min n chunk)
    (h : writeFrom write take content written remaining = some (.ok writes)) :
    Tiles content chunk written remaining writes := by
  induction remaining using Nat.strong_induction_on generalizing written writes with
  | _ remaining ih =>
    rcases writeFrom_eq_ok.mp h with ⟨rfl, rfl⟩ | ⟨hpos, hn, -, rest, hrest, rfl⟩
    · exact .nil
    · have hmin := htake remaining (Nat.le_refl _)
      have htail := ih (remaining - take remaining) (by omega)
        (fun n hle => htake n (hle.trans (Nat.sub_le ..))) hrest
      rw [hmin] at htail ⊢
      exact .cons hpos htail

/-- If no write fails, the loop returns. -/
theorem writeFrom_returns (hchunk : 0 < chunk) (htake : ∀ n ≤ remaining, (take n).1 = min n chunk)
    (hwrite : ∀ at_, write at_ = .ok ()) :
    ∃ writes, writeFrom write take content written remaining = some (.ok writes) := by
  induction remaining using Nat.strong_induction_on generalizing written with
  | _ remaining ih =>
    by_cases hzero : remaining = 0
    · exact ⟨[], writeFrom_eq_ok.mpr (.inl ⟨hzero, rfl⟩)⟩
    · have hmin := htake remaining (Nat.le_refl _)
      obtain ⟨rest, hrest⟩ := ih (remaining - take remaining) (by omega)
        (fun n hle => htake n (hle.trans (Nat.sub_le ..)))
      exact ⟨_, writeFrom_eq_ok.mpr (.inr ⟨Nat.pos_of_ne_zero hzero, by omega, hwrite _, rest, hrest, rfl⟩)⟩

end Loop

/-- `ensure_file`'s loop does not end where the size does not fit a word, so what it
takes is what `min` of two whole numbers would be. -/
theorem lt_of_writeFrom {ws : WordSize} {write : Nat → Except IoError Unit} {content : List UInt8}
    {written remaining : Nat} {writes : List Write}
    (h : writeFrom write (ensureFileTake ws) content written remaining = some (.ok writes)) :
    remaining < 2 ^ ws.bits := by
  induction remaining using Nat.strong_induction_on generalizing written writes with
  | _ remaining ih =>
    rcases writeFrom_eq_ok.mp h with ⟨rfl, -⟩ | ⟨hpos, hn, -, rest, hrest, -⟩
    · exact Nat.two_pow_pos _
    · have hle : (ensureFileTake ws remaining).1 ≤ remaining % 2 ^ ws.bits := Nat.min_le_left ..
      have hrest := ih _ (by omega) hrest
      by_contra hbig
      -- Taking at most the remainder leaves at least a whole word's worth.
      have hmod := Nat.mod_add_div remaining (2 ^ ws.bits)
      have hquot : 0 < remaining / 2 ^ ws.bits := Nat.div_pos (Nat.not_lt.mp hbig) (Nat.two_pow_pos _)
      have hmul := Nat.le_mul_of_pos_right (2 ^ ws.bits) hquot
      omega

-- ---------------------------------------------------------------------------
-- The documented content
-- ---------------------------------------------------------------------------

/-- The size asked for, and byte `i % 251` at every offset `i`. -/
structure Documented (bytes : UInt64) (file : List UInt8) : Prop where
  size : file.length = bytes.toNat
  content : ∀ i < bytes.toNat, file[i]? = some (patternByte i)

/-- Every write is on the granularity and of whole granules. -/
def Granular (g : Nat) (writes : List Write) : Prop := ∀ w ∈ writes, g ∣ w.offset ∧ g ∣ w.bytes.length

theorem length_pattern (len : Nat) : (pattern len).length = len := by
  simp [pattern]

theorem pattern_getElem? {len i : Nat} (h : i < len) : (pattern len)[i]? = some (patternByte i) := by
  simp [pattern, h]

theorem patternByte_inj {i j : Nat} : patternByte i = patternByte j ↔ i % 251 = j % 251 := by
  have hlt : ∀ n, n % 251 < UInt8.size := fun n => (Nat.mod_lt n (by decide)).trans (by decide)
  rw [patternByte, patternByte, ← UInt8.toNat_inj, UInt8.toNat_ofNat_of_lt' (hlt i),
    UInt8.toNat_ofNat_of_lt' (hlt j)]

/-- A chunk of whole periods would do; any other is right only while it is the only
one. -/
theorem documented_iff {len chunk : Nat} {bytes : UInt64} {writes : List Write}
    (h : Tiles (pattern len) chunk 0 bytes.toNat writes) (hchunk : chunk ≤ len) (hpos : 0 < chunk)
    (hperiod : chunk % 251 ≠ 0) : Documented bytes (contents writes) ↔ bytes.toNat ≤ chunk := by
  have hlen : chunk ≤ (pattern len).length := (length_pattern len).symm ▸ hchunk
  have hget : ∀ i < bytes.toNat, (contents writes)[i]? = some (patternByte (i % chunk)) := by
    intro i hi
    rw [h.getElem? hlen hi, pattern_getElem? ((Nat.mod_lt i hpos).trans_le hchunk)]
  constructor
  · intro hdoc
    by_contra hmore
    have hi := Nat.not_le.mp hmore
    have hbyte := (hget chunk hi).symm.trans (hdoc.content chunk hi)
    rw [Nat.mod_self] at hbyte
    exact hperiod (patternByte_inj.mp (Option.some.inj hbyte)).symm
  · intro hle
    refine ⟨h.length hlen, fun i hi => ?_⟩
    rw [hget i hi, Nat.mod_eq_of_lt (hi.trans_le hle)]


section Accepted

variable {ws : WordSize} {disk : Disk ws} {bytes : UInt64} {writes : List Write}

theorem tiles_of_ensureFile (h : ensureFile disk bytes = some (.ok (some writes))) :
    Tiles (pattern contentLen) contentLen 0 bytes.toNat writes := by
  obtain ⟨write, hloop⟩ : ∃ write, writeFrom write (ensureFileTake ws) (pattern contentLen) 0 bytes.toNat =
      some (.ok writes) := by
    unfold ensureFile at h
    split at h
    · simp at h
    split at h
    · simp at h
    split at h
    · simp at h
    split at h
    · cases h
    · simp at h
    split at h
    · simp at h
    · rename_i hloop _ _
      cases h
      exact ⟨_, hloop⟩
  have hword := lt_of_writeFrom hloop
  refine tiles_of_writeFrom (fun n hn => ?_) hloop
  simp only [ensureFileTake, Nat.mod_eq_of_lt (hn.trans_lt hword)]

/-- The size of the one buffer: a granule, or 1 MiB if that is more. -/
def unbufferedChunk (ws : WordSize) (alignment : Alignment) : Nat :=
  max (alignment.granularity ws).toNat (2 ^ 20)

theorem toNat_atLeastMiB (g : Usize ws) : (atLeastMiB g).toNat = max g.toNat (2 ^ 20) := by
  have hmib : (BitVec.ofNat ws.bits (1 <<< 20)).toNat = 2 ^ 20 := by cases ws <;> rfl
  rw [atLeastMiB]
  split
  · rename_i hle
    rw [BitVec.le_def, hmib] at hle
    rw [hmib, Nat.max_eq_right hle]
  · rename_i hgt
    rw [BitVec.le_def, hmib] at hgt
    rw [Nat.max_eq_left (Nat.le_of_not_le hgt)]

theorem isPowerOfTwo_unbufferedChunk {alignment : Alignment}
    (h : (alignment.granularity ws).toNat.isPowerOfTwo) : (unbufferedChunk ws alignment).isPowerOfTwo := by
  rw [unbufferedChunk]
  rcases Nat.le_total (alignment.granularity ws).toNat (2 ^ 20) with hle | hle
  · exact ⟨20, Nat.max_eq_right hle⟩
  · rwa [Nat.max_eq_left hle]

/-- A buffer was allocated, so the granularity is a power of two and the chunk needs
no rounding. -/
theorem tiles_of_ensureUnbufferedFile {alignment : Alignment}
    (h : ensureUnbufferedFile disk alignment bytes = some (.ok writes)) :
    (alignment.granularity ws).toNat.isPowerOfTwo ∧ (alignment.granularity ws).toNat ∣ bytes.toNat ∧
      Tiles (pattern (unbufferedChunk ws alignment)) (unbufferedChunk ws alignment) 0 bytes.toNat
        writes := by
  unfold ensureUnbufferedFile at h
  dsimp only at h
  split at h
  · simp at h
  split at h
  · simp at h
  rename_i haligned
  split at h
  · cases h
  rename_i chunk hchunk
  split at h
  · simp at h
  rename_i buf hbuf
  split at h
  · simp at h
  · simp at h
  · simp at h
  split at h
  · cases h
  · simp at h
  rename_i hloop
  split at h
  · simp at h
  cases h
  obtain ⟨-, hpow, hcap, -⟩ := AlignedBuf.of_new hbuf
  have hpos := Nat.pos_of_isPowerOfTwo hpow
  have hdvd : (alignment.granularity ws).toNat ∣ unbufferedChunk ws alignment :=
    isPowerOfTwo_dvd hpow (isPowerOfTwo_unbufferedChunk hpow) (Nat.le_max_left ..)
  have hchunk : chunk.toNat = unbufferedChunk ws alignment := by
    have hleast := (checkedNextMultipleOf_eq_some hpos).mp hchunk
    rw [toNat_atLeastMiB] at hleast
    exact hleast.unique (.self hdvd)
  have hcap : buf.cap.toNat = unbufferedChunk ws alignment := by
    have hle : (alignment.granularity ws).toNat ≤ unbufferedChunk ws alignment := Nat.le_max_left ..
    rw [hchunk, Nat.max_eq_left hle] at hcap
    exact hcap.unique (.self hdvd)
  refine ⟨hpow, Alignment.dvd_of_isAligned (not_not.mp haligned), ?_⟩
  rw [hcap] at hloop
  refine tiles_of_writeFrom (fun n hn => ?_) hloop
  have hword := chunk.isLt
  rw [hchunk] at hword
  simp only [ensureUnbufferedTake, hchunk]
  exact Nat.mod_eq_of_lt ((Nat.min_le_right ..).trans_lt hword)

/-- No power of two is a whole number of periods. -/
theorem isPowerOfTwo_mod_period {n : Nat} (h : n.isPowerOfTwo) : n % 251 ≠ 0 := by
  obtain ⟨k, rfl⟩ := h
  intro hmod
  have hcoprime : Nat.Coprime (2 ^ k) 251 := Nat.Coprime.pow_left k (by decide)
  exact absurd (hcoprime.symm.eq_one_of_dvd (Nat.dvd_of_mod_eq_zero hmod)) (by decide)

end Accepted

/-- Both functions write the size asked for, the unbuffered one in granules. The
content is as documented only up to the size of the one buffer, since no power of
two is a whole number of periods. -/
theorem documented_up_to_chunk (ws : WordSize) (disk : Disk ws) :
    (∀ bytes writes, ensureFile disk bytes = some (.ok (some writes)) →
      (contents writes).length = bytes.toNat ∧
        (Documented bytes (contents writes) ↔ bytes.toNat ≤ 2 ^ 20)) ∧
    ∀ alignment bytes writes, ensureUnbufferedFile disk alignment bytes = some (.ok writes) →
      (contents writes).length = bytes.toNat ∧ Granular (alignment.granularity ws).toNat writes ∧
        (Documented bytes (contents writes) ↔
          bytes.toNat ≤ max (alignment.granularity ws).toNat (2 ^ 20)) := by
  constructor
  · intro bytes writes h
    have htiles := tiles_of_ensureFile h
    exact ⟨htiles.length (length_pattern _).ge,
      documented_iff htiles (Nat.le_refl _) (by decide) (by decide)⟩
  · intro alignment bytes writes h
    obtain ⟨hpow, hbytes, htiles⟩ := tiles_of_ensureUnbufferedFile h
    have hchunk : (unbufferedChunk ws alignment).isPowerOfTwo := isPowerOfTwo_unbufferedChunk hpow
    have hlen := (length_pattern (unbufferedChunk ws alignment)).ge
    refine ⟨htiles.length hlen, ?_, ?_⟩
    · exact htiles.aligned hlen (isPowerOfTwo_dvd hpow hchunk (Nat.le_max_left ..)) (Nat.dvd_zero _) hbytes
    · exact documented_iff htiles (Nat.le_refl _) (Nat.pos_of_isPowerOfTwo hchunk)
        (isPowerOfTwo_mod_period hchunk)


/-- A disk on which everything works and nothing is there yet. -/
def Disk.blank (ws : WordSize) : Disk ws where
  createDirAll := .ok ()
  metadata := none
  create := .ok ()
  isUnbuffered := .ok true
  alloc _ _ := some 0
  write _ := .ok ()
  sync := .ok ()

theorem ensureFile_blank {bytes : UInt64} :
    ∃ writes, ensureFile (Disk.blank .w64) bytes = some (.ok (some writes)) := by
  have hword : ∀ n ≤ bytes.toNat, (ensureFileTake .w64 n).1 = min n contentLen := by
    intro n hn
    have hlt : n < 2 ^ WordSize.w64.bits := hn.trans_lt bytes.toNat_lt
    simp only [ensureFileTake, Nat.mod_eq_of_lt hlt]
  obtain ⟨writes, hloop⟩ : ∃ writes, writeFrom (fun _ => .ok ()) (ensureFileTake .w64)
      (pattern contentLen) 0 bytes.toNat = some (.ok writes) :=
    writeFrom_returns (by decide) hword fun _ => rfl
  refine ⟨writes, ?_⟩
  simp only [ensureFile, hloop, Disk.blank, reduceCtorEq, if_false]

/-- One byte past the buffer, which is the pattern's first byte again. -/
theorem not_documented_past_chunk : ∃ writes,
    ensureFile (Disk.blank .w64) 1048577 = some (.ok (some writes)) ∧
      (contents writes)[1048576]? = some 0 ∧ patternByte 1048576 = 149 ∧
      ¬ Documented 1048577 (contents writes) := by
  obtain ⟨writes, h⟩ := @ensureFile_blank 1048577
  have htiles := tiles_of_ensureFile h
  refine ⟨writes, h, ?_, by decide, fun hdoc => ?_⟩
  · rw [htiles.getElem? (length_pattern _).ge (by decide)]
    exact pattern_getElem? (by decide)
  · have hle := (documented_iff htiles (Nat.le_refl _) (by decide) (by decide)).mp hdoc
    exact absurd hle (by decide)

/-- Up to 1 MiB the content is as documented. -/
theorem documented_up_to_chunk_mib : ∃ writes,
    ensureFile (Disk.blank .w64) 1048576 = some (.ok (some writes)) ∧
      Documented 1048576 (contents writes) := by
  obtain ⟨writes, h⟩ := @ensureFile_blank 1048576
  obtain ⟨hfile, -⟩ := documented_up_to_chunk .w64 (Disk.blank .w64)
  exact ⟨writes, h, (hfile _ _ h).2.mpr (by decide)⟩

end WinIoring.Bench
