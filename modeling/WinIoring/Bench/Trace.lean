import WinIoring.Machine.Digest

/-!
# Traces

What a run of the benchmarks issued and delivered, recorded so that two runs can be
compared. The deliveries are hashed one by one and the hashes added up, so the order
of completions does not enter.
-/

namespace WinIoring.Bench

open WinIoring.Machine

/-- Which part of a scenario an operation belongs to. -/
inductive Phase where
  | read
  | write
  deriving DecidableEq

/-- `phase as u64`. -/
def Phase.toUInt64 : Phase → UInt64
  | .read => 1
  | .write => 2

structure Issued where
  offset : UInt64
  len : UInt32
  deriving DecidableEq

/-- What a run issued and delivered. -/
structure Trace where
  issued : List Issued
  digest : UInt64
  deliveredBytes : UInt64
  completions : Nat
  deriving DecidableEq

-- ---------------------------------------------------------------------------
-- The hash
-- ---------------------------------------------------------------------------

structure Fnv where
  state : UInt64

namespace Fnv

def prime : UInt64 := 0x100000001B3

/-- One byte. -/
def step (h : UInt64) (b : UInt8) : UInt64 := (h ^^^ b.toUInt64) * prime

def feed (h : Fnv) (bytes : List UInt8) : Fnv := ⟨bytes.foldl step h.state⟩

def toLeBytes (value : UInt64) : List UInt8 :=
  (List.range 8).map fun i => (value >>> (8 * .ofNat i)).toUInt8

def feedU64 (h : Fnv) (value : UInt64) : Fnv := h.feed (toLeBytes value)

end Fnv

def fnv1a (seed : UInt64) : Fnv := ⟨seed⟩

/-- A completion as `delivered` is told of it. -/
structure Delivery where
  phase : Phase
  offset : UInt64
  transferred : UInt32
  bytes : List UInt8
  deriving DecidableEq

namespace Delivery

/-- The bytes the operation transferred, of those there are. -/
def readable (d : Delivery) : List UInt8 := d.bytes.take (min d.transferred.toNat d.bytes.length)

/-- A delivery without what lies beyond the transferred bytes. -/
def seen (d : Delivery) : Delivery := { d with bytes := d.readable }

def hash (d : Delivery) : UInt64 :=
  let h := fnv1a 0xcbf29ce484222325
  let h := ((h.feedU64 d.phase.toUInt64).feedU64 d.offset).feedU64 d.transferred.toUInt64
  (h.feed d.readable).state

end Delivery

-- ---------------------------------------------------------------------------
-- Recording
-- ---------------------------------------------------------------------------

namespace Trace

def new : Trace := { issued := [], digest := 0, deliveredBytes := 0, completions := 0 }

/-- Records that an operation was issued. -/
def issue (t : Trace) (op : Issued) : Trace := { t with issued := t.issued ++ [op] }

/-- Records what an operation delivered. -/
def delivered (t : Trace) (d : Delivery) : Trace :=
  { t with
    digest := t.digest + d.hash
    deliveredBytes := t.deliveredBytes + .ofNat d.readable.length
    completions := t.completions + 1 }

end Trace

/-- How two runs differed. -/
inductive Mismatch where
  | operationCount (left right : Nat)
  | issueOrder (index : Nat) (left right : String)
  | completionCount (left right : Nat)
  | deliveredBytes (left right : UInt64)
  | delivered (left right : UInt64)
  deriving DecidableEq

/-- How a difference in issue order names an operation. -/
def Issued.describe (op : Issued) : String := toString op.offset ++ "+" ++ toString op.len

/-- The loop over both runs' operations, from `index` on. -/
def issueMismatch (index : Nat) : List Issued → List Issued → Option Mismatch
  | a :: as, b :: bs =>
    if a ≠ b then some (.issueOrder index a.describe b.describe) else issueMismatch (index + 1) as bs
  | _, _ => none

/-- Compares a trace with another: the first difference, if there is one. -/
def Trace.agreesWith (t other : Trace) : Except Mismatch Unit :=
  if t.issued.length ≠ other.issued.length then
    .error (.operationCount t.issued.length other.issued.length)
  else
    match issueMismatch 0 t.issued other.issued with
    | some mismatch => .error mismatch
    | none =>
      if t.completions ≠ other.completions then
        .error (.completionCount t.completions other.completions)
      else if t.deliveredBytes ≠ other.deliveredBytes then
        .error (.deliveredBytes t.deliveredBytes other.deliveredBytes)
      else if t.digest ≠ other.digest then
        .error (.delivered t.digest other.digest)
      else
        .ok ()

/-- Whether two traces are of the same work. -/
def Trace.Agrees (t other : Trace) : Prop := t.agreesWith other = .ok ()

instance (t other : Trace) : Decidable (t.Agrees other) :=
  match h : t.agreesWith other with
  | .ok () => .isTrue h
  | .error _ => .isFalse fun hok => nomatch h.symm.trans hok

-- ---------------------------------------------------------------------------
-- Agreement
-- ---------------------------------------------------------------------------

theorem issueMismatch_eq_none {index : Nat} {as bs : List Issued} (hlen : as.length = bs.length) :
    issueMismatch index as bs = none ↔ as = bs := by
  induction as generalizing index bs with
  | nil =>
    obtain rfl := List.length_eq_zero_iff.mp hlen.symm
    simp [issueMismatch]
  | cons a as ih =>
    cases bs with
    | nil => cases hlen
    | cons b bs =>
      rw [issueMismatch]
      by_cases hab : a = b
      · subst hab
        simp [ih (Nat.succ.inj hlen)]
      · simp [hab]

/-- What two traces that agree have in common: everything. -/
theorem Trace.agrees_iff {t u : Trace} : t.Agrees u ↔ t = u := by
  obtain ⟨issued, digest, deliveredBytes, completions⟩ := t
  obtain ⟨issued', digest', deliveredBytes', completions'⟩ := u
  simp only [Agrees, agreesWith, mk.injEq]
  by_cases hlen : issued.length = issued'.length
  · cases hmismatch : issueMismatch 0 issued issued' with
    | none =>
      rw [(issueMismatch_eq_none hlen).mp hmismatch]
      simp only [ne_eq, not_true_eq_false, if_false, true_and]
      by_cases hcompletions : completions = completions'
      · by_cases hbytes : deliveredBytes = deliveredBytes'
        · by_cases hdigest : digest = digest' <;> simp [hcompletions, hbytes, hdigest]
        · simp [hcompletions, hbytes]
      · simp [hcompletions]
    | some mismatch =>
      have hissued : issued ≠ issued' := by
        intro h
        rw [(issueMismatch_eq_none hlen).mpr h] at hmismatch
        cases hmismatch
      simp [hlen, hissued]
  · have hissued : issued ≠ issued' := fun h => hlen (congrArg List.length h)
    simp [hlen, hissued]


theorem Trace.agrees_equivalence : Equivalence Trace.Agrees where
  refl _ := agrees_iff.mpr rfl
  symm h := agrees_iff.mpr (agrees_iff.mp h).symm
  trans h h' := agrees_iff.mpr ((agrees_iff.mp h).trans (agrees_iff.mp h'))

-- ---------------------------------------------------------------------------
-- The hash loses nothing
-- ---------------------------------------------------------------------------

namespace Fnv

/-- An odd factor can be divided out again. -/
theorem mul_prime_injective : Function.Injective fun h : UInt64 => h * prime := by
  have hinverse : prime * 0xCE965057AFF6957B = 1 := by decide
  intro a b hab
  have := congrArg (· * 0xCE965057AFF6957B) hab
  simpa only [UInt64.mul_assoc, hinverse, UInt64.mul_one] using this

theorem xor_right_cancel {a b c : UInt64} (h : a ^^^ c = b ^^^ c) : a = b := by
  have := congrArg (· ^^^ c) h
  simpa only [UInt64.xor_assoc, UInt64.xor_self, UInt64.xor_zero] using this

theorem step_injective (b : UInt8) : Function.Injective fun h => step h b := by
  intro h h' heq
  have hxor : h ^^^ b.toUInt64 = h' ^^^ b.toUInt64 := mul_prime_injective heq
  exact xor_right_cancel hxor

theorem step_symbol_injective (h : UInt64) : Function.Injective (step h) := by
  intro b b' heq
  have hxor : h ^^^ b.toUInt64 = h ^^^ b'.toUInt64 := mul_prime_injective heq
  rw [UInt64.xor_comm h, UInt64.xor_comm h] at hxor
  exact UInt8.toUInt64_inj.mp (xor_right_cancel hxor)

end Fnv

namespace Delivery

@[simp] theorem seen_phase (d : Delivery) : d.seen.phase = d.phase := rfl
@[simp] theorem seen_offset (d : Delivery) : d.seen.offset = d.offset := rfl
@[simp] theorem seen_transferred (d : Delivery) : d.seen.transferred = d.transferred := rfl

@[simp] theorem readable_seen (d : Delivery) : d.seen.readable = d.readable := by
  have hlen : d.readable.length ≤ d.transferred.toNat := by
    rw [readable, List.length_take]
    omega
  show d.readable.take (min d.transferred.toNat d.readable.length) = d.readable
  rw [Nat.min_eq_right hlen, List.take_length]

@[simp] theorem hash_seen (d : Delivery) : d.seen.hash = d.hash := by
  simp only [hash, readable_seen, seen_phase, seen_offset, seen_transferred]

/-- The same operation with the same bytes, all but one. -/
structure DiffersInOneByte (d d' : Delivery) : Prop where
  phase : d.phase = d'.phase
  offset : d.offset = d'.offset
  transferred : d.transferred = d'.transferred
  byte : ∃ before b b' after, b ≠ b' ∧ d.readable = before ++ b :: after ∧
    d'.readable = before ++ b' :: after

theorem DiffersInOneByte.hash_ne {d d' : Delivery} (h : DiffersInOneByte d d') : d.hash ≠ d'.hash := by
  obtain ⟨hphase, hoffset, htransferred, before, b, b', after, hne, hd, hd'⟩ := h
  intro heq
  simp only [hash, hphase, hoffset, htransferred, hd, hd', Fnv.feed] at heq
  exact hne (foldl_symbol_injective Fnv.step_injective Fnv.step_symbol_injective heq)

end Delivery

-- ---------------------------------------------------------------------------
-- Runs
-- ---------------------------------------------------------------------------

/-- What a run tells its trace. -/
inductive Call where
  | issued (op : Issued)
  | delivered (d : Delivery)

def Trace.record (t : Trace) : Call → Trace
  | .issued op => t.issue op
  | .delivered d => t.delivered d

def trace (run : List Call) : Trace := run.foldl Trace.record .new

def issues (run : List Call) : List Issued :=
  run.filterMap fun
    | .issued op => some op
    | .delivered _ => none

def deliveries (run : List Call) : List Delivery :=
  run.filterMap fun
    | .issued _ => none
    | .delivered d => some d

/-- The bytes a list of deliveries put into readable memory. -/
def readableBytes (ds : List Delivery) : Nat := Machine.digest (fun d => d.readable.length) ds

theorem record_foldl (t : Trace) (run : List Call) : run.foldl Trace.record t =
    { issued := t.issued ++ issues run
      digest := t.digest + Machine.digest Delivery.hash (deliveries run)
      deliveredBytes := t.deliveredBytes + .ofNat (readableBytes (deliveries run))
      completions := t.completions + (deliveries run).length } := by
  induction run generalizing t with
  | nil =>
    obtain ⟨issued, digest, deliveredBytes, completions⟩ := t
    simp [issues, deliveries, readableBytes]
  | cons call run ih =>
    rw [List.foldl_cons, ih]
    cases call with
    | issued op => simp [Trace.record, Trace.issue, issues, deliveries]
    | delivered d =>
      simp [Trace.record, Trace.delivered, issues, deliveries, readableBytes, UInt64.add_assoc, Nat.add_assoc,
        Nat.add_comm 1]

/-- A run's trace, in closed form. -/
theorem trace_eq (run : List Call) : trace run =
    { issued := issues run
      digest := Machine.digest Delivery.hash (deliveries run)
      deliveredBytes := .ofNat (readableBytes (deliveries run))
      completions := (deliveries run).length } := by
  rw [trace, record_foldl]
  simp [Trace.new]


/-- The digest and the count do not depend on what lies beyond what was
transferred. -/
theorem digest_seen (ds : List Delivery) :
    Machine.digest Delivery.hash (ds.map Delivery.seen) = Machine.digest Delivery.hash ds := by
  induction ds with
  | nil => rfl
  | cons d ds ih => rw [List.map_cons, digest_cons, digest_cons, ih, Delivery.hash_seen]

theorem readableBytes_seen (ds : List Delivery) :
    readableBytes (ds.map Delivery.seen) = readableBytes ds := by
  induction ds with
  | nil => rfl
  | cons d ds ih =>
    simp only [readableBytes, List.map_cons, digest_cons, Delivery.readable_seen] at ih ⊢
    rw [ih]

/-- The deliveries of two runs are the same but for one, and that one for a byte. -/
def OneByteApart (run run' : List Call) : Prop :=
  ∃ d d' rest, ((deliveries run).map Delivery.seen).Perm (d :: rest) ∧
    ((deliveries run').map Delivery.seen).Perm (d' :: rest) ∧ d.DiffersInOneByte d'

/-- Some deliveries of the second run have fewer readable bytes than their twins in
the first, and the rest are the same. -/
def Hollower (run run' : List Call) : Prop :=
  ∃ twins twins' rest, ((deliveries run).map Delivery.seen).Perm (twins ++ rest) ∧
    ((deliveries run').map Delivery.seen).Perm (twins' ++ rest) ∧ twins ≠ [] ∧
    List.Forall₂ (fun d d' => d'.readable.length < d.readable.length) twins twins'

theorem readableBytes_lt {twins twins' : List Delivery} (hne : twins ≠ [])
    (h : List.Forall₂ (fun d d' => d'.readable.length < d.readable.length) twins twins') :
    readableBytes twins' < readableBytes twins := by
  cases h with
  | nil => exact absurd rfl hne
  | @cons d d' ds ds' hlt htail =>
    have hle : readableBytes ds' ≤ readableBytes ds := by
      clear hlt hne
      induction htail with
      | nil => exact Nat.le_refl _
      | cons hlt _ ih =>
        simp only [readableBytes, digest_cons] at ih ⊢
        omega
    simp only [readableBytes, digest_cons] at hle ⊢
    omega

theorem Hollower.readableBytes_lt {run run' : List Call} (h : Hollower run run') :
    readableBytes (deliveries run') < readableBytes (deliveries run) := by
  obtain ⟨twins, twins', rest, hperm, hperm', hne, hfewer⟩ := h
  have hsum : readableBytes _ = readableBytes _ := digest_perm hperm
  have hsum' : readableBytes _ = readableBytes _ := digest_perm hperm'
  have hlt := Bench.readableBytes_lt hne hfewer
  rw [← readableBytes_seen (deliveries run), ← readableBytes_seen (deliveries run')]
  simp only [readableBytes, digest_append] at hlt hsum hsum' ⊢
  omega

/-- Agreement does not depend on the order of the deliveries or on what lies beyond
what they transferred; it is an equivalence; it fails for runs one byte apart, and
for one with fewer readable bytes even if every hash is what it should not be. -/
theorem agreement_discriminates :
    (∀ run run', issues run = issues run' →
      ((deliveries run).map Delivery.seen).Perm ((deliveries run').map Delivery.seen) →
      (trace run).Agrees (trace run')) ∧
    Equivalence Trace.Agrees ∧
    (∀ run run', OneByteApart run run' → ¬ (trace run).Agrees (trace run')) ∧
    ∀ run run', Hollower run run' → readableBytes (deliveries run) < 2 ^ 64 →
      readableBytes (deliveries run') < 2 ^ 64 → ∀ digest digest',
        ¬ ({ trace run with digest } : Trace).Agrees { trace run' with digest := digest' } := by
  refine ⟨fun run run' hissues hperm => ?_, Trace.agrees_equivalence, fun run run' h => ?_,
    fun run run' h htotal htotal' digest digest' => ?_⟩
  · have hdigest : Machine.digest Delivery.hash _ = Machine.digest Delivery.hash _ := digest_perm hperm
    have hbytes : readableBytes _ = readableBytes _ := digest_perm hperm
    have hlength := hperm.length_eq
    rw [digest_seen, digest_seen] at hdigest
    rw [readableBytes_seen, readableBytes_seen] at hbytes
    rw [List.length_map, List.length_map] at hlength
    rw [Trace.agrees_iff, trace_eq, trace_eq, hissues, hdigest, hbytes, hlength]
  · obtain ⟨d, d', rest, hperm, hperm', hbyte⟩ := h
    have hne := digest_ne_of_perm_cons hperm hperm' hbyte.hash_ne
    rw [digest_seen, digest_seen] at hne
    rw [Trace.agrees_iff, trace_eq, trace_eq]
    exact fun heq => hne (congrArg Trace.digest heq)
  · have hlt := h.readableBytes_lt
    rw [Trace.agrees_iff, trace_eq, trace_eq]
    intro heq
    have hbytes := congrArg UInt64.toNat (congrArg Trace.deliveredBytes heq)
    simp only [UInt64.toNat_ofNat_of_lt' htotal, UInt64.toNat_ofNat_of_lt' htotal'] at hbytes
    omega


/-- Two reads in either order, with stale bytes behind one of them; a byte changed;
and nothing readable behind a count. -/
theorem agreement_discriminates_reads :
    let first : Delivery := { phase := .read, offset := 0, transferred := 2, bytes := [1, 2] }
    let second : Delivery := { phase := .read, offset := 2, transferred := 2, bytes := [3, 4] }
    (trace [.delivered first, .delivered second]).Agrees
        (trace [.delivered { second with bytes := [3, 4, 9] }, .delivered first]) ∧
      ¬ (trace [.delivered first]).Agrees (trace [.delivered { first with bytes := [1, 5] }]) ∧
      ¬ (trace [.delivered first]).Agrees (trace [.delivered { first with bytes := [] }]) := by
  intro first second
  obtain ⟨hagree, -, hbyte, hhollow⟩ := agreement_discriminates
  refine ⟨hagree _ _ rfl ?_, hbyte _ _ ?_, ?_⟩
  · exact .swap ..
  · exact ⟨first, { first with bytes := [1, 5] }, [], .refl _, .refl _, rfl, rfl, rfl, [1], 2, 5, [],
      by decide, rfl, rfl⟩
  · have hollower : Hollower [.delivered first] [.delivered { first with bytes := [] }] :=
      ⟨[first], [{ first with bytes := [] }], [], .refl _, .refl _, by simp, .cons (by decide) .nil⟩
    exact hhollow _ _ hollower (by decide) (by decide) _ _

end WinIoring.Bench
