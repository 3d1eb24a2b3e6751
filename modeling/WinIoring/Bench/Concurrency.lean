import WinIoring.Machine.Run

/-!
# Measured depth

A run of the benchmarks keeps a bounded number of operations outstanding and
samples how many there are before each it awaits. The samples' sum against the
closed form the run is checked with, whatever order the operations finish in.
-/

namespace WinIoring.Bench

/-- The kinds of `io::Error` the runs tell apart. -/
inductive IoError where
  | wouldBlock
  | unexpectedEof
  | other (code : Nat)
  deriving DecidableEq

inductive Shape where
  | rolling
  | batched
  deriving DecidableEq

/-- Whether the refill loop may run. -/
def Shape.mayRefill (shape : Shape) (nothingOutstanding : Bool) : Bool :=
  match shape with
  | .rolling => true
  | .batched => nothingOutstanding

/-- The sum of a full descending drain from `d` down to one. -/
def drain (d : Nat) : Nat := d * (d + 1) / 2

/-- What `predicted_mean_depth` divides by the count. -/
def predictedWeighted (shape : Shape) (count configured : Nat) : Nat :=
  let n := max configured 1
  if count = 0 then
    0
  else
    match shape with
    | .rolling => if count ≥ n then (count - n) * n + drain n else drain count
    | .batched =>
      let whole := count / n
      let tail := count % n
      whole * drain n + drain tail

-- ---------------------------------------------------------------------------
-- The runner
-- ---------------------------------------------------------------------------

/-- Where `Runner::run` stands: at the top of its loop, in the refill, past it, or
returned. -/
inductive RunPc where
  | top
  | refilling
  | draining
  | returned (result : Except IoError Unit)

/-- A `Runner` in a call of `run`, with the call's own variables. Operations go by
their index; `issues` and `deliveries` are the ones made and the ones taken, in
order. -/
structure Runner where
  shape : Shape
  configured : Nat
  peak : Nat
  weighted : Nat
  samples : Nat
  starved : Bool
  poolBound : Bool
  count : Nat
  pending : List Nat
  issued : Nat
  issues : List Nat
  deliveries : List Nat
  pc : RunPc

inductive RunnerAction where
  | advance
  /-- `make` answers. -/
  | make (result : Except IoError Unit)
  /-- The pending operation at a place is the next to finish. -/
  | finish (i : Nat) (outcome : Except IoError Nat)

namespace Runner

def new (shape : Shape) (count depth : Nat) : Runner where
  shape
  configured := max depth 1
  peak := 0
  weighted := 0
  samples := 0
  starved := false
  poolBound := false
  count
  pending := []
  issued := 0
  issues := []
  deliveries := []
  pc := .top

/-- The refill's own bound. -/
def Short (s : Runner) : Prop := s.issued < s.count ∧ s.pending.length < s.configured

instance (s : Runner) : Decidable s.Short := inferInstanceAs (Decidable (_ ∧ _))

def step (s : Runner) (action : RunnerAction) : Option Runner :=
  match s.pc, action with
  | .top, .advance =>
    some { s with pc := if s.shape.mayRefill s.pending.isEmpty then .refilling else .draining }
  | .refilling, .advance => if s.Short then none else some { s with pc := .draining }
  | .refilling, .make result =>
    if s.Short then
      match result with
      | .ok _ => some { s with
          pending := s.pending ++ [s.issued]
          issued := s.issued + 1
          issues := s.issues ++ [s.issued] }
      | .error e =>
        if e = .wouldBlock ∧ s.pending ≠ [] then
          some { s with poolBound := true, pc := .draining }
        else
          some { s with pc := .returned (.error e) }
    else
      none
  | .draining, .advance => if s.pending = [] then some { s with pc := .returned (.ok ()) } else none
  | .draining, .finish i outcome =>
    s.pending[i]?.map fun op =>
      let outstanding := s.pending.length
      let s := { s with
        pending := s.pending.eraseIdx i
        peak := max s.peak outstanding
        starved := s.starved || decide (s.issued ≥ s.count ∧ outstanding < s.configured)
        weighted := s.weighted + outstanding
        samples := s.samples + 1 }
      match outcome with
      | .error e => { s with pc := .returned (.error e) }
      | .ok _ => { s with deliveries := s.deliveries ++ [op], pc := .top }
  | _, _ => none

end Runner

/-- Whether `make` was refused. -/
def RunnerAction.refuses : RunnerAction → Bool
  | .make (.error _) => true
  | _ => false

def runner (shape : Shape) (count depth : Nat) : Machine Runner RunnerAction where
  init s := s = .new shape count depth
  step := Runner.step

/-- Every operation succeeds, and the pool refuses only while something is
outstanding. -/
def Successful (s : Runner) : RunnerAction → Prop
  | .make (.error e) => e = .wouldBlock ∧ s.pending ≠ []
  | .finish _ (.error _) => False
  | _ => True

/-- Every operation succeeds, and the pool never refuses. -/
def Unrefused (s : Runner) (a : RunnerAction) : Prop := Successful s a ∧ a.refuses = false

-- ---------------------------------------------------------------------------
-- Sums of drains
-- ---------------------------------------------------------------------------

@[simp] theorem drain_zero : drain 0 = 0 := rfl

theorem two_mul_drain (d : Nat) : 2 * drain d = d * (d + 1) :=
  Nat.mul_div_cancel' (Nat.even_mul_succ_self d).two_dvd

theorem drain_add (a b : Nat) : drain (a + b) = drain a + drain b + a * b := by
  have hab := two_mul_drain (a + b)
  have ha := two_mul_drain a
  have hb := two_mul_drain b
  have hexpand : (a + b) * (a + b + 1) = a * (a + 1) + b * (b + 1) + 2 * (a * b) := by ring
  omega

theorem drain_succ (d : Nat) : drain (d + 1) = drain d + (d + 1) := by
  rw [drain_add, Nat.mul_one, Nat.add_assoc]
  exact congrArg _ (Nat.add_comm 1 d)

/-- Drains of nearer sizes sum to less: `e` and `c + f` lie outside `c + e` and
`f`. -/
theorem drain_exchange {c e f : Nat} (h : e ≤ f) :
    drain (c + e) + drain f ≤ drain (c + f) + drain e := by
  have hmul := Nat.mul_le_mul_left c h
  rw [drain_add, drain_add]
  omega

/-- The samples of `m` operations in whole batches of `n` and one of the rest. -/
def batchSum (n m : Nat) : Nat := m / n * drain n + drain (m % n)

/-- The samples of `m` operations with as many as `n` outstanding throughout. -/
def rollingSum (n : Nat) : Nat → Nat
  | 0 => 0
  | m + 1 => rollingSum n m + min n (m + 1)

theorem batchSum_of_lt {n m : Nat} (h : m < n) : batchSum n m = drain m := by
  rw [batchSum, Nat.div_eq_of_lt h, Nat.mod_eq_of_lt h, Nat.zero_mul, Nat.zero_add]

theorem batchSum_add {n : Nat} (hn : 0 < n) (m : Nat) : batchSum n (n + m) = drain n + batchSum n m := by
  rw [batchSum, batchSum, Nat.add_div_left m hn, Nat.add_mod_left, Nat.succ_mul]
  omega

/-- A batch of its own, of any size there is room for, adds no more than it would
within whole batches. -/
theorem drain_add_batchSum_le {n b : Nat} (hn : 0 < n) (hb : b ≤ n) (r : Nat) :
    drain b + batchSum n r ≤ batchSum n (r + b) := by
  induction r using Nat.strong_induction_on with
  | _ r ih =>
    by_cases hr : n ≤ r
    · obtain ⟨r', rfl⟩ := Nat.exists_eq_add_of_le hr
      have hrest := ih r' (by omega)
      rw [batchSum_add hn, Nat.add_assoc, batchSum_add hn]
      omega
    have hr := Nat.lt_of_not_le hr
    rw [batchSum_of_lt hr]
    by_cases hsum : r + b < n
    · rw [batchSum_of_lt hsum, drain_add]
      omega
    obtain ⟨e, he⟩ := Nat.exists_eq_add_of_le (Nat.le_of_not_lt hsum)
    have hexchange := drain_exchange (c := n - b) (e := e) (f := b) (by omega)
    rw [he, batchSum_add hn, batchSum_of_lt (by omega)]
    rw [show n - b + e = r by omega, show n - b + b = n by omega] at hexchange
    omega

theorem rollingSum_of_le {n m : Nat} (h : m ≤ n) : rollingSum n m = drain m := by
  induction m with
  | zero => rfl
  | succ m ih =>
    rw [rollingSum, ih (Nat.le_of_succ_le h), Nat.min_eq_right h, drain_succ]

theorem rollingSum_add (n m : Nat) : rollingSum n (n + m) = m * n + drain n := by
  induction m with
  | zero => rw [Nat.add_zero, rollingSum_of_le (Nat.le_refl n), Nat.zero_mul, Nat.zero_add]
  | succ m ih =>
    rw [← Nat.add_assoc, rollingSum, ih, Nat.min_eq_left (by omega), Nat.succ_mul]
    omega

/-- The closed form is the sum of the samples. -/
theorem predictedWeighted_rolling (count configured : Nat) :
    predictedWeighted .rolling count configured = rollingSum (max configured 1) count := by
  unfold predictedWeighted
  dsimp only
  split
  · rename_i hzero
    rw [hzero, rollingSum]
  split
  · rename_i hge
    obtain ⟨m, rfl⟩ := Nat.exists_eq_add_of_le hge
    rw [rollingSum_add, Nat.add_sub_cancel_left]
  · rename_i hlt
    rw [rollingSum_of_le (by omega)]

theorem predictedWeighted_batched (count configured : Nat) :
    predictedWeighted .batched count configured = batchSum (max configured 1) count := by
  unfold predictedWeighted
  dsimp only
  split
  · rename_i hzero
    rw [hzero, batchSum, Nat.zero_div, Nat.zero_mod, Nat.zero_mul]
    rfl
  · rfl

/-- Batches after the first fall short of a full window whenever they drain. -/
theorem batchSum_lt_mul {n m : Nat} (hn : 2 ≤ n) (hm : 0 < m) : batchSum n m < m * n := by
  have hdrain : ∀ d, 0 < d → d ≤ n → drain d < d * n := by
    intro d hd hdn
    have htwo := two_mul_drain d
    have hle := Nat.mul_le_mul_left d hdn
    have hmul : d * (d + 1) = d * d + d := by ring
    have hpos := Nat.mul_le_mul_left d hn
    omega
  have hsplit : m * n = m / n * (n * n) + m % n * n := by
    conv_lhs => rw [← Nat.div_add_mod m n]
    ring
  have hwhole := Nat.mul_le_mul_left (m / n) (hdrain n (by omega) (Nat.le_refl n)).le
  have hmod := Nat.mod_lt m (show 0 < n by omega)
  rw [batchSum, hsplit]
  by_cases htail : m % n = 0
  · have hquot : 0 < m / n := Nat.div_pos (Nat.le_of_dvd hm (Nat.dvd_of_mod_eq_zero htail)) (by omega)
    have hlt := Nat.mul_lt_mul_of_pos_left (hdrain n (by omega) (Nat.le_refl n)) hquot
    rw [htail, drain_zero, Nat.zero_mul]
    omega
  · have hlt := hdrain (m % n) (by omega) hmod.le
    omega

/-- The two shapes predict alike only where neither has a second window to
fill. -/
theorem predictedWeighted_eq_iff (count configured : Nat) :
    predictedWeighted .rolling count configured = predictedWeighted .batched count configured ↔
      count ≤ max configured 1 ∨ max configured 1 = 1 := by
  rw [predictedWeighted_rolling, predictedWeighted_batched]
  generalize hn : max configured 1 = n
  have hpos : 0 < n := by omega
  by_cases hle : count ≤ n
  · refine iff_of_true ?_ (.inl hle)
    rw [rollingSum_of_le hle]
    rcases Nat.lt_or_eq_of_le hle with hlt | rfl
    · rw [batchSum_of_lt hlt]
    · have hone := batchSum_add hpos 0
      rw [Nat.add_zero, batchSum_of_lt hpos, drain_zero, Nat.add_zero] at hone
      exact hone.symm
  obtain ⟨m, rfl⟩ := Nat.exists_eq_add_of_le (Nat.le_of_not_le hle)
  rw [rollingSum_add, batchSum_add hpos, Nat.add_comm, Nat.add_left_cancel_iff]
  by_cases hone : n = 1
  · subst hone
    refine iff_of_true ?_ (.inr rfl)
    simp [batchSum, Nat.mod_one, drain]
  · have hlt := batchSum_lt_mul (n := n) (m := m) (by omega) (by omega)
    exact iff_of_false hlt.ne' (not_or.mpr ⟨hle, hone⟩)

-- ---------------------------------------------------------------------------
-- What a run keeps
-- ---------------------------------------------------------------------------

namespace Runner

/-- What the samples to come may add up to. A batched refill can still become any
batch there is room for. -/
def owed (s : Runner) : Nat :=
  match s.shape, s.pc with
  | .rolling, _ => rollingSum s.configured (s.count - s.samples)
  | .batched, .refilling => batchSum s.configured (s.count - s.samples)
  | .batched, _ => drain s.pending.length + batchSum s.configured (s.count - s.issued)

/-- One step of a run whose operations succeed. The flag is up where the pool may
refuse. -/
inductive Turn (s : Runner) : Bool → Runner → Prop
  | enter (hpc : s.pc = .top) :
    Turn s b { s with pc := if s.shape.mayRefill s.pending.isEmpty then .refilling else .draining }
  | leave (hpc : s.pc = .refilling) (hshort : ¬ s.Short) : Turn s b { s with pc := .draining }
  | issue (hpc : s.pc = .refilling) (hshort : s.Short) :
    Turn s b { s with
      pending := s.pending ++ [s.issued]
      issued := s.issued + 1
      issues := s.issues ++ [s.issued] }
  | refuse (hpc : s.pc = .refilling) (hpending : s.pending ≠ []) :
    Turn s true { s with poolBound := true, pc := .draining }
  | stop (hpc : s.pc = .draining) (hpending : s.pending = []) :
    Turn s b { s with pc := .returned (.ok ()) }
  | deliver (hpc : s.pc = .draining) (hop : s.pending[i]? = some op) :
    Turn s b { s with
      pending := s.pending.eraseIdx i
      peak := max s.peak s.pending.length
      starved := still
      weighted := s.weighted + s.pending.length
      samples := s.samples + 1
      deliveries := s.deliveries ++ [op]
      pc := .top }

theorem turn_of_step (hok : Successful s a) (h : s.step a = some t) : Turn s a.refuses t := by
  unfold step at h
  split at h
  · obtain rfl := Option.some.inj h
    exact .enter ‹_›
  · split at h
    · cases h
    · obtain rfl := Option.some.inj h
      exact .leave ‹_› ‹_›
  · rename_i result hpc
    split at h
    · cases result with
      | ok u =>
        obtain rfl := Option.some.inj h
        exact .issue ‹_› ‹_›
      | error e =>
        dsimp only at h
        split at h
        · obtain rfl := Option.some.inj h
          exact .refuse hpc hok.2
        · exact absurd hok ‹_›
    · cases h
  · split at h
    · obtain rfl := Option.some.inj h
      exact .stop ‹_› ‹_›
    · cases h
  · rename_i i outcome hpc
    obtain ⟨op, hop, rfl⟩ := Option.map_eq_some_iff.mp h
    cases outcome with
    | ok => exact .deliver hpc hop
    | error e => exact hok.elim
  · cases h

/-- Every operation made is pending or has been delivered, and there is room. -/
structure Accounted (s : Runner) : Prop where
  positive : 0 < s.configured
  issued : s.issued ≤ s.count
  issues : s.issues = List.range s.issued
  room : s.pending.length ≤ s.configured
  split : (s.pending ++ s.deliveries).Perm s.issues
  samples : s.samples = s.deliveries.length
  bound : s.weighted + s.owed ≤ predictedWeighted s.shape s.count s.configured
  done : s.pc = .draining → s.pending = [] → s.issued = s.count
  returned : ∀ result, s.pc = .returned result → result = .ok () ∧ s.pending = [] ∧ s.issued = s.count

/-- With a pool that never refuses, the window is as full as it can be. -/
structure Exact (s : Runner) : Prop where
  weighted : s.weighted + s.owed = predictedWeighted s.shape s.count s.configured
  full : s.pc = .draining → s.shape = .rolling ∨ s.samples = 0 →
    s.pending.length = min s.configured (s.count - s.samples)
  first : s.samples = 0 → s.peak = 0 ∧ (s.pc = .top → s.pending = [])
  peak : 0 < s.samples → s.peak = min s.count s.configured

/-- A run starts owing all that is predicted. -/
theorem owed_new (shape : Shape) (count depth : Nat) : (Runner.new shape count depth).owed =
    predictedWeighted shape count (max depth 1) := by
  have hmax : max (max depth 1) 1 = max depth 1 := by omega
  cases shape with
  | rolling =>
    rw [predictedWeighted_rolling, hmax]
    rfl
  | batched =>
    rw [predictedWeighted_batched, hmax]
    show drain 0 + batchSum (max depth 1) count = _
    rw [drain_zero, Nat.zero_add]

namespace Accounted

variable {s t : Runner}

/-- What has been sampled and what is pending are what was issued. -/
theorem balance (h : Accounted s) : s.samples + s.pending.length = s.issued := by
  have hlength := h.split.length_eq
  rw [h.issues, List.length_append, List.length_range] at hlength
  have := h.samples
  omega

theorem new (shape : Shape) (count depth : Nat) : Accounted (.new shape count depth) where
  positive := Nat.le_max_right ..
  issued := Nat.zero_le _
  issues := rfl
  room := Nat.zero_le _
  split := .refl _
  samples := rfl
  bound := by
    rw [owed_new]
    exact (Nat.zero_add _).le
  done := nofun
  returned := nofun

/-- Leaving the refill settles the size of a batch. -/
theorem owed_leave (h : Accounted s) (hpc : s.pc = .refilling) (poolBound : Bool) :
    { s with poolBound, pc := .draining }.owed ≤ s.owed := by
  unfold owed
  cases hshape : s.shape with
  | rolling => exact Nat.le_refl _
  | batched =>
    have hbalance := h.balance
    have hle := drain_add_batchSum_le h.positive h.room (s.count - s.issued)
    have hissued := h.issued
    rw [show s.count - s.issued + s.pending.length = s.count - s.samples by omega] at hle
    simpa [hpc] using hle

/-- A sample takes from what is owed: from a rolling run a full window, from a
batch what is left of it. -/
theorem owed_deliver (h : Accounted s) (hpc : s.pc = .draining) (hop : s.pending[i]? = some op)
    (still : Bool) :
    { s with
      pending := s.pending.eraseIdx i
      peak := max s.peak s.pending.length
      starved := still
      weighted := s.weighted + s.pending.length
      samples := s.samples + 1
      deliveries := s.deliveries ++ [op]
      pc := .top }.owed +
        (if s.shape = .rolling then min s.configured (s.count - s.samples) else s.pending.length) =
      s.owed := by
  obtain ⟨hi, -⟩ := List.getElem?_eq_some_iff.mp hop
  have hbalance := h.balance
  have hissued := h.issued
  unfold owed
  cases hshape : s.shape with
  | rolling =>
    have hsucc : s.count - s.samples = s.count - (s.samples + 1) + 1 := by omega
    simp only [if_true]
    rw [hsucc, rollingSum]
  | batched =>
    have hsucc : s.pending.length = s.pending.length - 1 + 1 := by omega
    have hdrain := drain_succ (s.pending.length - 1)
    rw [← hsucc] at hdrain
    simp only [hpc, List.length_eraseIdx_of_lt hi, reduceCtorEq, if_false]
    omega

theorem owed_enter (h : Accounted s) (hpc : s.pc = .top) : { s with
    pc := if s.shape.mayRefill s.pending.isEmpty then .refilling else .draining }.owed = s.owed := by
  unfold owed
  cases hshape : s.shape with
  | rolling => rfl
  | batched =>
    have hbalance := h.balance
    cases hpending : s.pending with
    | nil =>
      have hsamples : s.samples = s.issued := by simpa [hpending] using hbalance
      simp [Shape.mayRefill, hpc, hsamples]
    | cons op rest => simp [Shape.mayRefill, hpc]

theorem turn (h : Accounted s) (hturn : Turn s b t) : Accounted t := by
  have hbalance := h.balance
  cases hturn with
  | enter hpc =>
    refine { h with bound := ?_, done := fun hdraining hpending => ?_, returned := fun result hresult => ?_ }
    · rw [h.owed_enter hpc]
      exact h.bound
    · have hrefill : s.shape.mayRefill s.pending.isEmpty = true := by
        rw [show s.pending = [] from hpending]
        cases s.shape <;> rfl
      dsimp only at hdraining
      rw [if_pos hrefill] at hdraining
      cases hdraining
    · dsimp only at hresult
      split at hresult <;> cases hresult
  | leave hpc hshort =>
    refine { h with bound := ?_, done := fun _ hpending => ?_, returned := nofun }
    · exact (Nat.add_le_add_left (h.owed_leave hpc s.poolBound) _).trans h.bound
    · have hpositive := h.positive
      have hissued := h.issued
      have hpending : s.pending = [] := hpending
      rw [Short, hpending, List.length_nil] at hshort
      show s.issued = s.count
      omega
  | issue hpc hshort =>
    obtain ⟨hissued, hroom⟩ := hshort
    refine
      { positive := h.positive
        issued := hissued
        issues := ?_
        room := ?_
        split := ?_
        samples := h.samples
        bound := ?_
        done := fun hdraining => ?_
        returned := fun result hresult => ?_ }
    · rw [h.issues, List.range_succ]
    · rw [List.length_append]
      exact hroom
    · refine (List.Perm.append_right s.deliveries List.perm_append_comm).trans ?_
      rw [List.append_assoc]
      exact (h.split.append_left [s.issued]).trans List.perm_append_comm
    · have hbound := h.bound
      unfold owed at hbound ⊢
      rw [hpc] at hbound
      dsimp only
      rw [hpc]
      cases hshape : s.shape with
      | rolling => simpa [hshape] using hbound
      | batched => simpa [hshape] using hbound
    · cases hpc.symm.trans hdraining
    · cases hpc.symm.trans hresult
  | refuse hpc hpending =>
    refine { h with bound := ?_, done := fun _ hnil => absurd hnil hpending, returned := nofun }
    exact (Nat.add_le_add_left (h.owed_leave hpc true) _).trans h.bound
  | stop hpc hpending =>
    refine { h with bound := ?_, done := nofun, returned := fun result hresult => ?_ }
    · have hbound := h.bound
      unfold owed at hbound ⊢
      rw [hpc] at hbound
      dsimp only
      cases hshape : s.shape with
      | rolling => simpa [hshape] using hbound
      | batched => simpa [hshape] using hbound
    · obtain rfl := RunPc.returned.inj hresult
      exact ⟨rfl, hpending, h.done hpc hpending⟩
  | deliver hpc hop =>
    rename_i i op still
    obtain ⟨hi, hget⟩ := List.getElem?_eq_some_iff.mp hop
    refine
      { positive := h.positive
        issued := h.issued
        issues := h.issues
        room := (List.length_eraseIdx_le ..).trans h.room
        split := ?_
        samples := ?_
        bound := ?_
        done := nofun
        returned := nofun }
    · have hperm := List.getElem_cons_eraseIdx_perm hi
      rw [hget] at hperm
      refine List.Perm.trans ?_ ((hperm.append_right s.deliveries).trans h.split)
      rw [← List.append_assoc, List.cons_append]
      exact List.perm_append_singleton ..
    · rw [List.length_append, h.samples, List.length_singleton]
    · have howed := h.owed_deliver hpc hop still
      have hbound := h.bound
      have hroom := h.room
      have hissued := h.issued
      show s.weighted + s.pending.length + _ ≤ predictedWeighted s.shape s.count s.configured
      split at howed
      · omega
      · omega

end Accounted

namespace Exact

variable {s t : Runner}

theorem new (shape : Shape) (count depth : Nat) : Exact (.new shape count depth) where
  weighted := by
    rw [owed_new]
    exact Nat.zero_add _
  full := nofun
  first _ := ⟨rfl, fun _ => rfl⟩
  peak := nofun

/-- A refill that nothing refuses leaves a full window, or nothing to issue. -/
theorem window_of_leave (ha : Accounted s) (hshort : ¬ s.Short) :
    s.pending.length = min s.configured (s.count - s.samples) := by
  have hbalance := ha.balance
  have hissued := ha.issued
  have hroom := ha.room
  unfold Short at hshort
  omega

/-- A batch that nothing refuses is a whole one, or the last. -/
theorem owed_leave (ha : Accounted s) (hpc : s.pc = .refilling) (hshort : ¬ s.Short) :
    { s with pc := .draining }.owed = s.owed := by
  have hbalance := ha.balance
  have hissued := ha.issued
  have hpositive := ha.positive
  have hwindow := window_of_leave ha hshort
  unfold owed
  cases hshape : s.shape with
  | rolling => rfl
  | batched =>
    simp only [hpc]
    by_cases hfull : s.pending.length = s.configured
    · rw [hfull, ← batchSum_add hpositive]
      exact congrArg _ (by omega)
    · have hlast : s.issued = s.count := by
        have := ha.room
        unfold Short at hshort
        omega
      rw [hlast, Nat.sub_self, batchSum_of_lt hpositive, drain_zero, Nat.add_zero, batchSum_of_lt]
      · exact congrArg drain (by omega)
      · omega

theorem turn (ha : Accounted s) (h : Exact s) (hturn : Turn s false t) : Exact t := by
  have hbalance := ha.balance
  have hissued := ha.issued
  cases hturn with
  | enter hpc =>
    refine { weighted := ?_, full := fun hdraining hwhich => ?_, first := fun hsamples => ?_, peak := h.peak }
    · rw [ha.owed_enter hpc]
      exact h.weighted
    · -- Only a batch under way goes past the refill.
      dsimp only at hdraining hwhich
      split at hdraining
      · cases hdraining
      rename_i hgate
      rcases hwhich with hrolling | hsamples
      · rw [hrolling] at hgate
        exact absurd rfl hgate
      · rw [(h.first hsamples).2 hpc] at hgate
        cases hshape : s.shape <;> exact absurd rfl (hshape ▸ hgate)
    · refine ⟨(h.first hsamples).1, fun htop => ?_⟩
      dsimp only at htop
      split at htop <;> cases htop
  | leave hpc hshort =>
    refine { weighted := ?_, full := fun _ _ => ?_, first := fun hsamples => ?_, peak := h.peak }
    · rw [owed_leave ha hpc hshort]
      exact h.weighted
    · have hwindow := window_of_leave ha hshort
      exact hwindow
    · exact ⟨(h.first hsamples).1, nofun⟩
  | issue hpc hshort =>
    refine
      { weighted := ?_
        full := fun hdraining => ?_
        first := fun hsamples => ⟨(h.first hsamples).1, fun htop => ?_⟩
        peak := h.peak }
    · have hweighted := h.weighted
      unfold owed at hweighted ⊢
      rw [hpc] at hweighted
      dsimp only
      rw [hpc]
      cases hshape : s.shape with
      | rolling => simpa [hshape] using hweighted
      | batched => simpa [hshape] using hweighted
    · cases hpc.symm.trans hdraining
    · cases hpc.symm.trans htop
  | stop hpc hpending =>
    refine { weighted := ?_, full := nofun, first := fun hsamples => ⟨(h.first hsamples).1, nofun⟩, peak := h.peak }
    have hweighted := h.weighted
    unfold owed at hweighted ⊢
    rw [hpc] at hweighted
    dsimp only
    cases hshape : s.shape with
    | rolling => simpa [hshape] using hweighted
    | batched => simpa [hshape] using hweighted
  | deliver hpc hop =>
    rename_i i op still
    obtain ⟨hi, -⟩ := List.getElem?_eq_some_iff.mp hop
    refine { weighted := ?_, full := nofun, first := nofun, peak := fun _ => ?_ }
    · have howed := ha.owed_deliver hpc hop still
      have hweighted := h.weighted
      show s.weighted + s.pending.length + _ = predictedWeighted s.shape s.count s.configured
      split at howed
      · have hfull := h.full hpc (.inl ‹_›)
        omega
      · omega
    · show max s.peak s.pending.length = min s.count s.configured
      have hroom := ha.room
      rcases Nat.eq_zero_or_pos s.samples with hzero | hpositive
      · have hfull := h.full hpc (.inr hzero)
        rw [(h.first hzero).1, hfull, hzero]
        omega
      · rw [h.peak hpositive]
        omega

end Exact

end Runner

-- ---------------------------------------------------------------------------
-- Whole runs
-- ---------------------------------------------------------------------------

namespace Runner

/-- How far a turn of the loop is from returning. -/
def rank : RunPc → Nat
  | .top => 3
  | .refilling => 2
  | .draining => 1
  | .returned _ => 0

/-- What is left of a run: two turns for each operation not yet issued, one for
each pending, and the way out. -/
def left (s : Runner) : Nat :=
  3 * (2 * (s.count - s.issued) + s.pending.length) + rank s.pc

theorem left_step {s t : Runner} (h : s.step a = some t) : t.left < s.left := by
  unfold step at h
  split at h
  · rename_i hpc
    obtain rfl := Option.some.inj h
    have hrank : rank (if s.shape.mayRefill s.pending.isEmpty then .refilling else .draining) < 3 := by
      rw [apply_ite rank]
      split <;> decide
    simp only [left, hpc]
    exact Nat.add_lt_add_left hrank _
  · rename_i hpc
    split at h
    · cases h
    · obtain rfl := Option.some.inj h
      simp only [left, rank, hpc]
      omega
  · rename_i result hpc
    split at h
    · rename_i hshort
      obtain ⟨hissued, -⟩ := hshort
      cases result with
      | ok u =>
        obtain rfl := Option.some.inj h
        simp only [left, rank, hpc, List.length_append, List.length_singleton]
        omega
      | error e =>
        dsimp only at h
        split at h
        all_goals
          obtain rfl := Option.some.inj h
          simp only [left, rank, hpc]
          omega
    · cases h
  · rename_i hpc
    split at h
    · obtain rfl := Option.some.inj h
      simp only [left, rank, hpc]
      omega
    · cases h
  · rename_i i outcome hpc
    obtain ⟨op, hop, rfl⟩ := Option.map_eq_some_iff.mp h
    obtain ⟨hi, -⟩ := List.getElem?_eq_some_iff.mp hop
    have herase := List.length_eraseIdx_of_lt hi
    cases outcome with
    | ok => simp only [left, rank, hpc, herase]; omega
    | error e => simp only [left, rank, hpc, herase]; omega
  · cases h

/-- A run that has not returned can go on, without a failure. -/
theorem exists_unrefused {s : Runner} (h : ∀ result, s.pc ≠ .returned result) :
    ∃ a t, Unrefused s a ∧ s.step a = some t := by
  unfold step
  match hpc : s.pc with
  | .top => exact ⟨.advance, _, ⟨trivial, rfl⟩, rfl⟩
  | .refilling =>
    by_cases hshort : s.Short
    · exact ⟨.make (.ok ()), _, ⟨trivial, rfl⟩, if_pos hshort⟩
    · exact ⟨.advance, _, ⟨trivial, rfl⟩, if_neg hshort⟩
  | .draining =>
    cases hpending : s.pending with
    | nil => exact ⟨.advance, _, ⟨trivial, rfl⟩, if_pos rfl⟩
    | cons op rest => exact ⟨.finish 0 (.ok 0), _, ⟨trivial, rfl⟩, rfl⟩
  | .returned result => exact absurd hpc (h result)

/-- A run keeps what it was started with. -/
theorem Turn.config {s t : Runner} (h : Turn s b t) :
    t.shape = s.shape ∧ t.count = s.count ∧ t.configured = s.configured := by
  cases h <;> exact ⟨rfl, rfl, rfl⟩

end Runner

section Runs

variable {shape : Shape} {count depth : Nat} {s : Runner}

/-- What holds of a state of any run whose operations succeed. -/
theorem accounted_of_reachable (h : (runner shape count depth).ReachableBy Successful s) :
    s.Accounted ∧ s.shape = shape ∧ s.count = count ∧ s.configured = max depth 1 := by
  refine h.invariant (I := fun s =>
    s.Accounted ∧ s.shape = shape ∧ s.count = count ∧ s.configured = max depth 1) ?_ ?_
  · rintro s rfl
    exact ⟨.new shape count depth, rfl, rfl, rfl⟩
  · rintro s a t - ⟨haccounted, rfl, rfl, hconfigured⟩ hok hs
    have hturn := Runner.turn_of_step hok hs
    obtain ⟨hshape, hcount, hdepth⟩ := hturn.config
    exact ⟨haccounted.turn hturn, hshape, hcount, hdepth.trans hconfigured⟩

theorem exact_of_reachable (h : (runner shape count depth).ReachableBy Unrefused s) : s.Exact := by
  refine h.invariant ?_ ?_
  · rintro s rfl
    exact .new shape count depth
  · intro s a t hr hexact hok hs
    have hturn := Runner.turn_of_step hok.1 hs
    rw [hok.2] at hturn
    exact hexact.turn (accounted_of_reachable (hr.mono fun _ _ h => h.1)).1 hturn

end Runs

/-- A run of successful operations issues each once and in order, delivers each
once, and samples once for each, within its depth and its closed form. It returns
in bounded time, and with a pool that never refuses the closed form is met. -/
theorem measured_eq_predicted (shape : Shape) (count depth : Nat) :
    (∀ s, (runner shape count depth).ReachableBy Successful s →
      s.pending.length ≤ max depth 1 ∧ s.issues = List.range s.issued ∧
      (s.pending ++ s.deliveries).Perm s.issues ∧ s.samples = s.deliveries.length ∧
      s.weighted ≤ predictedWeighted shape count (max depth 1) ∧
      ∀ result, s.pc = .returned result →
        result = .ok () ∧ s.issues = List.range count ∧ s.deliveries.Perm (List.range count) ∧
        s.samples = count) ∧
    (∀ s, (runner shape count depth).ReachableBy Unrefused s → ∀ result, s.pc = .returned result →
      s.peak = min count (max depth 1) ∧
      s.weighted = predictedWeighted shape count (max depth 1)) ∧
    (∀ as s, (runner shape count depth).run (.new shape count depth) as = some s →
      as.length ≤ 6 * count + 3 ∧
      ((∀ result, s.pc ≠ .returned result) →
        ∃ a t, Unrefused s a ∧ (runner shape count depth).step s a = some t)) ∧
    (predictedWeighted .rolling count (max depth 1) = predictedWeighted .batched count (max depth 1) ↔
      count ≤ max depth 1 ∨ max depth 1 = 1) := by
  refine ⟨fun s h => ?_, fun s h result hreturned => ?_, fun as s hrun => ⟨?_, ?_⟩, ?_⟩
  · obtain ⟨haccounted, rfl, rfl, hconfigured⟩ := accounted_of_reachable h
    rw [← hconfigured]
    refine ⟨haccounted.room, haccounted.issues, haccounted.split, haccounted.samples, ?_, ?_⟩
    · exact (Nat.le_add_right ..).trans haccounted.bound
    · intro result hreturned
      obtain ⟨hok, hpending, hissued⟩ := haccounted.returned result hreturned
      have hissues := haccounted.issues
      rw [hissued] at hissues
      have hsplit := haccounted.split
      rw [hpending, List.nil_append, hissues] at hsplit
      refine ⟨hok, hissues, hsplit, ?_⟩
      rw [haccounted.samples, hsplit.length_eq, List.length_range]
  · obtain ⟨haccounted, rfl, rfl, hconfigured⟩ := accounted_of_reachable (h.mono fun _ _ hok => hok.1)
    have hexact := exact_of_reachable h
    obtain ⟨-, hpending, hissued⟩ := haccounted.returned result hreturned
    have hbalance := haccounted.balance
    rw [hpending, List.length_nil, Nat.add_zero, hissued] at hbalance
    rw [← hconfigured]
    refine ⟨?_, ?_⟩
    · rcases Nat.eq_zero_or_pos s.samples with hzero | hpositive
      · rw [(hexact.first hzero).1, ← hbalance, hzero, Nat.zero_min]
      · exact hexact.peak hpositive
    · have hweighted := hexact.weighted
      have howed : s.owed = 0 := by
        unfold Runner.owed
        rw [hreturned, hbalance, hissued, hpending, Nat.sub_self]
        cases s.shape with
        | rolling => rfl
        | batched => exact (Nat.zero_add _).trans (batchSum_of_lt haccounted.positive)
      rw [howed] at hweighted
      exact hweighted
  · have hlength := (runner shape count depth).run_length_le (fun _ _ _ => Runner.left_step) hrun
    have hleft : (Runner.new shape count depth).left = 6 * count + 3 := by
      show 3 * (2 * (count - 0) + 0) + 3 = _
      omega
    omega
  · exact Runner.exists_unrefused
  · have hmax : max (max depth 1) 1 = max depth 1 := by omega
    rw [predictedWeighted_eq_iff, hmax]

/-- Neither `make` nor an operation fails. -/
def smooth (_ : Runner) : RunnerAction → Bool
  | .make (.error _) | .finish _ (.error _) => false
  | _ => true

theorem unrefused_of_smooth (s : Runner) (a : RunnerAction) (h : smooth s a = true) : Unrefused s a := by
  match a with
  | .advance => exact ⟨trivial, rfl⟩
  | .make (.ok _) => exact ⟨trivial, rfl⟩
  | .finish _ (.ok _) => exact ⟨trivial, rfl⟩

def batchedThree : List RunnerAction :=
  [.advance, .make (.ok ()), .make (.ok ()), .advance, .finish 1 (.ok 0), .advance, .finish 0 (.ok 0),
    .advance, .make (.ok ()), .advance, .finish 0 (.ok 0), .advance, .advance, .advance]

theorem measured_batchedThree : ∃ s, ((runner .batched 3 2).guarded smooth).run (.new .batched 3 2)
      batchedThree = some s ∧ s.deliveries = [1, 0, 2] ∧
    s.samples = 3 ∧ s.peak = 2 ∧ s.weighted = 4 := by
  have hends : ∃ s, ((runner .batched 3 2).guarded smooth).run (.new .batched 3 2) batchedThree = some s ∧
      s.deliveries = [1, 0, 2] ∧ s.pc = .returned (.ok ()) := ⟨_, rfl, rfl, rfl⟩
  obtain ⟨s, hsteps, hdeliveries, hpc⟩ := hends
  have hreach : ((runner .batched 3 2).guarded smooth).Reachable (.new .batched 3 2) := .init rfl
  have hrun := (hreach.run hsteps).of_guarded unrefused_of_smooth
  have hmeasured := measured_eq_predicted .batched 3 2
  obtain ⟨-, -, -, -, -, hreturned⟩ := hmeasured.1 s (hrun.mono fun _ _ h => h.1)
  obtain ⟨-, -, -, hsamples⟩ := hreturned _ hpc
  obtain ⟨hpeak, hweighted⟩ := hmeasured.2.1 s hrun _ hpc
  exact ⟨s, hsteps, hdeliveries, hsamples, hpeak, hweighted⟩

end WinIoring.Bench
