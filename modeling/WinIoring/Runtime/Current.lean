import WinIoring.Runtime.Custody

/-!
# The registration handles are to

A handle to a registered buffer is to the driver's current registration for as
long as it exists, and no other can take its place. The platform has that
registration in force when it runs an entry that names one of its buffers.
-/

namespace WinIoring

variable {ws : WordSize}

def DataRef.index : DataRef → Option Nat
  | .raw _ => none
  | .registered index _ => some index

/-- The registered buffer index an entry names. -/
def SqeOp.bufferIndex : SqeOp ws → Option Nat
  | .read _ data .. | .write _ data .. => data.index
  | _ => none

namespace Runtime

open Slab

variable {s s' : Sys ws} {w w' : World ws}

-- ---------------------------------------------------------------------------
-- Marks
-- ---------------------------------------------------------------------------

theorem RegistryInner.unmarked_of_anyCheckedOut {r : RegistryInner} (h : r.anyCheckedOut = none)
    (index : Nat) : r.mark index ≠ some true := by
  intro hmark
  obtain ⟨slot, hslot, hout⟩ := Option.map_eq_some_iff.mp hmark
  have hall := List.findIdx?_eq_none_iff.mp h slot (List.mem_of_getElem? hslot)
  exact absurd (hout.symm.trans hall) nofun

/-- Whatever is checked out belongs to the current registration, and no other is
on its way. -/
def MarksCurrent (s : Sys ws) : Prop :=
  s.world.inner.ring.closed = false → ∀ n, s.world.Marked n →
    s.world.inner.bufferRegistration = some n.1 ∧ s.world.inner.registrationInFlight = false

theorem MarksCurrent.of_fewer (h : MarksCurrent s)
    (hclosed : s'.world.inner.ring.closed = s.world.inner.ring.closed)
    (hmarked : ∀ n, s'.world.Marked n → s.world.Marked n)
    (hcurrent : s'.world.inner.bufferRegistration = s.world.inner.bufferRegistration)
    (hflight : s'.world.inner.registrationInFlight = s.world.inner.registrationInFlight) :
    MarksCurrent s' := by
  intro hc n hn
  rw [hcurrent, hflight]
  exact h (hclosed ▸ hc) n (hmarked n hn)

/-- A request for a registration is unfinished only while one is in flight. -/
theorem Accounts.inFlight_of_payload (h : Accounts s) {k : Key}
    (hp : s.world.inner.slab.payloadAt k = some p) (hregisters : p.registersBuffers = true) :
    s.world.inner.registrationInFlight = true := by
  have hpos : 0 < s.payloads.countP OpPayload.registersBuffers :=
    List.countP_pos_iff.mpr ⟨p, OpSlab.mem_payloads.mpr ⟨k, hp⟩, hregisters⟩
  rw [h.inFlight] at hpos
  cases hflight : s.world.inner.registrationInFlight with
  | true => rfl
  | false =>
    rw [hflight] at hpos
    exact absurd hpos (Nat.lt_irrefl 0)

theorem World.marked_resolveCompletion (w : World ws) (p : OpPayload) (cqe : Cqe ws) (n : BufName)
    (h : (w.resolveCompletion p cqe).1.Marked n) : w.Marked n := by
  have hfilled := (World.marked_fill _ p _ _ n).mp h
  exact (w.marked_settleRegistration p _ n).mp ((World.marked_raiseTransfer _ p _ _ n).mp hfilled.1)

theorem kept_marksCurrent (ok : Sys ws → Action ws → Prop) : KeptGiven ok Orderly MarksCurrent where
  initial s hs := by
    intro _ n hn
    have := hn.1
    rw [hs.nextRegistry] at this
    exact absurd this (Nat.not_lt_zero _)
  move s s' hb hj h hm := by
    have hplain : ∀ {s' : Sys ws}, s'.world.inner.ring.closed = s.world.inner.ring.closed →
        (∀ n, s'.world.Marked n ↔ s.world.Marked n) →
        s'.world.inner.bufferRegistration = s.world.inner.bufferRegistration →
        s'.world.inner.registrationInFlight = s.world.inner.registrationInFlight → MarksCurrent s' :=
      fun hclosed hmarked => h.of_fewer hclosed fun n => (hmarked n).mp
    cases hm with
    | quiet hq =>
      refine hplain (by rw [hq.world.inner.ring]) (World.marked_congr hq.world.nextRegistry fun r => ?_)
        hq.world.inner.bufferRegistration hq.world.inner.registrationInFlight
      funext i
      have hslots : (s'.world.registries r).slots = (s.world.registries r).slots :=
        congrArg (fun marks => marks.2.2.1) (hq.world.marks r)
      rw [RegistryInner.mark, hslots, RegistryInner.mark]
    | executed hring => exact hplain (IoRing.execute_some hring).closed (fun _ => .rfl) rfl rfl
    | reported hring => exact hplain (IoRing.report_some hring).closed (fun _ => .rfl) rfl rfl
    | submitted _ _ hsub => exact hplain hsub.closed (fun _ => .rfl) rfl rfl
    | waited _ _ _ hsub => exact hplain hsub.closed (fun _ => .rfl) rfl rfl
    | @resolved cqe rest _ op _ hring hkind hcell =>
      have hopen := hb.open_of_completions hring
      have hfewer := fun n => World.marked_resolveCompletion (s.world.setInner { s.world.inner with
        slab := (s.world.inner.slab.complete cqe.token).1
        ring := { s.world.inner.ring with completions := rest } }) op.payload cqe n
      cases hregisters : op.payload.registersBuffers with
      | false =>
        have hsame := World.unregistering_resolve (s.world.setInner { s.world.inner with
          slab := (s.world.inner.slab.complete cqe.token).1
          ring := { s.world.inner.ring with completions := rest } }) cqe hregisters
        refine h.of_fewer ?_ hfewer hsame.2 hsame.1
        rw [Sys.withWorld, World.ring_resolveCompletion]
        rfl
      | true =>
        -- The request was in flight, so nothing is checked out.
        intro _ n hn
        have hidle := (h hopen n (hfewer n hn)).2
        have hflight := hj.1.2.inFlight_of_payload (OpSlab.payloadAt_of_cell hcell) hregisters
        exact absurd (hidle.symm.trans hflight) (by rintro ⟨⟩)
    | released _ hclosed =>
      intro hc
      rw [Sys.withWorld, World.release_inner, hclosed] at hc
      cases hc
    | @delivered future completed _ _ σ =>
      refine h.of_fewer ?_ (fun n hn => ?_) ?_ ?_
      · simp
      · rw [Sys.receive_world] at hn
        exact (s.world.marked_deliver σ future completed n).mp hn
      all_goals simp
    | forgotten =>
      refine h.of_fewer ?_ (fun n hn => ?_) ?_ ?_
      · simp
      · exact ((World.marked_dropOptional ..).mp hn).1
      all_goals simp
    | @checkedOut r _ _ _ _ _ _ _ hidle hcurrent =>
      intro hopen n hn
      refine ⟨?_, hidle⟩
      by_cases hr : n.1 = r
      · rw [hr]
        exact hcurrent
      · have hold : s.world.Marked n := by
          refine ⟨hn.1, ?_⟩
          have := hn.2
          rwa [World.setRegistry_registries, Function.update_of_ne hr] at this
        exact (h hopen n hold).1
    | @filled _ hd len =>
      refine hplain rfl (fun n => ?_) rfl rfl
      exact (World.marked_congr (w := s.world.setRegistry hd.registry
        ((s.world.registries hd.registry).setInitialized hd.index len)) rfl (fun _ => rfl) n).trans
          (World.marked_setInitialized ..)
    | handleDropped =>
      refine h.of_fewer ?_ (fun n hn => ((World.marked_dropHandle ..).mp hn).1) ?_ ?_
      all_goals simp
    | _ => exact hplain rfl (fun _ => .rfl) rfl rfl
  accepted s s' t p e f _ _ hb hj h _ _ ha := by
    have hmarked : ∀ n, s'.world.Marked n ↔ s.world.Marked n :=
      World.marked_congr ha.nextRegistry fun r => by rw [ha.registries]
    intro _ n hn
    have hold := h ha.isOpen n ((hmarked n).mp hn)
    rw [ha.bufferRegistration, ha.registrationInFlight, hold.2]
    refine ⟨hold.1, ?_⟩
    -- A request is taken only with nothing checked out of the current registration.
    cases hregisters : p.registersBuffers with
    | false => rfl
    | true =>
      obtain ⟨pending, hpending, hbuffers⟩ := (Option.any_eq_true _ _).mp hregisters
      cases pending with
      | files files => cases hbuffers
      | buffers =>
        have hnone := (ha.admitted.replacing _ _ _ _ _ hpending).2
        rw [hold.1, Option.bind_some] at hnone
        exact absurd ((hmarked n).mp hn).2 (RegistryInner.unmarked_of_anyCheckedOut hnone n.2)
  setCursor s file position _ _ h _ := h.of_fewer rfl (fun _ => id) rfl rfl

-- ---------------------------------------------------------------------------
-- What the platform has in force
-- ---------------------------------------------------------------------------

/-- The buffers a payload would register. -/
def OpPayload.newBuffers (p : OpPayload) : Option (List BufferInfo) :=
  match p.pendingRegistration with
  | some (.buffers _ _ _ _ descriptors) => some descriptors
  | _ => none

/-- The buffers the driver takes to be in force. -/
def World.registeredBuffers (w : World ws) : List BufferInfo :=
  (w.inner.bufferRegistration.map fun r => (w.registries r).descriptors).getD []

/-- What an open ring has in force, and what the driver takes it to have. -/
structure BuffersInForce (slab : OpSlab ws OpPayload) (ring : IoRing ws) (inFlight : Bool)
    (known : List BufferInfo) : Prop where
  settled : inFlight = false → ring.buffersInForce = known
  waiting : ∀ e ∈ ring.unrun, e.op.newBuffers ≠ none → ring.buffersInForce = known
  ran : ∀ e outcome, (e, outcome) ∈ ring.executed → ∀ buffers, e.op.newBuffers = some buffers →
    ring.buffersInForce = if outcome.resultCode.failed then known else buffers
  reported : ∀ cqe ∈ ring.completions, cqe.token.kind = .operation → ∀ p buffers,
    slab.payloadAt cqe.token.key = some p → p.newBuffers = some buffers →
    ring.buffersInForce = if cqe.outcome.resultCode.failed then known else buffers

theorem OpPayload.registersBuffers_of_newBuffers {p : OpPayload} (h : p.newBuffers = some buffers) :
    p.registersBuffers = true := by
  unfold OpPayload.newBuffers at h
  split at h
  · rename_i hpending
    rw [OpPayload.registersBuffers, hpending]
    rfl
  · cases h

theorem OpPayload.newBuffers_eq_none {p : OpPayload} (h : p.registersBuffers = false) :
    p.newBuffers = none :=
  Option.eq_none_iff_forall_ne_some.mpr fun _ hnew =>
    absurd (h.symm.trans (registersBuffers_of_newBuffers hnew)) nofun

/-- A payload that registers something is for that alone. -/
def OpPayload.Alone (p : OpPayload) : Prop :=
  p.pendingRegistration.isSome → p.buffer = none ∧ p.file = none ∧ p.registeredFile = none

theorem kept_alone (ok : Sys ws → Action ws → Prop) :
    Kept ok fun s => ∀ k p, s.world.inner.slab.payloadAt k = some p → p.Alone :=
  kept_payloads (fun _ _ h hpending => by
    obtain ⟨pending, hpending⟩ := Option.isSome_iff_exists.mp hpending
    obtain ⟨hbuffer, hfile, -, hindex, -⟩ := h.registration pending hpending
    exact ⟨hbuffer, hfile, hindex⟩) ok

namespace Backs

variable {p : OpPayload} {op : SqeOp ws}

theorem newBuffers (h : Backs p op) (hop : op.newBuffers = some buffers) :
    p.newBuffers = some buffers := by
  cases op with
  | registerBuffers descriptors =>
    obtain rfl := Option.some.inj hop
    obtain ⟨_, _, _, _, hpending⟩ := h
    rw [OpPayload.newBuffers, hpending]
  | _ => cases hop

/-- A payload that registers buffers backs no other entry. -/
theorem registersBuffers (h : Backs p op) (hp : p.newBuffers = some buffers) (halone : p.Alone) :
    op.newBuffers = some buffers := by
  have hpending : p.pendingRegistration.isSome := by
    have hregisters := OpPayload.registersBuffers_of_newBuffers hp
    cases hnone : p.pendingRegistration with
    | none =>
      rw [OpPayload.registersBuffers, hnone] at hregisters
      cases hregisters
    | some pending => rfl
  obtain ⟨-, hfile, hindex⟩ := halone hpending
  cases op with
  | read handle data len offset => exact (h.1.ne.elim (· hfile) (· hindex)).elim
  | write handle data len offset => exact (h.1.ne.elim (· hfile) (· hindex)).elim
  | flush handle => exact (BacksHandle.ne h |>.elim (· hfile) (· hindex)).elim
  | cancel handle u => exact h.elim
  | registerBuffers descriptors =>
    obtain ⟨_, _, _, _, hregisters⟩ := h
    rw [OpPayload.newBuffers, hregisters] at hp
    exact hp
  | registerFiles files =>
    have hregisters : p.pendingRegistration = some (.files files) := h
    rw [OpPayload.newBuffers, hregisters] at hp
    cases hp

/-- An entry that names a registered buffer has a handle to it. -/
theorem handle (h : Backs p op) (hop : op.bufferIndex = some index) :
    ∃ hd, p.buffer = some (.handle hd) ∧ hd.index = index := by
  cases op with
  | read handle data len offset | write handle data len offset =>
    cases data with
    | raw address => cases hop
    | registered i start =>
      obtain rfl := Option.some.inj hop
      obtain ⟨hd, hbuffer, hindex, -⟩ := h.2
      exact ⟨hd, hbuffer, hindex⟩
  | _ => cases hop

end Backs

/-- A registration of buffers in the platform's hands is in the slab. -/
theorem Ledger.registeringBuffers {slab : OpSlab ws OpPayload} {ring : IoRing ws} {owed : Bool}
    (h : Ledger slab ring owed) (he : e ∈ ring.entries) (hop : e.op.newBuffers = some buffers) :
    e.token.kind = .operation ∧
      ∃ p, slab.payloadAt e.token.key = some p ∧ p.newBuffers = some buffers := by
  obtain ⟨hkind, p, hp, hbacks⟩ := h.backing he fun handle u hcancel => by
    rw [hcancel] at hop
    cases hop
  exact ⟨hkind, p, hp, hbacks.newBuffers hop⟩

/-- At most one payload registers buffers. -/
theorem Accounts.sole (h : Accounts s) {t u : Token ws} (ht : t.kind = .operation)
    (hu : u.kind = .operation) (hp : s.world.inner.slab.payloadAt t.key = some p)
    (hregisters : p.registersBuffers = true) (hq : s.world.inner.slab.payloadAt u.key = some q)
    (hregisters' : q.registersBuffers = true) : t = u := by
  refine Decidable.byContradiction fun hne => ?_
  have hkey : u.key ≠ t.key := fun hkey => hne (Token.ext_key (ht.trans hu.symm) hkey.symm)
  let rest := (s.world.inner.slab.complete t).1
  obtain ⟨op, hcell, rfl⟩ := OpSlab.payloadAt_eq_some.mp hp
  have hrest : rest.payloadAt = Function.update s.world.inner.slab.payloadAt t.key none :=
    OpSlab.payloadAt_complete ht hcell
  have hperm := OpSlab.payloads_remove ht hp hrest
  have hmem : q ∈ rest.payloads :=
    OpSlab.mem_payloads.mpr ⟨u.key, by rw [hrest, Function.update_of_ne hkey, hq]⟩
  have hpos : 0 < rest.payloads.countP OpPayload.registersBuffers :=
    List.countP_pos_iff.mpr ⟨q, hmem, hregisters'⟩
  have hcount := h.inFlight
  rw [Sys.payloads, hperm.countP_eq, List.countP_cons_of_pos hregisters] at hcount
  have hle : s.world.inner.registrationInFlight.toNat ≤ 1 := Bool.toNat_le _
  omega

namespace BuffersInForce

variable {slab slab' : OpSlab ws OpPayload} {ring ring' : IoRing ws} {known : List BufferInfo}
  {inFlight pending : Bool}

theorem new : BuffersInForce (.new : OpSlab ws OpPayload) .create false [] where
  settled _ := rfl
  waiting := by simp [IoRing.unrun, IoRing.create]
  ran := by simp [IoRing.create]
  reported := by simp [IoRing.create]

/-- Code that leaves the set and the platform's progress alone, and adds no
payload with a completion to come. -/
theorem of_same (h : BuffersInForce slab ring inFlight known)
    (hunrun : ∀ e ∈ ring'.unrun, e.op.newBuffers ≠ none → e ∈ ring.unrun)
    (hexecuted : ring'.executed = ring.executed)
    (hcompletions : ∀ cqe ∈ ring'.completions, cqe ∈ ring.completions ∧
      (cqe.token.kind = .operation →
        slab'.payloadAt cqe.token.key = slab.payloadAt cqe.token.key))
    (hforce : ring'.buffersInForce = ring.buffersInForce) :
    BuffersInForce slab' ring' inFlight known where
  settled hidle := hforce.trans (h.settled hidle)
  waiting e he hop := hforce.trans (h.waiting e (hunrun e he hop) hop)
  ran := by
    rw [hexecuted, hforce]
    exact h.ran
  reported cqe hcqe hkind p buffers hp hnew := by
    obtain ⟨hmem, hpayload⟩ := hcompletions cqe hcqe
    exact hforce.trans (h.reported cqe hmem hkind p buffers (hpayload hkind ▸ hp) hnew)

/-- The platform runs an entry. -/
theorem execute (h : BuffersInForce slab ring inFlight known) (hl : Ledger slab ring pending)
    (hran : IoRing.Executed ring ring' e outcome)
    (hsole : ∀ {t u : Token ws} {p q : OpPayload}, t.kind = .operation → u.kind = .operation →
      slab.payloadAt t.key = some p → p.newBuffers ≠ none → slab.payloadAt u.key = some q →
        q.newBuffers ≠ none → t = u)
    (hflight : ∀ k p, slab.payloadAt k = some p → p.newBuffers ≠ none → inFlight = true) :
    BuffersInForce slab ring' inFlight known := by
  obtain ⟨hunrun, hexecuted, hcompletions⟩ := hran.fresh hl.nodup
  have hin : e ∈ ring.unrun := List.mem_append_right _ hran.mem
  -- What another registration expects to find is there still: there is no other.
  have hother : ∀ {t p}, t.kind = .operation → slab.payloadAt t.key = some p → p.newBuffers ≠ none →
      t ≠ e.token → ring'.buffersInForce = ring.buffersInForce := by
    intro t p hkind hp hnew hne
    rw [hran.buffersInForce]
    cases hop : e.op.newBuffers with
    | none => simp
    | some buffers =>
      obtain ⟨hkind', p', hp', hnew'⟩ := hl.registeringBuffers (IoRing.mem_entries_of_unrun hin) hop
      exact absurd (hsole hkind hkind' hp hnew hp' (by simp [hnew'])) hne
  refine
    { settled := fun hidle => ?_
      waiting := fun x hx hop => ?_
      ran := fun x o hx buffers hop => ?_
      reported := fun cqe hcqe hkind p buffers hp hnew => ?_ }
  · rw [hran.buffersInForce, h.settled hidle]
    cases hop : e.op.newBuffers with
    | none => simp
    | some buffers =>
      obtain ⟨-, p, hp, hnew⟩ := hl.registeringBuffers (IoRing.mem_entries_of_unrun hin) hop
      exact absurd (hidle.symm.trans (hflight _ p hp (by simp [hnew]))) nofun
  · obtain ⟨buffers, hbuffers⟩ := Option.ne_none_iff_exists'.mp hop
    have hold := hran.unrun x hx
    obtain ⟨hkind, p, hp, hnew⟩ := hl.registeringBuffers (IoRing.mem_entries_of_unrun hold) hbuffers
    rw [hother hkind hp (by simp [hnew]) (hunrun x hx)]
    exact h.waiting x hold hop
  · rw [hran.executed, List.mem_append, List.mem_singleton] at hx
    rcases hx with hx | heq
    · obtain ⟨hkind, p, hp, hnew⟩ := hl.registeringBuffers (IoRing.mem_entries_of_executed hx) hop
      rw [hother hkind hp (by simp [hnew]) (hexecuted _ hx)]
      exact h.ran x o hx buffers hop
    · obtain ⟨rfl, rfl⟩ := Prod.mk.inj heq
      rw [hran.buffersInForce, h.waiting x hin (by simp [hop]), hop]
      rfl
  · rw [hran.completions] at hcqe
    rw [hother hkind hp (by simp [hnew]) (hcompletions cqe hcqe)]
    exact h.reported cqe hcqe hkind p buffers hp hnew

/-- The platform reports an entry. -/
theorem report (h : BuffersInForce slab ring inFlight known) (hl : Ledger slab ring pending)
    (hran : IoRing.Reported ring ring' e outcome)
    (halone : ∀ k p, slab.payloadAt k = some p → p.Alone) :
    BuffersInForce slab ring' inFlight known := by
  have hforce := hran.buffersInForce
  have hunrun := hran.unrun
  refine
    { settled := fun hidle => hforce.trans (h.settled hidle)
      waiting := by
        rw [hunrun, hforce]
        exact h.waiting
      ran := fun x o hx buffers hop => ?_
      reported := fun cqe hcqe hkind p buffers hp hnew => ?_ }
  · rw [hran.executed] at hx
    exact hforce.trans (h.ran x o (List.mem_of_mem_erase hx) buffers hop)
  · rw [hran.completions, List.mem_append, List.mem_singleton] at hcqe
    rcases hcqe with hcqe | rfl
    · exact hforce.trans (h.reported cqe hcqe hkind p buffers hp hnew)
    · obtain ⟨op, hcell, hbacks⟩ := hl.backed e (IoRing.mem_entries_of_executed hran.mem) hkind
      obtain rfl := Option.some.inj ((OpSlab.payloadAt_of_cell hcell).symm.trans hp)
      have hop := hbacks.registersBuffers hnew (halone _ _ hp)
      exact hforce.trans (h.ran e outcome hran.mem buffers hop)

/-- A payload joins the slab and its entry the queue. -/
theorem accept (h : BuffersInForce slab ring inFlight known) (hkind : t.kind = .operation)
    (hslab : slab'.payloadAt = Function.update slab.payloadAt t.key (some p))
    (hfresh : ∀ cqe ∈ ring.completions, cqe.token ≠ t)
    (hidle : e.op.newBuffers ≠ none → inFlight = false) :
    BuffersInForce slab' (ring.push e) (inFlight || p.registersBuffers) known where
  settled hor := h.settled (Bool.or_eq_false_iff.mp hor).1
  waiting x hx hop := by
    have hx : x ∈ ring.unrun ∨ x = e := by
      simp only [IoRing.unrun, IoRing.push, List.mem_append, List.mem_singleton] at hx ⊢
      tauto
    rcases hx with hx | rfl
    · exact h.waiting x hx hop
    · exact h.settled (hidle hop)
  ran := h.ran
  reported cqe hcqe hk q buffers hq hnew := by
    rw [hslab, Function.update_of_ne fun hkey => hfresh cqe hcqe (Token.ext_key (hk.trans hkind.symm) hkey)]
      at hq
    exact h.reported cqe hcqe hk q buffers hq hnew

/-- With no registration left in the slab, what the last one came to is what the
driver takes to be in force. -/
theorem of_idle (hl : Ledger slab ring pending)
    (hnone : ∀ k p, slab.payloadAt k = some p → p.newBuffers = none)
    (hforce : ring.buffersInForce = known) : BuffersInForce slab ring inFlight known := by
  have hentries : ∀ e ∈ ring.entries, e.op.newBuffers = none := by
    intro e he
    refine Option.eq_none_iff_forall_ne_some.mpr fun buffers hop => ?_
    obtain ⟨-, p, hp, hnew⟩ := hl.registeringBuffers he hop
    rw [hnone _ p hp] at hnew
    cases hnew
  exact
    { settled := fun _ => hforce
      waiting := fun _ _ _ => hforce
      ran := fun e o he buffers hop => by
        rw [hentries e (IoRing.mem_entries_of_executed he)] at hop
        cases hop
      reported := fun cqe hcqe hkind p buffers hp hnew => by
        rw [hnone _ p hp] at hnew
        cases hnew }

end BuffersInForce

-- ---------------------------------------------------------------------------
-- Every run
-- ---------------------------------------------------------------------------

theorem World.Frozen.registeredBuffers (h : w.Frozen w')
    (hcurrent : w'.inner.bufferRegistration = w.inner.bufferRegistration)
    (hlt : ∀ r, w.inner.bufferRegistration = some r → r < w.nextRegistry) :
    w'.registeredBuffers = w.registeredBuffers := by
  rw [World.registeredBuffers, World.registeredBuffers, hcurrent]
  cases hr : w.inner.bufferRegistration with
  | none => rfl
  | some r => exact congrArg (fun storage => storage.2.2) (h.storage r (hlt r hr))

/-- What the driver takes to be in force once an operation has completed. -/
theorem World.registeredBuffers_resolveCompletion (w : World ws) (p : OpPayload) (cqe : Cqe ws)
    (hlt : ∀ r, w.inner.bufferRegistration = some r → r < w.nextRegistry) :
    (w.resolveCompletion p cqe).1.registeredBuffers =
      if cqe.outcome.resultCode.failed then w.registeredBuffers else
        p.newBuffers.getD w.registeredBuffers := by
  have hcurrent := congrArg DriverInner.bufferRegistration (w.resolveCompletion_inner p cqe)
  have hadopted : (w.settleRegistration p (World.completionResult cqe.outcome)).1.Frozen
      (w.resolveCompletion p cqe).1 :=
    (World.Frozen.raiseTransfer ..).trans (World.Keeps.fill RegistryInner.unmarked_storage ..).frozen
  have hfrozen := World.Frozen.resolveCompletion w p cqe
  have hfailed : ∀ {e}, World.completionResult cqe.outcome = .error e →
      cqe.outcome.resultCode.failed = true := by
    intro e he
    unfold World.completionResult at he
    split at he
    · assumption
    · cases he
  have hsucceeded : ∀ {n}, World.completionResult cqe.outcome = .ok n →
      cqe.outcome.resultCode.failed = false := by
    intro n hn
    unfold World.completionResult at hn
    split at hn
    · cases hn
    · exact Bool.eq_false_iff.mpr ‹_›
  rcases w.settleRegistration_cases p (World.completionResult cqe.outcome) with
    ⟨hpending, hsettle⟩ | ⟨pending, e, hpending, he, hsettle⟩ | ⟨files, n, hpending, hn, hsettle⟩ |
    ⟨buffers, pointers, extents, watermarks, descriptors, n, hpending, hn, hsettle⟩
  all_goals rw [hsettle] at hcurrent hadopted
  · rw [hfrozen.registeredBuffers hcurrent hlt, OpPayload.newBuffers, hpending, Option.getD_none, ite_self]
  · rw [hfrozen.registeredBuffers hcurrent hlt, hfailed he, if_pos rfl]
  · rw [hfrozen.registeredBuffers hcurrent hlt, OpPayload.newBuffers, hpending, Option.getD_none, ite_self]
  · have hstorage := hadopted.storage w.nextRegistry (Nat.lt_succ_self _)
    rw [hsucceeded hn, OpPayload.newBuffers, hpending, World.registeredBuffers, hcurrent]
    refine (congrArg (fun storage => storage.2.2) hstorage).trans ?_
    simp [World.adoptRegistration, RegistryInner.storage, RegistryInner.new]

/-- What the account of the buffers in force rests on. -/
structure Footing (s : Sys ws) : Prop where
  orderly : Orderly s
  custody : s.Custody
  marks : MarksCurrent s
  alone : ∀ k p, s.world.inner.slab.payloadAt k = some p → p.Alone

theorem kept_footing (ok : Sys ws → Action ws → Prop) : Kept ok Footing :=
  ((kept_orderly ok).and
    ((kept_custody ok).and ((kept_marksCurrent ok).and (kept_alone ok).given))).congr fun _ =>
      ⟨fun h => ⟨h.1, h.2.1, h.2.2.1, h.2.2.2⟩, fun h => ⟨h.orderly, h.custody, h.marks, h.alone⟩⟩

namespace Footing

theorem accounts (h : Footing s) : Accounts s := h.orderly.1.2

/-- A handle in custody is to the current registration. -/
theorem current (h : Footing s) (hopen : s.world.inner.ring.closed = false)
    (hn : n ∈ held s.handles s.payloads s.world) :
    s.world.inner.bufferRegistration = some n.1 ∧ s.world.inner.registrationInFlight = false :=
  h.marks hopen n ((h.custody.marked_iff n).mpr hn)

end Footing

/-- The buffers of a whole system. -/
def BuffersKnown (s : Sys ws) : Prop :=
  s.world.inner.ring.closed = false → BuffersInForce s.world.inner.slab s.world.inner.ring
    s.world.inner.registrationInFlight s.world.registeredBuffers

namespace BuffersKnown

/-- What leaves the payloads, the registrations and the platform's progress
alone. -/
theorem of_same (h : BuffersKnown s) (hfrozen : s.world.Frozen s'.world)
    (hlt : s.world.inner.ring.closed = false → ∀ r, s.world.inner.bufferRegistration = some r →
      r < s.world.nextRegistry)
    (hcurrent : s'.world.inner.bufferRegistration = s.world.inner.bufferRegistration)
    (hflight : s'.world.inner.registrationInFlight = s.world.inner.registrationInFlight)
    (hslab : s'.world.inner.slab.payloadAt = s.world.inner.slab.payloadAt)
    (hclosed : s'.world.inner.ring.closed = s.world.inner.ring.closed)
    (hunrun : ∀ e ∈ s'.world.inner.ring.unrun, e.op.newBuffers ≠ none → e ∈ s.world.inner.ring.unrun)
    (hexecuted : s'.world.inner.ring.executed = s.world.inner.ring.executed)
    (hcompletions : ∀ cqe ∈ s'.world.inner.ring.completions, cqe ∈ s.world.inner.ring.completions)
    (hforce : s'.world.inner.ring.buffersInForce = s.world.inner.ring.buffersInForce) :
    BuffersKnown s' := by
  intro hc
  rw [hclosed] at hc
  rw [hfrozen.registeredBuffers hcurrent (hlt hc), hflight]
  exact (h hc).of_same hunrun hexecuted
    (fun cqe hcqe => ⟨hcompletions cqe hcqe, fun _ => congrFun hslab _⟩) hforce

theorem move (hb : Books s) (hf : Footing s) (h : BuffersKnown s) (hm : Move b s s') :
    BuffersKnown s' := by
  have hlt : s.world.inner.ring.closed = false → ∀ r,
      s.world.inner.bufferRegistration = some r → r < s.world.nextRegistry :=
    fun hc r hr => hf.accounts.current_lt hc hr
  have hfrozen := hm.frozen
  have hb' := hb.move hm
  have haccounts := Accounts.move hb hf.orderly.1.1 hf.accounts hm
  have hsame := h.of_same hfrozen hlt
  -- Of what moves nothing the platform has in its hands.
  have hstill : s'.world.inner.ring = s.world.inner.ring →
      s'.world.inner.slab.payloadAt = s.world.inner.slab.payloadAt →
      s'.world.inner.bufferRegistration = s.world.inner.bufferRegistration →
      s'.world.inner.registrationInFlight = s.world.inner.registrationInFlight → BuffersKnown s' := by
    intro hring hslab hcurrent hflight
    refine hsame hcurrent hflight hslab ?_ ?_ ?_ ?_ ?_ <;> rw [hring]
    · exact fun _ he _ => he
    · exact fun _ hmem => hmem
  cases hm with
  | quiet hq =>
    exact hstill hq.world.inner.ring (by rw [hq.world.inner.slab]) hq.world.inner.bufferRegistration
      hq.world.inner.registrationInFlight
  | escalated | retracted | faltered | deferred | recalled => exact hstill rfl rfl rfl rfl
  | executed hring =>
    have hran := IoRing.execute_some hring
    intro hc
    have hopen : s.world.inner.ring.closed = false := hran.closed.symm.trans hc
    have hregisters : ∀ {p : OpPayload}, p.newBuffers ≠ none → p.registersBuffers = true := by
      intro p hnew
      obtain ⟨buffers, hbuffers⟩ := Option.ne_none_iff_exists'.mp hnew
      exact OpPayload.registersBuffers_of_newBuffers hbuffers
    refine (h hopen).execute (hb.ledger hopen) hran ?_ fun k p hp hnew => ?_
    · intro t u p q ht hu hp hnew hq hnew'
      exact hf.accounts.sole ht hu hp (hregisters hnew) hq (hregisters hnew')
    · exact hf.accounts.inFlight_of_payload hp (hregisters hnew)
  | reported hring =>
    have hran := IoRing.report_some hring
    intro hc
    have hopen : s.world.inner.ring.closed = false := hran.closed.symm.trans hc
    exact (h hopen).report (hb.ledger hopen) hran hf.alone
  | refused hcell => exact hstill rfl (OpSlab.payloadAt_congr hcell) rfl rfl
  | cancelled =>
    refine hsame rfl rfl (OpSlab.payloadAt_registerCancel ..) rfl (fun x hx hop => ?_) rfl
      (fun _ => id) rfl
    simp only [Sys.withInner, World.setInner_inner, IoRing.unrun, IoRing.push, List.mem_append,
      List.mem_singleton] at hx ⊢
    rcases hx with (hx | rfl) | hx
    · exact .inl hx
    · exact absurd rfl hop
    · exact .inr hx
  | submitted _ _ hsub =>
    exact hsame rfl rfl (OpSlab.payloadAt_promote _) hsub.closed (fun x hx _ => hsub.unrun x hx)
      hsub.executed (fun _ hmem => hsub.completions ▸ hmem) hsub.buffersInForce
  | waited _ _ _ hsub =>
    exact hsame rfl rfl rfl hsub.closed (fun x hx _ => hsub.unrun x hx) hsub.executed
      (fun _ hmem => hsub.completions ▸ hmem) hsub.buffersInForce
  | reapedCancel _ hring =>
    exact hsame rfl rfl (OpSlab.payloadAt_completeCancel ..) rfl (fun _ hx _ => hx) rfl
      (fun _ hmem => hring ▸ List.mem_cons_of_mem _ hmem) rfl
  | reapedStray _ hring =>
    exact hsame rfl rfl rfl rfl (fun _ hx _ => hx) rfl
      (fun _ hmem => hring ▸ List.mem_cons_of_mem _ hmem) rfl
  | @resolved cqe rest _ op _ hring hkind hcell =>
    intro hc
    have hopen := hb.open_of_completions hring
    have hl := hb'.ledger hc
    have hp := OpSlab.payloadAt_of_cell hcell
    have hslab := OpSlab.payloadAt_complete hkind hcell
    have hknown := World.registeredBuffers_resolveCompletion (s.world.setInner { s.world.inner with
      slab := (s.world.inner.slab.complete cqe.token).1
      ring := { s.world.inner.ring with completions := rest } }) op.payload cqe (hlt hopen)
    cases hregisters : op.payload.registersBuffers with
    | false =>
      have hsame := World.unregistering_resolve (s.world.setInner { s.world.inner with
        slab := (s.world.inner.slab.complete cqe.token).1
        ring := { s.world.inner.ring with completions := rest } }) cqe hregisters
      rw [OpPayload.newBuffers_eq_none hregisters, Option.getD_none, ite_self] at hknown
      simp only [Sys.withWorld, World.slab_resolveCompletion, World.ring_resolveCompletion] at hl ⊢
      rw [hknown, hsame.1]
      refine (h hopen).of_same (fun _ hx _ => hx) rfl (fun c hmem => ?_) rfl
      refine ⟨hring ▸ List.mem_cons_of_mem _ hmem, fun hk => ?_⟩
      -- No other completion is of the same operation.
      have hnodup := (List.nodup_append.mp (hb.ledger hopen).nodup).2.1
      rw [IoRing.owed, hring, List.map_cons] at hnodup
      have hne := (List.nodup_cons.mp (List.nodup_append.mp hnodup).2.1).1
      refine (congrFun hslab _).trans (Function.update_of_ne (fun hkey => hne ?_) ..)
      rw [← Token.ext_key (hk.trans hkind.symm) hkey]
      exact List.mem_map_of_mem hmem
    | true =>
      have hforce := fun buffers => (h hopen).reported cqe (hring ▸ List.mem_cons_self) hkind op.payload
        buffers hp
      have hflight : s.world.inner.registrationInFlight = true :=
        hf.accounts.inFlight_of_payload hp hregisters
      -- It was the only one, so none is left.
      have hnone : ∀ k p, (s.withWorld ((s.world.setInner { s.world.inner with
          slab := (s.world.inner.slab.complete cqe.token).1
          ring := { s.world.inner.ring with completions := rest } }).resolveCompletion op.payload
            cqe).1).world.inner.slab.payloadAt k = some p → p.newBuffers = none := by
        intro k p hk
        refine Option.eq_none_iff_forall_ne_some.mpr fun buffers hnew => ?_
        have hk' : (s.world.inner.slab.complete cqe.token).1.payloadAt k = some p := by
          simpa [Sys.withWorld] using hk
        rw [hslab, Function.update_apply] at hk'
        split at hk'
        · cases hk'
        rename_i hne
        obtain ⟨t, ht, rfl⟩ : ∃ t : Token ws, t.kind = .operation ∧ t.key = k := by
          obtain ⟨op', hop', -⟩ := OpSlab.payloadAt_eq_some.mp hk'
          exact OpSlab.exists_token hop'
        have := hf.accounts.sole ht hkind hk' (OpPayload.registersBuffers_of_newBuffers hnew) hp hregisters
        exact hne (congrArg Token.key this)
      refine .of_idle hl hnone ?_
      obtain ⟨buffers, hnew⟩ : ∃ buffers, op.payload.newBuffers = some buffers := by
        obtain ⟨pending, hpending, hbuffers⟩ := (Option.any_eq_true _ _).mp hregisters
        cases pending with
        | files files => cases hbuffers
        | buffers _ _ _ _ descriptors => exact ⟨descriptors, by rw [OpPayload.newBuffers, hpending]⟩
      simp only [Sys.withWorld, World.ring_resolveCompletion]
      refine (hforce buffers hnew).trans ?_
      rw [hknown, hnew, Option.getD_some]
      rfl
  | released _ hclosed =>
    intro hc
    rw [Sys.withWorld, World.release_inner, hclosed] at hc
    cases hc
  | detached => exact hstill rfl (OpSlab.payloadAt_detach ..) rfl rfl
  | polled | checkedOut | filled => exact hstill rfl rfl rfl rfl
  | delivered => refine hstill ?_ ?_ ?_ ?_ <;> simp
  | forgotten => refine hstill ?_ ?_ ?_ ?_ <;> simp
  | handleDropped => refine hstill ?_ ?_ ?_ ?_ <;> simp

end BuffersKnown

theorem BuffersKnown.accepted (hb : Books s) (hf : Footing s) (h : BuffersKnown s)
    (ha : Accepted s s' t p e f) : BuffersKnown s' := by
  intro _
  have hopen := ha.isOpen
  have hl := hb.ledger hopen
  have hcell : s.world.inner.slab.cell t.key = none := by
    cases hc : s.world.inner.slab.cell t.key with
    | none => rfl
    | some c => exact absurd (OpSlab.issued_of_cell hc) ha.unissued
  have hfresh : ∀ cqe ∈ s.world.inner.ring.completions, cqe.token ≠ t := by
    rintro cqe hcqe rfl
    have howed : cqe.token ∈ s.world.inner.ring.owed :=
      List.mem_append_right _ (List.mem_map.mpr ⟨cqe, hcqe, rfl⟩)
    have := (hl.owed_iff _ ha.kind).mp howed
    rw [hcell] at this
    exact this
  have hknown : s'.world.registeredBuffers = s.world.registeredBuffers :=
    (World.Frozen.of_eq ha.nextRegistry ha.registries).registeredBuffers ha.bufferRegistration
      fun r hr => hf.accounts.current_lt hopen hr
  rw [ha.ring, ha.registrationInFlight, hknown]
  refine (h hopen).accept ha.kind ha.payloadAt hfresh fun hnew => ?_
  obtain ⟨buffers, hop⟩ := Option.ne_none_iff_exists'.mp hnew
  have hregisters := OpPayload.registersBuffers_of_newBuffers (ha.backs.newBuffers hop)
  obtain ⟨pending, hpending, hbuffers⟩ := (Option.any_eq_true _ _).mp hregisters
  cases pending with
  | files files => cases hbuffers
  | buffers => exact (ha.admitted.replacing _ _ _ _ _ hpending).1

theorem kept_buffersKnown (ok : Sys ws → Action ws → Prop) : KeptGiven ok Footing BuffersKnown where
  initial s hs := by
    intro _
    have hknown : s.world.registeredBuffers = [] := by
      rw [World.registeredBuffers, hs.inner]
      rfl
    rw [hknown, hs.inner]
    exact .new
  move s s' hb hf h hm := h.move hb hf hm
  accepted s s' t p e f _ _ hb hf h _ _ ha := h.accepted hb hf ha
  setCursor s file position _ hf h _ :=
    h.of_same (.of_eq rfl rfl) (fun hc _ hr => hf.accounts.current_lt hc hr) rfl rfl rfl rfl
      (fun _ he _ => he) rfl (fun _ => id) rfl

/-- An entry names a registered buffer its operation has a handle to, and these
are the buffers of the handle's registration. -/
def World.Lent (w : World ws) (e : Sqe ws) (index : Nat) (buffers : List BufferInfo) : Prop :=
  ∃ p checked h, .accepted e.token p checked ∈ w.trace ∧ p.buffer = some (.handle h) ∧
    h.index = index ∧ h.registry < w.nextRegistry ∧ (w.registries h.registry).descriptors = buffers

theorem World.Lent.mono (h : w.Lent e index buffers) (hfrozen : w.Frozen w')
    (htrace : ∀ x ∈ w.trace, x ∈ w'.trace) : w'.Lent e index buffers := by
  obtain ⟨p, checked, hd, hacc, hbuffer, hi, hlt, hdescriptors⟩ := h
  refine ⟨p, checked, hd, htrace _ hacc, hbuffer, hi, hlt.trans_le hfrozen.nextRegistry, ?_⟩
  rw [← hdescriptors]
  exact congrArg (fun storage => storage.2.2) (hfrozen.storage _ hlt)

/-- Every entry that ran and named a registered buffer found in force the
registration its operation's handle is to. -/
def RanCurrent (s : Sys ws) : Prop :=
  ∀ e outcome files buffers index, .executed e outcome files buffers ∈ s.world.trace →
    e.op.bufferIndex = some index → s.world.Lent e index buffers

/-- An entry about to run finds in force the registration its handle is to. -/
theorem Footing.current_in_force (hb : Books s) (hf : Footing s) (h : BuffersKnown s)
    (hopen : s.world.inner.ring.closed = false) (he : e ∈ s.world.inner.ring.inflight)
    (hindex : e.op.bufferIndex = some index) :
    s.world.Lent e index s.world.inner.ring.buffersInForce := by
  have hentry : e ∈ s.world.inner.ring.entries :=
    IoRing.mem_entries_of_unrun (List.mem_append_right _ he)
  obtain ⟨hkind, p, hp, hbacks⟩ := (hb.ledger hopen).backing hentry fun handle u hcancel => by
    rw [hcancel] at hindex
    cases hindex
  obtain ⟨op, hcell, rfl⟩ := OpSlab.payloadAt_eq_some.mp hp
  obtain ⟨checked, hacc⟩ := hf.orderly.1.1.accepted hkind hcell
  obtain ⟨hd, hbuffer, hi⟩ := hbacks.handle hindex
  have hname : op.payload.name? = some hd.name := by
    rw [OpPayload.name?, OpPayload.handle, hbuffer]
    rfl
  have hheld : hd.name ∈ held s.handles s.payloads s.world := by
    refine List.mem_append_right _ (List.mem_append_left _ ?_)
    exact List.mem_filterMap.mpr ⟨op.payload, OpSlab.mem_payloads.mpr ⟨_, hp⟩, hname⟩
  obtain ⟨hcurrent, hidle⟩ := hf.current hopen hheld
  refine ⟨op.payload, checked, hd, hacc, hbuffer, hi, hf.accounts.current_lt hopen hcurrent, ?_⟩
  rw [(h hopen).settled hidle, World.registeredBuffers, hcurrent]
  rfl

theorem kept_ranCurrent (ok : Sys ws → Action ws → Prop) :
    KeptGiven ok (fun s => Footing s ∧ BuffersKnown s) RanCurrent where
  initial s hs := by
    intro e outcome files buffers index hrun
    rw [World.trace, hs.log] at hrun
    cases hrun
  move s s' hb hj h hm := by
    intro e outcome files buffers index hrun hindex
    rcases hm.mem_of_trace hrun with hrun | ⟨⟨ring, hring⟩, -, rfl⟩
    · exact (h e outcome files buffers index hrun hindex).mono hm.frozen hm.suffix.subset
    · have hmem := (IoRing.execute_some hring).mem
      have hopen : s.world.inner.ring.closed = false := by
        cases hc : s.world.inner.ring.closed with
        | false => rfl
        | true =>
          rw [(hb.completions_of_closed hc).1] at hmem
          cases hmem
      exact (hj.1.current_in_force hb hj.2 hopen hmem hindex).mono hm.frozen hm.suffix.subset
  accepted s s' t p e f _ _ hb _ h _ _ ha := by
    intro x outcome files buffers index hx hindex
    have hold : .executed x outcome files buffers ∈ s.world.trace := by simpa [ha.trace] using hx
    refine (h x outcome files buffers index hold hindex).mono (.of_eq ha.nextRegistry ha.registries) ?_
    rw [ha.trace]
    exact fun _ hev => List.mem_append_right _ (List.mem_cons_of_mem _ hev)
  setCursor s file position _ _ h _ := by
    intro x outcome files buffers index hx hindex
    rcases List.mem_cons.mp hx with heq | hx
    · cases heq
    · exact (h x outcome files buffers index hx hindex).mono (.of_eq rfl rfl)
        fun _ => List.mem_cons_of_mem _

/-- Every entry that ran and named a registered buffer found in force the
registration that the handle its operation was given is to. -/
def BuffersFaithful (s : Sys ws) : Prop :=
  ∀ e outcome files buffers index, .executed e outcome files buffers ∈ s.world.log →
    e.op.bufferIndex = some index →
    (∃ p checked, .accepted e.token p checked ∈ s.world.log) ∧
    ∀ p checked, .accepted e.token p checked ∈ s.world.log → ∃ h,
      p.buffer = some (.handle h) ∧ h.index = index ∧
        (s.world.registries h.registry).descriptors = buffers

/-- In every reachable state in which the driver is not torn down, whatever
handle there is, with the application, in a payload or in a result slot, is to
the current registration, and no registration of buffers is in flight; and in
every reachable state each entry that named a registered buffer was run against
the registration its operation's handle is to. -/
theorem handles_current (hr : (systemMachine ws).Reachable s) :
    (s.world.inner.tornDown = false → ∀ n ∈ held s.handles s.payloads s.world,
      s.world.inner.bufferRegistration = some n.1 ∧ s.world.inner.registrationInFlight = false) ∧
    BuffersFaithful s := by
  have hb := books_of_reachable hr
  obtain ⟨⟨hf, -⟩, hran⟩ :=
    (((kept_footing _).and (kept_buffersKnown _)).and (kept_ranCurrent _)).reachable hr
  refine ⟨fun htorn n hn => hf.current (hb.tornDown ▸ htorn) hn, ?_⟩
  intro e outcome files buffers index hrun hindex
  obtain ⟨p, checked, h, hacc, hbuffer, hi, -, hdescriptors⟩ :=
    hran e outcome files buffers index (List.mem_filter.mpr ⟨hrun, rfl⟩) hindex
  refine ⟨⟨p, checked, World.mem_log hacc⟩, fun q checked' hacc' => ?_⟩
  obtain ⟨rfl, -⟩ := hf.orderly.1.1.2.unique _ _ _ _ _ hacc (List.mem_filter.mpr ⟨hacc', rfl⟩)
  exact ⟨h, hbuffer, hi, hdescriptors⟩

/-- A registered read carries the handle and has run: no other registration could
start meanwhile. -/
theorem handles_current_lent : ∃ s : Sys .w64, s.handles = [] ∧
    (0, 0) ∈ held s.handles s.payloads s.world ∧ s.world.inner.bufferRegistration = some 0 ∧
    ∃ e outcome files, .executed e outcome files [⟨4096, 512⟩] ∈ s.world.log ∧
      e.op.bufferIndex = some 0 ∧ BuffersFaithful s := by
  obtain ⟨s, hrun, htorn, hhandles, hmarked, hlog⟩ : ∃ s, (systemMachine .w64).run .new
      (registeredRead ++ [.advance .willing, .advance .willing,
        .execute registeredReadEntry registeredOk]) = some s ∧
      s.world.inner.tornDown = false ∧ s.handles = [] ∧
      (0 < s.world.nextRegistry ∧ (s.world.registries 0).mark 0 = some true) ∧
      s.world.log.head? = some (.executed registeredReadEntry registeredOk [10] [⟨4096, 512⟩]) :=
    ⟨_, rfl, rfl, rfl, by decide, rfl⟩
  have hr := reachable_of_run hrun
  have hheld := ((custody_of_reachable hr).marked_iff (0, 0)).mp hmarked
  obtain ⟨hcurrent, hfaithful⟩ := handles_current hr
  exact ⟨s, hhandles, hheld, (hcurrent htorn _ hheld).1, _, _, _, List.mem_of_mem_head? hlog, rfl,
    hfaithful⟩

end Runtime

end WinIoring
