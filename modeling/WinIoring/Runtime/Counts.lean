import WinIoring.Runtime.Custody

/-!
# Counts of initialized bytes

A registration counts how many leading bytes of each buffer are initialized, and
every handle carries a copy of the count. What raises, sets and keeps the two,
and what the log shows to have been written.
-/

namespace WinIoring.Runtime

open Slab WinIoring.Machine

variable {ws : WordSize} {s s' : Sys ws} {w w' : World ws}

-- ---------------------------------------------------------------------------
-- Bounds
-- ---------------------------------------------------------------------------

/-- Each buffer's extent, and how much of it is initialized. -/
def RegistryInner.bounds (r : RegistryInner) : List (Nat × Nat) :=
  r.slots.map fun slot => (slot.extent, slot.initialized)

def World.bounds (w : World ws) (n : BufName) : Option (Nat × Nat) := (w.registries n.1).bounds[n.2]?

/-- The registration's bounds for a handle's buffer are the handle's own. -/
def World.Agrees (w : World ws) (h : RegisteredBuf) : Prop :=
  h.registry < w.nextRegistry ∧ w.bounds h.name = some (h.extent, h.initialized)

namespace RegistryInner

theorem extent_eq (r : RegistryInner) (index : Nat) :
    r.extent index = r.bounds[index]?.map Prod.fst := by
  rw [extent, bounds, List.getElem?_map, Option.map_map]
  rfl

theorem initialized_eq (r : RegistryInner) (index : Nat) :
    r.initialized index = r.bounds[index]?.map Prod.snd := by
  rw [initialized, bounds, List.getElem?_map, Option.map_map]
  rfl

/-- What a change to one slot does to the bounds. -/
theorem bounds_modifySlot (r : RegistryInner) (index : Nat) {f : RegistrySlot → RegistrySlot}
    {g : Nat × Nat → Nat × Nat}
    (hf : ∀ slot, ((f slot).extent, (f slot).initialized) = g (slot.extent, slot.initialized)) (i : Nat) :
    (r.modifySlot index f).bounds[i]? = if index = i then r.bounds[i]?.map g else r.bounds[i]? := by
  rw [bounds, modifySlot, bounds, List.getElem?_map, List.getElem?_modify, List.getElem?_map]
  cases r.slots[i]? with
  | none => split <;> rfl
  | some slot =>
    split
    · exact congrArg some (hf slot)
    · rfl

theorem unmarked_bounds : Unmarked bounds where
  strong _ _ := rfl
  mark r index b := by
    refine List.ext_getElem? fun i => ?_
    have hsame := r.bounds_modifySlot index (f := fun slot => { slot with checkedOut := b }) (g := id)
      (fun _ => rfl) i
    rwa [Option.map_id_apply, ite_self] at hsame

theorem claim_bounds {r registry : RegistryInner} {self : RegId} {index : Nat} {h : RegisteredBuf}
    (hclaim : r.claim self index = .ok (registry, h)) : registry.bounds = r.bounds ∧
      h.registry = self ∧ r.bounds[h.index]? = some (h.extent, h.initialized) := by
  unfold claim at hclaim
  split at hclaim
  · cases hclaim
  rename_i slot hslot
  split at hclaim
  · cases hclaim
  obtain ⟨rfl, rfl⟩ := Prod.mk.inj (Except.ok.inj hclaim)
  refine ⟨(unmarked_bounds.strong ..).trans (unmarked_bounds.mark ..), rfl, ?_⟩
  rw [bounds, List.getElem?_map, hslot]
  rfl

theorem bounds_setInitialized (r : RegistryInner) (index len i : Nat) :
    (r.setInitialized index len).bounds[i]? =
      if index = i then r.bounds[i]?.map fun b => (b.1, min len b.1) else r.bounds[i]? :=
  r.bounds_modifySlot index (fun _ => rfl) i

/-- How far a completed transfer raises a count. -/
def raised (start transferred : Nat) (b : Nat × Nat) : Nat × Nat :=
  (b.1, if start > b.2 then b.2 else max b.2 (min (start + transferred) b.1))

theorem bounds_raiseInitialized (r : RegistryInner) (index start transferred i : Nat) :
    (r.raiseInitialized index start transferred).bounds[i]? =
      if index = i then r.bounds[i]?.map (raised start transferred) else r.bounds[i]? := by
  refine r.bounds_modifySlot index (fun slot => ?_) i
  unfold raised
  split
  · rfl
  · rfl

theorem bounds_new (buffers : List Buf) (pointers extents watermarks : List Nat)
    (descriptors : List BufferInfo) (i : Nat) (b : Nat × Nat)
    (h : (new buffers pointers extents watermarks descriptors).bounds[i]? = some b) :
    ∃ watermark, watermarks[i]? = some watermark ∧ b.2 = min watermark b.1 := by
  rw [bounds, new, List.getElem?_map, List.getElem?_zipWith] at h
  cases hw : watermarks[i]? with
  | none => cases he : extents[i]? <;> simp [hw, he] at h
  | some watermark =>
    cases he : extents[i]? with
    | none => simp [hw, he] at h
    | some extent =>
      simp only [hw, he, Option.map_some, Option.some.injEq] at h
      exact ⟨watermark, rfl, h ▸ rfl⟩

end RegistryInner

namespace World

theorem bounds_setRegistry (w : World ws) (r : RegId) (registry : RegistryInner) (n : BufName) :
    (w.setRegistry r registry).bounds n = if r = n.1 then registry.bounds[n.2]? else w.bounds n := by
  rw [bounds, setRegistry_registries, Function.update_apply]
  by_cases hr : r = n.1
  · rw [if_pos hr, if_pos hr.symm]
  · rw [if_neg hr, if_neg (Ne.symm hr), bounds]

/-- A change to the bounds of one buffer. -/
theorem bounds_setRegistry_of {r : RegId} {index : Nat} {registry : RegistryInner}
    {g : Nat × Nat → Nat × Nat} (hg : ∀ i, registry.bounds[i]? =
      if index = i then (w.registries r).bounds[i]?.map g else (w.registries r).bounds[i]?) (n : BufName) :
    (w.setRegistry r registry).bounds n = if n = (r, index) then (w.bounds n).map g else w.bounds n := by
  obtain ⟨r', i⟩ := n
  rw [bounds_setRegistry, hg, bounds]
  by_cases hr : r = r'
  · subst hr
    by_cases hi : index = i
    · subst hi
      simp
    · have hi' : i ≠ index := Ne.symm hi
      simp [hi, hi']
  · have hr' : r' ≠ r := Ne.symm hr
    simp [hr, hr']

theorem Keeps.bounds (h : Keeps RegistryInner.bounds w w') {n : BufName} (hn : n.1 < w.nextRegistry) :
    w'.bounds n = w.bounds n :=
  congrArg (·[n.2]?) (h.view n.1 hn)

theorem Keeps.agrees (h : Keeps RegistryInner.bounds w w') {hd : RegisteredBuf} (ha : w.Agrees hd) :
    w'.Agrees hd :=
  ⟨ha.1.trans_le h.nextRegistry, (h.bounds ha.1).trans ha.2⟩

end World

-- ---------------------------------------------------------------------------
-- What the platform has run
-- ---------------------------------------------------------------------------

/-- Every completion is of an entry the driver built and the log shows was run. -/
structure Ran (ring : IoRing ws) (trace : List (Event ws)) : Prop where
  entries : ∀ e ∈ ring.entries, e ∈ ring.history
  executed : ∀ e outcome, (e, outcome) ∈ ring.executed →
    ∃ files buffers, .executed e outcome files buffers ∈ trace
  completed : ∀ cqe ∈ ring.completions, ∃ e ∈ ring.history, e.userData = cqe.userData ∧
    ∃ files buffers, .executed e cqe.outcome files buffers ∈ trace

namespace Ran

variable {ring ring' : IoRing ws} {trace trace' : List (Event ws)}

theorem mono (h : Ran ring trace) (htrace : ∀ x ∈ trace, x ∈ trace')
    (hhistory : ∀ e ∈ ring.history, e ∈ ring'.history)
    (hentries : ∀ e ∈ ring'.entries, e ∈ ring.entries ∨ e ∈ ring'.history)
    (hexecuted : ∀ x ∈ ring'.executed, x ∈ ring.executed)
    (hcompletions : ∀ cqe ∈ ring'.completions, cqe ∈ ring.completions) : Ran ring' trace' where
  entries e he := (hentries e he).elim (fun he => hhistory e (h.entries e he)) id
  executed e outcome he := by
    obtain ⟨files, buffers, hran⟩ := h.executed e outcome (hexecuted _ he)
    exact ⟨files, buffers, htrace _ hran⟩
  completed cqe hcqe := by
    obtain ⟨e, he, huser, files, buffers, hran⟩ := h.completed cqe (hcompletions _ hcqe)
    exact ⟨e, hhistory e he, huser, files, buffers, htrace _ hran⟩

theorem grow (h : Ran ring trace) (htrace : ∀ x ∈ trace, x ∈ trace') : Ran ring trace' :=
  h.mono htrace (fun _ he => he) (fun _ he => .inl he) (fun _ he => he) fun _ he => he

theorem push (h : Ran ring trace) (e : Sqe ws) : Ran (ring.push e) trace := by
  refine h.mono (fun _ he => he) (fun _ => List.mem_cons_of_mem _) (fun x hx => ?_) (fun _ he => he)
    fun _ he => he
  rcases Ledger.mem_entries_push.mp hx with hx | rfl
  · exact .inl hx
  · exact .inr List.mem_cons_self

theorem submit (h : Ran ring trace) (hsub : IoRing.Submitted ring ring' taken) : Ran ring' trace :=
  h.mono (fun _ he => he) (fun _ he => hsub.history ▸ he)
    (fun _ he => .inl (hsub.entries_perm.mem_iff.mp he)) (fun _ he => hsub.executed ▸ he)
    fun _ he => hsub.completions ▸ he

theorem pop (h : Ran ring trace) (hring : ring.completions = cqe :: rest) :
    Ran { ring with completions := rest } trace :=
  h.mono (fun _ he => he) (fun _ he => he) (fun _ he => .inl he) (fun _ he => he)
    fun _ he => hring ▸ List.mem_cons_of_mem _ he

theorem execute (h : Ran ring trace) (hrun : ring.execute e outcome = some ring')
    (htrace : ∀ x ∈ trace, x ∈ trace') (hlogged : .executed e outcome files buffers ∈ trace') :
    Ran ring' trace' := by
  have hran := IoRing.execute_some hrun
  refine ⟨fun x hx => ?_, fun x o hx => ?_, fun cqe hcqe => ?_⟩
  · rw [hran.history]
    exact h.entries x ((IoRing.execute_books hrun).entries x hx)
  · rw [hran.executed] at hx
    rcases List.mem_append.mp hx with hx | hx
    · obtain ⟨files', buffers', hold⟩ := h.executed x o hx
      exact ⟨files', buffers', htrace _ hold⟩
    · obtain ⟨rfl, rfl⟩ := Prod.mk.inj (List.mem_singleton.mp hx)
      exact ⟨files, buffers, hlogged⟩
  · rw [hran.completions] at hcqe
    rw [hran.history]
    exact (h.grow htrace).completed cqe hcqe

theorem report (h : Ran ring trace) (hrun : ring.report e outcome = some ring') : Ran ring' trace := by
  have hran := IoRing.report_some hrun
  refine ⟨fun x hx => ?_, fun x o hx => ?_, fun cqe hcqe => ?_⟩
  · rw [hran.history]
    exact h.entries x ((IoRing.report_books hrun).entries x hx)
  · rw [hran.executed] at hx
    exact h.executed x o (List.mem_of_mem_erase hx)
  · rw [hran.completions] at hcqe
    rw [hran.history]
    rcases List.mem_append.mp hcqe with hcqe | hcqe
    · exact h.completed cqe hcqe
    · obtain rfl := List.mem_singleton.mp hcqe
      exact ⟨e, h.entries e (IoRing.mem_entries_of_executed hran.mem), rfl, h.executed e outcome hran.mem⟩

end Ran

def Sys.Ran (s : Sys ws) : Prop := Runtime.Ran s.world.inner.ring s.world.trace

theorem kept_ran (ok : Sys ws → Action ws → Prop) : Kept ok Sys.Ran where
  initial s hs := by
    rw [Sys.Ran, hs.inner]
    constructor <;> simp [DriverInner.new, IoRing.create, IoRing.entries]
  move s s' _ h hm := by
    have hgrow : Runtime.Ran s.world.inner.ring s'.world.trace := h.grow fun _ he => hm.suffix.subset he
    unfold Sys.Ran
    cases hm with
    | quiet hq => exact hq.world.inner.ring ▸ hgrow
    | executed hring => exact h.execute hring (fun _ => List.mem_cons_of_mem _) List.mem_cons_self
    | reported hring => exact hgrow.report hring
    | cancelled => exact hgrow.push _
    | submitted _ _ hsub => exact hgrow.submit hsub
    | waited _ _ _ hsub => exact hgrow.submit hsub
    | reapedCancel _ hring => exact hgrow.pop hring
    | reapedStray _ hring => exact hgrow.pop hring
    | resolved _ hring =>
      rw [Sys.withWorld, World.ring_resolveCompletion]
      exact hgrow.pop hring
    | released _ hclosed =>
      subst hclosed
      rw [Sys.withWorld, World.release_inner]
      exact hgrow.mono (fun _ he => he) (fun _ he => he) (fun _ he => .inl he) (fun _ he => he)
        fun _ he => he
    | delivered =>
      rw [Sys.receive_world, World.inner_deliver] at *
      exact hgrow
    | forgotten =>
      rw [World.inner_dropFutureRef]
      exact hgrow
    | handleDropped =>
      rw [World.inner_dropHandle]
      exact hgrow
    | _ => exact hgrow
  accepted s s' t p e f _ _ _ h _ _ ha := by
    rw [Sys.Ran, ha.ring]
    refine (h.grow fun x hx => ?_).push e
    rw [ha.trace]
    exact List.mem_append_right _ (List.mem_cons_of_mem _ hx)
  setCursor s file position _ h _ := h.grow fun _ => List.mem_cons_of_mem _

-- ---------------------------------------------------------------------------
-- Bytes that have been written
-- ---------------------------------------------------------------------------

/-- Byte `j` of a registered buffer was initialized when the application gave
the buffer, or copied in later, or is one an accepted read of the buffer
reported. -/
inductive World.Written (w : World ws) (n : BufName) (j : Nat) : Prop
  | given (hn : n.1 < w.nextRegistry) (hb : (w.registries n.1).buffers[n.2]? = some b)
      (hj : j < b.len)
  | copied (h : .copied n.1 n.2 len ∈ w.trace) (hj : j < len)
  | read (haccepted : .accepted t p checked ∈ w.trace) (hhandle : p.handle = some h)
      (hname : h.name = n) (hexecuted : .executed e outcome fs bs ∈ w.trace)
      (huser : e.userData = t.asUserData) (hop : e.op = .read handle data len offset)
      (hok : outcome.resultCode.failed = false) (hstart : p.start ≤ j)
      (hend : j < p.start + outcome.information)

def World.WrittenTo (w : World ws) (n : BufName) (k : Nat) : Prop := ∀ j < k, w.Written n j

/-- Whether a transfer that succeeded moved no more than it was asked to. -/
def Event.bounded : Event ws → Bool
  | .executed ⟨.read _ _ len _, _⟩ outcome .. | .executed ⟨.write _ _ len _, _⟩ outcome .. =>
    outcome.resultCode.failed || outcome.information ≤ len
  | _ => true

/-- No transfer reports more than it was asked for. -/
def World.TransfersBounded (w : World ws) : Prop := ∀ x ∈ w.trace, x.bounded = true

/-- The entry of an operation on a registered buffer is a transfer, and one that
writes from it stays within what has been written. -/
def World.Sourced (w : World ws) (n : BufName) (start : Nat) : SqeOp ws → Prop
  | .read .. => True
  | .write _ _ len _ => w.WrittenTo n (start + len)
  | _ => False

namespace World

theorem Written.mono {n : BufName} {j : Nat} (h : w.Written n j) (htrace : ∀ x ∈ w.trace, x ∈ w'.trace)
    (hfrozen : w.Frozen w') : w'.Written n j := by
  cases h with
  | given hn hb hj =>
    have hbuffers : (w'.registries n.1).buffers = (w.registries n.1).buffers :=
      congrArg Prod.fst (hfrozen.storage n.1 hn)
    exact .given (hn.trans_le hfrozen.nextRegistry) (hbuffers ▸ hb) hj
  | copied h hj => exact .copied (htrace _ h) hj
  | read haccepted hhandle hname hexecuted huser hop hok hstart hend =>
    exact .read (htrace _ haccepted) hhandle hname (htrace _ hexecuted) huser hop hok hstart hend

theorem WrittenTo.mono {n : BufName} {k : Nat} (h : w.WrittenTo n k)
    (htrace : ∀ x ∈ w.trace, x ∈ w'.trace) (hfrozen : w.Frozen w') : w'.WrittenTo n k :=
  fun j hj => (h j hj).mono htrace hfrozen

theorem Sourced.mono {n : BufName} {start : Nat} {op : SqeOp ws} (h : w.Sourced n start op)
    (htrace : ∀ x ∈ w.trace, x ∈ w'.trace) (hfrozen : w.Frozen w') : w'.Sourced n start op := by
  cases op with
  | read => trivial
  | write => exact WrittenTo.mono h htrace hfrozen
  | _ => exact h.elim

theorem TransfersBounded.of_grown (h : w'.TransfersBounded) (htrace : ∀ x ∈ w.trace, x ∈ w'.trace) :
    w.TransfersBounded :=
  fun x hx => h x (htrace x hx)

/-- Once an operation on a registered buffer has reported, the bytes it says it
moved have been written. -/
theorem Sourced.written (h : w.Sourced hd.name p.start e.op) (hbounded : w.TransfersBounded)
    (haccepted : .accepted t p checked ∈ w.trace) (hhandle : p.handle = some hd)
    (hexecuted : .executed e outcome fs bs ∈ w.trace) (huser : e.userData = t.asUserData)
    (hok : outcome.resultCode.failed = false) {j : Nat} (hstart : p.start ≤ j)
    (hend : j < p.start + outcome.information) : w.Written hd.name j := by
  have hlen := hbounded _ hexecuted
  obtain ⟨op, userData⟩ := e
  cases op with
  | read => exact .read haccepted hhandle rfl hexecuted huser rfl hok hstart hend
  | write handle data len offset =>
    rw [Event.bounded, hok, Bool.false_or, decide_eq_true_eq] at hlen
    exact h j (hend.trans_le (Nat.add_le_add_left hlen _))
  | _ => exact h.elim

end World

-- ---------------------------------------------------------------------------
-- Counts
-- ---------------------------------------------------------------------------

/-- Every count of a registration that has been adopted is within its extent,
and over bytes of which `P` holds. -/
def World.Counted (w : World ws) (P : BufName → Nat → Prop) : Prop :=
  ∀ n b, n.1 < w.nextRegistry → w.bounds n = some b → b.2 ≤ b.1 ∧ ∀ j < b.2, P n j

namespace World.Counted

variable {P P' : BufName → Nat → Prop}

theorem imp (h : w.Counted P) (himp : ∀ n j, P n j → P' n j) : w.Counted P' := fun n b hn hb =>
  ⟨(h n b hn hb).1, fun j hj => himp n j ((h n b hn hb).2 j hj)⟩

theorem keeps (h : w.Counted P) (hk : Keeps RegistryInner.bounds w w')
    (hnext : w'.nextRegistry = w.nextRegistry) : w'.Counted P := fun n b hn hb =>
  have hn' := hnext ▸ hn
  h n b hn' ((hk.bounds hn').symm.trans hb)

/-- One count moves. -/
theorem change (h : w.Counted P) {m : BufName} {g : Nat × Nat → Nat × Nat}
    (hnext : w'.nextRegistry = w.nextRegistry)
    (hbounds : ∀ n, w'.bounds n = if n = m then (w.bounds n).map g else w.bounds n)
    (hg : ∀ b, b.2 ≤ b.1 → (∀ j < b.2, P m j) → (g b).2 ≤ (g b).1 ∧ ∀ j < (g b).2, P m j) :
    w'.Counted P := by
  intro n b hn hb
  rw [hbounds] at hb
  split at hb
  · rename_i hm
    subst hm
    obtain ⟨b, hold, rfl⟩ := Option.map_eq_some_iff.mp hb
    obtain ⟨hle, hwritten⟩ := h n b (hnext ▸ hn) hold
    exact hg b hle hwritten
  · exact h n b (hnext ▸ hn) hb

/-- A transfer raises a count over bytes it has moved and bytes that were
counted before. -/
theorem raised_le {m : BufName} {start transferred : Nat} (b : Nat × Nat) (hle : b.2 ≤ b.1)
    (hold : ∀ j < b.2, P m j) (hmoved : ∀ j, start ≤ j → j < start + transferred → P m j) :
    (RegistryInner.raised start transferred b).2 ≤ (RegistryInner.raised start transferred b).1 ∧
      ∀ j < (RegistryInner.raised start transferred b).2, P m j := by
  unfold RegistryInner.raised
  split
  · exact ⟨hle, hold⟩
  rename_i hreached
  refine ⟨by omega, fun j hj => ?_⟩
  by_cases hj' : j < b.2
  · exact hold j hj'
  · refine hmoved j ?_ ?_
    · omega
    · omega

/-- A registration starts with the bytes its buffers came with. -/
theorem settleRegistration (h : w.Counted P) {p : OpPayload} (result : Except Error Transferred)
    (hwatermarks : ∀ buffers pointers extents watermarks descriptors,
      p.pendingRegistration = some (.buffers buffers pointers extents watermarks descriptors) →
      watermarks = buffers.map fun b => min b.len b.registeredExtent)
    (hgiven : ∀ (n : BufName) b j, n.1 < (w.settleRegistration p result).1.nextRegistry →
      ((w.settleRegistration p result).1.registries n.1).buffers[n.2]? = some b → j < b.len → P n j) :
    (w.settleRegistration p result).1.Counted P := by
  have hkeeps := Keeps.settleRegistration RegistryInner.bounds w p result
  rcases w.settleRegistration_cases p result with
    ⟨-, hs⟩ | ⟨_, _, -, -, hs⟩ | ⟨_, _, -, -, hs⟩ |
      ⟨buffers, pointers, extents, watermarks, descriptors, _, hpending, -, hs⟩
  all_goals rw [hs] at hkeeps hgiven ⊢
  · exact h
  · exact h.keeps hkeeps rfl
  · exact h.keeps hkeeps rfl
  intro n b hn hb
  by_cases hold : n.1 < w.nextRegistry
  · exact h n b hold ((hkeeps.bounds hold).symm.trans hb)
  obtain ⟨r, i⟩ := n
  obtain rfl : r = w.nextRegistry := Nat.le_antisymm (Nat.le_of_lt_succ hn) (Nat.le_of_not_lt hold)
  have hnew : (RegistryInner.new buffers pointers extents watermarks descriptors).bounds[i]? = some b := by
    rw [← hb, adoptRegistration, bounds]
    simp [RegistryInner.bounds]
  obtain ⟨watermark, hwatermark, hcount⟩ := RegistryInner.bounds_new _ _ _ _ _ _ _ hnew
  rw [hwatermarks _ _ _ _ _ hpending, List.getElem?_map] at hwatermark
  obtain ⟨given, hbuffer, rfl⟩ := Option.map_eq_some_iff.mp hwatermark
  refine ⟨hcount ▸ Nat.min_le_right .., fun j hj => hgiven (w.nextRegistry, i) given j hn ?_ ?_⟩
  · simpa [adoptRegistration, RegistryInner.new] using hbuffer
  · omega

end World.Counted

-- ---------------------------------------------------------------------------
-- Copies
-- ---------------------------------------------------------------------------

def ResultSlot.handle? (slot : ResultSlot) : Option RegisteredBuf :=
  (slot.completed.bind (·.2)).bind Boxed.handle?

/-- A handle, wherever it is. -/
inductive HandleIn (handles : List RegisteredBuf) (ps : List OpPayload) (w : World ws)
    (h : RegisteredBuf) : Prop
  | application (hmem : h ∈ handles)
  | payload (hp : p ∈ ps) (hh : p.handle = some h)
  | result (hσ : σ < w.nextSlot) (hh : (w.results σ).handle? = some h)

/-- Every handle's copy of its buffer's bounds is the registration's. -/
def Cached (handles : List RegisteredBuf) (ps : List OpPayload) (w : World ws) : Prop :=
  ∀ h, HandleIn handles ps w h → w.Agrees h

section Cached

variable {handles handles' : List RegisteredBuf} {ps ps' : List OpPayload} {h : RegisteredBuf}

theorem HandleIn.name_mem (hin : HandleIn handles ps w h) : h.name ∈ held handles ps w := by
  rw [held, List.mem_append, List.mem_append]
  cases hin with
  | application hmem => exact .inl (List.mem_map_of_mem hmem)
  | payload hp hh =>
    refine .inr (.inl (List.mem_filterMap.mpr ⟨_, hp, ?_⟩))
    rw [OpPayload.name?, hh]
    rfl
  | result hσ hh =>
    refine .inr (.inr (List.mem_filterMap.mpr ⟨_, List.mem_range.mpr hσ, ?_⟩))
    rw [ResultSlot.name?, Boxed.name?, ← ResultSlot.handle?, hh]
    rfl

theorem HandleIn.mono (hin : HandleIn handles' ps' w' h) (hhandles : ∀ x ∈ handles', x ∈ handles)
    (hps : ∀ p ∈ ps', p ∈ ps) (hnext : w'.nextSlot = w.nextSlot)
    (hresults : ∀ σ x, (w'.results σ).handle? = some x → (w.results σ).handle? = some x) :
    HandleIn handles ps w h := by
  cases hin with
  | application hmem => exact .application (hhandles h hmem)
  | payload hp hh => exact .payload (hps _ hp) hh
  | result hσ hh => exact .result (hnext ▸ hσ) (hresults _ h hh)

/-- What fills a slot is the one handle that can be new. -/
theorem HandleIn.fill {p : OpPayload} {completed : CompletedOp} {cause : Cause ws}
    (hin : HandleIn handles ps (w.fill p completed cause).1 h) :
    HandleIn handles ps w h ∨ completed.2.bind Boxed.handle? = some h := by
  cases hin with
  | application hmem => exact .inl (.application hmem)
  | payload hp hh => exact .inl (.payload hp hh)
  | @result σ hσ hh =>
    rw [World.nextSlot_fill] at hσ
    rw [World.results_fill, Function.update_apply] at hh
    split at hh
    · rename_i hσp
      split at hh
      · exact .inr hh
      · cases hh
    · exact .inl (.result hσ hh)

theorem Cached.fill {p : OpPayload} {completed : CompletedOp} (hc : Cached handles ps w)
    (hcompleted : ∀ h, completed.2.bind Boxed.handle? = some h → w.Agrees h) (cause : Cause ws) :
    Cached handles ps (w.fill p completed cause).1 := by
  intro h hin
  refine (World.Keeps.fill RegistryInner.unmarked_bounds w p completed cause).agrees ?_
  exact hin.fill.elim (hc h) (hcompleted h)

theorem Cached.keeps (hc : Cached handles ps w) (hk : World.Keeps RegistryInner.bounds w w')
    (hin : ∀ h, HandleIn handles' ps' w' h → HandleIn handles ps w h) : Cached handles' ps' w' :=
  fun h hh => hk.agrees (hc h (hin h hh))

/-- A count may move under a handle that nobody holds any longer. -/
theorem Cached.change (hc : Cached handles ps w) {m : BufName} (hm : m ∉ held handles ps w)
    (hnext : w'.nextRegistry = w.nextRegistry) (hbounds : ∀ n, n ≠ m → w'.bounds n = w.bounds n)
    (hin : ∀ h, HandleIn handles ps w' h → HandleIn handles ps w h) : Cached handles ps w' := by
  intro h hh
  obtain ⟨hlt, hagrees⟩ := hc h (hin h hh)
  have hne : h.name ≠ m := fun he => hm (he ▸ (hin h hh).name_mem)
  exact ⟨hnext ▸ hlt, (hbounds _ hne).trans hagrees⟩

end Cached

-- ---------------------------------------------------------------------------
-- A completion
-- ---------------------------------------------------------------------------

/-- What placing a payload settles of the buffer it names and of the counts it
would register. -/
structure OpPayload.Fitted (p : OpPayload) : Prop where
  index : ∀ i offset, p.registeredBuffer = some (i, offset) → ∃ h, p.handle = some h ∧ h.index = i
  watermarks : ∀ buffers pointers extents watermarks descriptors,
    p.pendingRegistration = some (.buffers buffers pointers extents watermarks descriptors) →
    watermarks = buffers.map fun b => min b.len b.registeredExtent

theorem kept_fitted (ok : Sys ws → Action ws → Prop) :
    Kept ok fun s => ∀ k p, s.world.inner.slab.payloadAt k = some p → p.Fitted := by
  refine kept_payloads (fun w p ha => ⟨fun i offset hbuffer => ?_, ha.watermarks⟩) ok
  obtain ⟨h, hbuffer, hindex, -⟩ := ha.registeredBuffer i offset hbuffer
  exact ⟨h, by rw [OpPayload.handle, hbuffer]; rfl, hindex⟩

theorem completionResult_ok {outcome : Outcome} {n : Nat}
    (h : World.completionResult outcome = .ok n) :
    outcome.resultCode.failed = false ∧ n ≤ outcome.information := by
  unfold World.completionResult at h
  split at h
  · cases h
  · rename_i hok
    obtain rfl := Except.ok.inj h
    exact ⟨Bool.eq_false_of_not_eq_true hok, Nat.mod_le ..⟩

namespace World

/-- What a transfer does to the bounds of the buffer it was given. -/
theorem bounds_raiseTransfer (w : World ws) {p : OpPayload} (hp : p.Fitted)
    (result : Except Error Transferred) {boxed : Option Boxed}
    (hboxed : boxed.bind Boxed.handle? = p.handle) :
    w.raiseTransfer p result boxed = w ∨
      ∃ h n, p.handle = some h ∧ result = .ok n ∧
        (w.raiseTransfer p result boxed).nextRegistry = w.nextRegistry ∧
        ∀ m, (w.raiseTransfer p result boxed).bounds m =
          if m = h.name then (w.bounds m).map (RegistryInner.raised p.start n) else w.bounds m := by
  unfold raiseTransfer
  split
  · rename_i index offset n h hbuffer
    obtain ⟨h', hh', hindex⟩ := hp.index index offset hbuffer
    obtain rfl : h = h' := Option.some.inj (hboxed.trans hh')
    have hstart : p.start = offset := by
      rw [OpPayload.start, hbuffer]
      rfl
    refine .inr ⟨h, n, hh', rfl, rfl, fun m => ?_⟩
    rw [hstart, RegisteredBuf.name, hindex]
    exact bounds_setRegistry_of (RegistryInner.bounds_raiseInitialized _ index offset n) m
  · exact .inl rfl

theorem handle_refresh (w : World ws) (boxed : Option Boxed) :
    (w.refresh boxed).bind Boxed.handle? = (boxed.bind Boxed.handle?).map w.refreshHandle := by
  match boxed with
  | some (.buffer (.handle h)) => rfl
  | none | some (.buffer (.owned _)) | some (.collection _) | some (.pending _) => rfl

/-- A refreshed handle agrees with its registration. -/
theorem agrees_refreshHandle {h : RegisteredBuf} {count : Nat} (hlt : h.registry < w.nextRegistry)
    (hbounds : w.bounds h.name = some (h.extent, count)) : w.Agrees (w.refreshHandle h) := by
  have hcount : (w.registries h.registry).initialized h.index = some count := by
    rw [RegistryInner.initialized_eq]
    exact congrArg (Option.map Prod.snd) hbounds
  refine ⟨hlt, ?_⟩
  rw [refreshHandle, hcount]
  exact hbounds

end World

theorem World.name_settled (w : World ws) {p : OpPayload} (hp : p.Plain) (cqe : Cqe ws) :
    Boxed.name? (w.settled p cqe).2 = p.name? :=
  (World.name_refresh ..).trans (w.name_settleRegistration hp _)

section Completion

variable {handles : List RegisteredBuf} {ps : List OpPayload} {p : OpPayload}

/-- The handle a completion hands back carries the count the transfer raised. -/
theorem Cached.resolveCompletion (hc : Cached handles (p :: ps) w)
    (hcustody : Custody handles (p :: ps) w) (hplain : p.Plain) (hp : p.Fitted) (cqe : Cqe ws) :
    Cached handles ps (w.resolveCompletion p cqe).1 := by
  let result := World.completionResult cqe.outcome
  let settled := (w.settleRegistration p result).1
  let boxed := (w.settleRegistration p result).2
  let raised := settled.raiseTransfer p result boxed
  have hboxed : boxed.bind Boxed.handle? = p.handle := w.handle_settleRegistration hplain result
  have hnext : settled.nextSlot = w.nextSlot := w.nextSlot_settleRegistration p result
  have hresults : settled.results = w.results := World.results_settleRegistration p result
  have hsettled : Cached handles (p :: ps) settled := fun h hin =>
    (World.Keeps.settleRegistration _ w p result).agrees
      (hc h (hin.mono (fun _ => id) (fun _ => id) hnext fun σ x hx => hresults ▸ hx))
  have hpayload : ∀ h, p.handle = some h → settled.Agrees h := fun h hh =>
    hsettled h (.payload List.mem_cons_self hh)
  have hrest : Cached handles ps settled := fun h hin =>
    hsettled h (hin.mono (fun _ => id) (fun _ => List.mem_cons_of_mem _) rfl fun _ _ => id)
  -- Nobody else holds the handle whose count moves.
  have hfree : ∀ h, p.handle = some h → h.name ∉ held handles ps settled := by
    intro h hh hmem
    have hnodup : (held handles (p :: ps) settled).Nodup := by
      rw [held, World.resultNames, hnext, hresults]
      exact hcustody.nodup
    have hname : p.name? = some h.name := by
      rw [OpPayload.name?, hh]
      rfl
    rw [Custody.held_cons.nodup_iff, hname] at hnodup
    exact (List.nodup_cons.mp hnodup).1 hmem
  have hraised : Cached handles ps raised ∧ ∀ h, p.handle = some h →
      h.registry < raised.nextRegistry ∧ ∃ count, raised.bounds h.name = some (h.extent, count) := by
    rcases settled.bounds_raiseTransfer hp result hboxed with
      heq | ⟨h, n, hh, -, hnextRegistry, hbounds⟩
    · have hraised : raised = settled := heq
      rw [hraised]
      exact ⟨hrest, fun h hh => ⟨(hpayload h hh).1, _, (hpayload h hh).2⟩⟩
    · refine ⟨hrest.change (hfree h hh) hnextRegistry (fun m hm => ?_) fun x hx => ?_, fun h' hh' => ?_⟩
      · rw [hbounds, if_neg hm]
      · refine hx.mono (fun _ => id) (fun _ => id) (World.nextSlot_raiseTransfer ..) fun σ y hy => ?_
        rw [World.results_raiseTransfer] at hy
        exact hy
      · obtain rfl := Option.some.inj (hh.symm.trans hh')
        obtain ⟨hlt, hagrees⟩ := hpayload h hh
        refine ⟨hnextRegistry ▸ hlt, (RegistryInner.raised p.start n (h.extent, h.initialized)).2,
          (hbounds h.name).trans ?_⟩
        rw [if_pos rfl, hagrees]
        rfl
  have hrefreshed : (raised.refresh boxed).bind Boxed.handle? = p.handle.map raised.refreshHandle := by
    rw [World.handle_refresh, hboxed]
  refine hraised.1.fill (fun h hh => ?_) (.completion cqe)
  obtain ⟨h', hh', rfl⟩ := Option.map_eq_some_iff.mp (hrefreshed.symm.trans hh)
  obtain ⟨hlt, count, hbounds⟩ := hraised.2 h' hh'
  exact World.agrees_refreshHandle hlt hbounds

theorem World.Counted.resolveCompletion {P : BufName → Nat → Prop} (h : w.Counted P) (hplain : p.Plain)
    (hp : p.Fitted) (cqe : Cqe ws)
    (hgiven : ∀ (n : BufName) b j, n.1 < (w.resolveCompletion p cqe).1.nextRegistry →
      ((w.resolveCompletion p cqe).1.registries n.1).buffers[n.2]? = some b → j < b.len → P n j)
    (hmoved : ∀ hd n, p.handle = some hd → World.completionResult cqe.outcome = .ok n →
      ∀ j, p.start ≤ j → j < p.start + n → P hd.name j) :
    (w.resolveCompletion p cqe).1.Counted P := by
  let result := World.completionResult cqe.outcome
  let settled := (w.settleRegistration p result).1
  let boxed := (w.settleRegistration p result).2
  have hfrozen : settled.Frozen (w.resolveCompletion p cqe).1 :=
    (World.Frozen.raiseTransfer ..).trans (World.Keeps.fill RegistryInner.unmarked_storage ..).frozen
  have hsettled : settled.Counted P := by
    refine h.settleRegistration result hp.watermarks fun n b j hn hb hj => ?_
    have hbuffers : ((w.resolveCompletion p cqe).1.registries n.1).buffers =
        (settled.registries n.1).buffers := congrArg Prod.fst (hfrozen.storage n.1 hn)
    exact hgiven n b j (hn.trans_le hfrozen.nextRegistry) (hbuffers ▸ hb) hj
  have hraised : (settled.raiseTransfer p result boxed).Counted P := by
    rcases settled.bounds_raiseTransfer hp result (w.handle_settleRegistration hplain result) with
      heq | ⟨hd, n, hhd, hn, hnext, hbounds⟩
    · rwa [heq]
    · exact hsettled.change hnext hbounds fun b hle hold =>
        World.Counted.raised_le b hle hold (hmoved hd n hhd hn)
  exact hraised.keeps (World.Keeps.fill RegistryInner.unmarked_bounds ..) (World.nextRegistry_fill ..)

end Completion

end WinIoring.Runtime
