import WinIoring.Machine.Lease
import WinIoring.Runtime.Registration

/-!
# The custody of handles

Where a handle to a registered buffer can be: with the application, in the
payload of an operation, or in a result slot. The registries' marks tell which
handles there are, and there is one of each.
-/

namespace WinIoring.Runtime

open Slab WinIoring.Machine

variable {ws : WordSize} {s s' : Sys ws} {w w' : World ws}

-- ---------------------------------------------------------------------------
-- Names
-- ---------------------------------------------------------------------------

/-- The registered buffer a handle is to. -/
abbrev BufName := RegId × Nat

def RegisteredBuf.name (h : RegisteredBuf) : BufName := (h.registry, h.index)

def Boxed.handle? : Boxed → Option RegisteredBuf
  | .buffer b => b.handle?
  | _ => none

def Boxed.name? (b : Option Boxed) : Option BufName := (b.bind Boxed.handle?).map RegisteredBuf.name

def OpPayload.name? (p : OpPayload) : Option BufName := p.handle.map RegisteredBuf.name

/-- The buffer a result slot holds a handle to. -/
def ResultSlot.name? (slot : ResultSlot) : Option BufName := Boxed.name? (slot.completed.bind (·.2))

/-- The mark on one of a registration's buffers. -/
def RegistryInner.mark (r : RegistryInner) (index : Nat) : Option Bool :=
  r.slots[index]?.map RegistrySlot.checkedOut

namespace World

/-- The buffers the result slots hold handles to. -/
def resultNames (w : World ws) : List BufName :=
  (List.range w.nextSlot).filterMap fun σ => (w.results σ).name?

/-- A registration that has been adopted has the buffer marked. -/
def Marked (w : World ws) (n : BufName) : Prop :=
  n.1 < w.nextRegistry ∧ (w.registries n.1).mark n.2 = some true

end World

/-- The buffers there are handles to. -/
def held (handles : List RegisteredBuf) (ps : List OpPayload) (w : World ws) : List BufName :=
  handles.map RegisteredBuf.name ++ (ps.filterMap OpPayload.name? ++ w.resultNames)

/-- Every handle is accounted for by a mark. -/
def Custody (handles : List RegisteredBuf) (ps : List OpPayload) (w : World ws) : Prop :=
  Lease (held handles ps w) w.Marked

-- ---------------------------------------------------------------------------
-- The marks
-- ---------------------------------------------------------------------------

namespace World

theorem marked_congr (hnext : w'.nextRegistry = w.nextRegistry)
    (hmark : ∀ r, (w'.registries r).mark = (w.registries r).mark) (n : BufName) :
    w'.Marked n ↔ w.Marked n := by
  rw [Marked, Marked, hnext, hmark]

/-- A registration in which only counts of initialized bytes have moved. -/
theorem marked_modify {r : RegId} {index : Nat} (f : RegistrySlot → RegistrySlot)
    (hf : ∀ slot, (f slot).checkedOut = slot.checkedOut) (n : BufName) :
    (w.setRegistry r ((w.registries r).modifySlot index f)).Marked n ↔ w.Marked n := by
  refine marked_congr (setRegistry_nextRegistry ..) (fun r' => funext fun i => ?_) n
  rw [setRegistry_registries, Function.update_apply]
  split
  · rename_i hr
    rw [hr, RegistryInner.mark, RegistryInner.modifySlot, List.getElem?_modify, RegistryInner.mark]
    cases (w.registries r).slots[i]? with
    | none => rfl
    | some slot =>
      split
      · exact congrArg some (hf slot)
      · rfl
  · rfl

theorem marked_setInitialized (r : RegId) (index len : Nat) (n : BufName) :
    (w.setRegistry r ((w.registries r).setInitialized index len)).Marked n ↔ w.Marked n := by
  unfold RegistryInner.setInitialized
  refine marked_modify _ ?_ n
  exact fun _ => rfl

theorem marked_raiseTransfer (w : World ws) (p : OpPayload) (result : Except Error Transferred)
    (boxed : Option Boxed) (n : BufName) : (w.raiseTransfer p result boxed).Marked n ↔ w.Marked n := by
  unfold raiseTransfer
  split
  · unfold RegistryInner.raiseInitialized
    refine marked_modify _ (fun slot => ?_) n
    split <;> rfl
  · rfl

theorem marked_dropRegistryRef (w : World ws) (r : RegId) (u : Bool) (n : BufName) :
    (w.dropRegistryRef r u).Marked n ↔ w.Marked n := by
  refine marked_congr (by simp) (fun r' => funext fun i => ?_) n
  have hslots : ((w.dropRegistryRef r u).registries r').slots = (w.registries r').slots :=
    congrArg (fun marks => marks.2.2.1) ((World.Same.dropRegistryRef w r u).marks r')
  rw [RegistryInner.mark, hslots, RegistryInner.mark]

/-- Dropping a handle clears its mark. -/
theorem marked_dropHandle (w : World ws) (h : RegisteredBuf) (u : Bool) (n : BufName) :
    (w.dropHandle h u).Marked n ↔ w.Marked n ∧ n ≠ h.name := by
  rw [dropHandle, marked_dropRegistryRef]
  obtain ⟨r, i⟩ := n
  simp only [Marked, setRegistry_nextRegistry, setRegistry_registries, Function.update_apply, and_assoc,
    RegisteredBuf.name, ne_eq, Prod.mk.injEq]
  refine and_congr_right fun _ => ?_
  by_cases hr : r = h.registry
  · subst hr
    simp only [if_true, RegistryInner.mark, RegistryInner.release, RegistryInner.modifySlot,
      List.getElem?_modify]
    by_cases hi : h.index = i
    · subst hi
      cases (w.registries h.registry).slots[h.index]? <;> simp
    · have hi' : i ≠ h.index := fun he => hi he.symm
      cases (w.registries h.registry).slots[i]? <;> simp [hi, hi']
  · simp [hr]

theorem marked_dropOptional (w : World ws) (b : Option Boxed) (u : Bool) (n : BufName) :
    (w.dropOptional b u).Marked n ↔ w.Marked n ∧ some n ≠ Boxed.name? b := by
  match b with
  | some (.buffer (.handle h)) =>
    refine (w.marked_dropHandle h u n).trans (and_congr_right fun _ => ?_)
    simp [Boxed.name?, Boxed.handle?, Buffer.handle?]
  | some (.collection r) =>
    refine (w.marked_dropRegistryRef r u n).trans ?_
    simp [Boxed.name?, Boxed.handle?]
  | none | some (.buffer (.owned _)) | some (.pending (.buffers ..)) | some (.pending (.files _)) =>
    exact (iff_of_eq rfl).trans (by simp [Boxed.name?, Boxed.handle?, Buffer.handle?, dropOptional,
      dropBoxed, dropBuffer, Marked])

theorem marked_dropRegistrations (rs : List RegId) (n : BufName) :
    (w.dropRegistrations rs).Marked n ↔ w.Marked n := by
  induction rs generalizing w with
  | nil => rfl
  | cons r rs ih => exact ih.trans (w.marked_dropRegistryRef r true n)

/-- A registration is adopted with nothing checked out of it. -/
theorem marked_adoptRegistration (w : World ws) (pending : PendingRegistration) (n : BufName) :
    (w.adoptRegistration pending).1.Marked n ↔ w.Marked n := by
  cases pending with
  | files files => rfl
  | buffers buffers pointers extents watermarks descriptors =>
    have hfresh : (RegistryInner.new buffers pointers extents watermarks descriptors).mark n.2
        ≠ some true := by
      rw [RegistryInner.mark, RegistryInner.new, List.getElem?_zipWith]
      cases extents[n.2]? <;> cases watermarks[n.2]? <;> simp
    simp only [adoptRegistration, Marked, setInner_nextRegistry, setInner_registries,
      setRegistry_registries, Function.update_apply]
    split
    · rename_i hn
      simp only [hn]
      exact iff_of_false (fun h => hfresh h.2) fun h => Nat.lt_irrefl _ h.1
    · rename_i hn
      refine and_congr_left fun _ => ?_
      exact ⟨fun h => Nat.lt_of_le_of_ne (Nat.le_of_lt_succ h) hn, Nat.lt_succ_of_lt⟩

theorem marked_settleRegistration (w : World ws) (p : OpPayload) (result : Except Error Transferred)
    (n : BufName) : (w.settleRegistration p result).1.Marked n ↔ w.Marked n := by
  unfold settleRegistration
  cases p.pendingRegistration with
  | none => rfl
  | some pending =>
    have hflag : ∀ d, (w.setInner d).Marked n ↔ w.Marked n := fun _ => .rfl
    cases result with
    | error e =>
      dsimp only
      split
      · exact hflag _
      · rfl
    | ok transferred =>
      dsimp only
      split <;> rename_i hadopt <;> refine .trans ?_ (marked_adoptRegistration w pending n)
      all_goals
        rw [← congrArg Prod.fst hadopt]
        cases pending <;> rfl

theorem marked_fill (w : World ws) (p : OpPayload) (completed : CompletedOp) (cause : Cause ws)
    (n : BufName) : (w.fill p completed cause).1.Marked n ↔ w.Marked n ∧
      ((w.results p.slot).awaited = false → some n ≠ Boxed.name? completed.2) := by
  have hguard : ∀ w : World ws, (w.dropGuard p.sequential).Marked n ↔ w.Marked n :=
    fun w => marked_congr (nextRegistry_dropGuard ..) (fun r => by rw [registries_dropGuard]) n
  simp only [fill, hguard, dropSlotRef, setResult_results, Function.update_self]
  cases (w.results p.slot).awaited with
  | true => exact (iff_of_eq rfl).trans (and_iff_left (by rintro ⟨⟩)).symm
  | false =>
    simp only [Bool.false_eq_true, if_false, marked_dropOptional, forall_const]
    rfl

-- ---------------------------------------------------------------------------
-- The slots
-- ---------------------------------------------------------------------------

section Slots

variable {σ : SlotId} {slot : ResultSlot}

theorem resultNames_update (hnext : w'.nextSlot = w.nextSlot)
    (hresults : w'.results = Function.update w.results σ slot) : w'.resultNames =
      (List.range w.nextSlot).filterMap
        (Function.update (fun σ => (w.results σ).name?) σ slot.name?) := by
  rw [resultNames, hnext, hresults]
  refine List.filterMap_congr fun τ _ => ?_
  rw [Function.update_apply, Function.update_apply]
  split <;> rfl

/-- An empty slot takes what it is given. -/
theorem resultNames_put (hnext : w'.nextSlot = w.nextSlot)
    (hresults : w'.results = Function.update w.results σ slot) (hσ : σ < w.nextSlot)
    (hempty : (w.results σ).completed = none) :
    w'.resultNames.Perm (slot.name?.toList ++ w.resultNames) := by
  rw [resultNames_update hnext hresults]
  refine perm_filterMap_update List.nodup_range (List.mem_range.mpr hσ) ?_ _
  rw [ResultSlot.name?, hempty]
  rfl

/-- A slot is emptied of what it had. -/
theorem resultNames_take (hnext : w'.nextSlot = w.nextSlot)
    (hresults : w'.results = Function.update w.results σ slot) (hσ : σ < w.nextSlot)
    (hempty : slot.name? = none) :
    w.resultNames.Perm ((w.results σ).name?.toList ++ w'.resultNames) := by
  rw [resultNames_update hnext hresults, hempty]
  exact perm_filterMap List.nodup_range (List.mem_range.mpr hσ) _

/-- A new slot has nothing in it. -/
theorem resultNames_new (hnext : w'.nextSlot = w.nextSlot + 1)
    (hresults : w'.results = Function.update w.results w.nextSlot .new) :
    w'.resultNames = w.resultNames := by
  have hlast : (w'.results w.nextSlot).name? = none := by
    rw [hresults, Function.update_self]
    rfl
  rw [resultNames, hnext, List.range_succ, List.filterMap_append,
    List.filterMap_cons_none (f := fun σ => (w'.results σ).name?) hlast, List.filterMap_nil,
    List.append_nil]
  refine List.filterMap_congr fun σ hσ => ?_
  rw [hresults, Function.update_of_ne (Nat.ne_of_lt (List.mem_range.mp hσ))]

end Slots

end World

-- ---------------------------------------------------------------------------
-- Handing over
-- ---------------------------------------------------------------------------

@[simp] theorem World.name_refresh (w : World ws) (b : Option Boxed) :
    Boxed.name? (w.refresh b) = Boxed.name? b := by
  unfold World.refresh
  split
  · rfl
  · rfl

theorem OpPayload.handle_buffer (p : OpPayload) :
    (p.buffer.map Boxed.buffer).bind Boxed.handle? = p.handle := by
  rw [OpPayload.handle]
  cases p.buffer <;> rfl

/-- A registration carries no buffer of its own. -/
def OpPayload.Plain (p : OpPayload) : Prop := p.pendingRegistration.isSome → p.buffer = none

/-- What a completed operation hands back is the handle it carried. -/
theorem World.handle_settleRegistration (w : World ws) {p : OpPayload} (hp : p.Plain)
    (result : Except Error Transferred) :
    (w.settleRegistration p result).2.bind Boxed.handle? = p.handle := by
  unfold World.settleRegistration
  cases hpending : p.pendingRegistration with
  | none => exact p.handle_buffer
  | some pending =>
    have hnone : p.handle = none := by
      rw [OpPayload.handle, hp (by rw [hpending]; rfl)]
      rfl
    cases result with
    | error e => exact hnone.symm
    | ok transferred =>
      dsimp only
      split
      · exact hnone.symm
      · exact p.handle_buffer

theorem World.name_settleRegistration (w : World ws) {p : OpPayload} (hp : p.Plain)
    (result : Except Error Transferred) :
    Boxed.name? (w.settleRegistration p result).2 = p.name? := by
  rw [Boxed.name?, w.handle_settleRegistration hp, OpPayload.name?]

theorem handle_abandoned {p : OpPayload} (hp : p.Plain) :
    (World.abandoned p).2.bind Boxed.handle? = p.handle := by
  rw [World.abandoned]
  cases hpending : p.pendingRegistration with
  | none => exact p.handle_buffer
  | some pending =>
    rw [OpPayload.handle, hp (by rw [hpending]; rfl)]
    rfl

theorem name_abandoned {p : OpPayload} (hp : p.Plain) : Boxed.name? (World.abandoned p).2 = p.name? := by
  rw [Boxed.name?, handle_abandoned hp, OpPayload.name?]

namespace Custody

variable {handles handles' : List RegisteredBuf} {ps ps' : List OpPayload} {p : OpPayload}

theorem count_held (n : BufName) : (held handles ps w).count n =
    (handles.map RegisteredBuf.name).count n + (ps.filterMap OpPayload.name?).count n +
      w.resultNames.count n := by
  rw [held, List.count_append, List.count_append, Nat.add_assoc]

theorem count_cons (n : BufName) : ((p :: ps).filterMap OpPayload.name?).count n =
    p.name?.toList.count n + (ps.filterMap OpPayload.name?).count n := by
  cases hp : p.name? with
  | none => rw [List.filterMap_cons_none hp]; exact (Nat.zero_add _).symm
  | some m => rw [List.filterMap_cons_some hp, ← List.count_append]; rfl

/-- Handles may change hands among the application and the payloads. -/
theorem of_completed (h : Custody handles ps w)
    (hnames : (handles'.map RegisteredBuf.name).Perm (handles.map RegisteredBuf.name))
    (hps : ps'.Perm ps)
    (hnext : w'.nextSlot = w.nextSlot)
    (hcompleted : ∀ σ, (w'.results σ).completed = (w.results σ).completed)
    (hmarked : ∀ n, w'.Marked n ↔ w.Marked n) : Custody handles' ps' w' := by
  have hresults : w'.resultNames = w.resultNames := by
    rw [World.resultNames, hnext]
    exact List.filterMap_congr fun σ _ => by rw [ResultSlot.name?, hcompleted, ResultSlot.name?]
  refine Lease.perm h (List.perm_iff_count.mpr fun n => ?_) hmarked
  rw [count_held, count_held, hnames.count_eq, hresults, (hps.filterMap _).count_eq]

theorem of_world (h : Custody handles ps w) (hps : ps'.Perm ps) (hnext : w'.nextSlot = w.nextSlot)
    (hresults : w'.results = w.results) (hmarked : ∀ n, w'.Marked n ↔ w.Marked n) :
    Custody handles ps' w' :=
  h.of_completed (.refl _) hps hnext (fun _ => by rw [hresults]) hmarked

theorem held_cons : (held handles (p :: ps) w).Perm (p.name?.toList ++ held handles ps w) := by
  refine List.perm_iff_count.mpr fun n => ?_
  rw [List.count_append, count_held, count_held, count_cons]
  omega

/-- A payload's handle goes to its result slot, or is dropped with it. -/
theorem fill (h : Custody handles (p :: ps) w) (hslot : p.slot < w.nextSlot)
    (hempty : (w.results p.slot).completed = none) {completed : CompletedOp}
    (hname : Boxed.name? completed.2 = p.name?) (cause : Cause ws) :
    Custody handles ps (w.fill p completed cause).1 := by
  have hheld : Lease (p.name?.toList ++ held handles ps w) w.Marked :=
    Lease.perm h held_cons.symm fun _ => .rfl
  have hput := fun n => (World.resultNames_put (World.nextSlot_fill w p completed cause)
    (World.results_fill w p completed cause) hslot hempty).count_eq n
  have hmarked := World.marked_fill w p completed cause
  cases hawaited : (w.results p.slot).awaited with
  | true =>
    rw [hawaited] at hput hmarked
    refine hheld.perm (List.perm_iff_count.mpr fun n => ?_) fun n => ?_
    · rw [List.count_append, count_held, count_held, hput, List.count_append, if_pos rfl, ← hname]
      simp only [ResultSlot.name?, Option.bind_some]
      omega
    · exact (hmarked n).trans (and_iff_left nofun)
  | false =>
    rw [hawaited] at hput hmarked
    have hleft : (held handles ps (w.fill p completed cause).1).Perm (held handles ps w) := by
      refine List.perm_iff_count.mpr fun n => ?_
      rw [count_held, count_held, hput, List.count_append, if_neg Bool.false_ne_true]
      simp only [ResultSlot.name?, Option.bind_none, Boxed.name?, Option.map_none, Option.toList,
        List.count_nil, Nat.zero_add]
    have hleft' : Lease (p.name?.toList ++ held handles ps (w.fill p completed cause).1) w.Marked :=
      hheld.perm (hleft.append_left _) fun _ => .rfl
    refine hleft'.releaseOption _ fun n => ?_
    rw [hmarked, ← hname]
    simp

theorem resolveCompletion (h : Custody handles (p :: ps) w) (hslot : p.slot < w.nextSlot)
    (hempty : (w.results p.slot).completed = none) (hp : p.Plain) (cqe : Cqe ws) :
    Custody handles ps (w.resolveCompletion p cqe).1 := by
  simp only [World.resolveCompletion]
  have hname := w.name_settleRegistration hp (World.completionResult cqe.outcome)
  have hnext := w.nextSlot_settleRegistration p (World.completionResult cqe.outcome)
  have hresults := World.results_settleRegistration (w := w) p (World.completionResult cqe.outcome)
  have hmarked := w.marked_settleRegistration p (World.completionResult cqe.outcome)
  generalize w.settleRegistration p (World.completionResult cqe.outcome) = r at *
  obtain ⟨settled, boxed⟩ := r
  have hraised : Custody handles (p :: ps)
      (settled.raiseTransfer p (World.completionResult cqe.outcome) boxed) := by
    refine h.of_world (.refl _) ?_ ?_ fun n => ?_
    · rw [World.nextSlot_raiseTransfer, hnext]
    · rw [World.results_raiseTransfer, hresults]
    · rw [World.marked_raiseTransfer, hmarked]
  refine hraised.fill ?_ ?_ ?_ _
  · rwa [World.nextSlot_raiseTransfer, hnext]
  · rwa [World.results_raiseTransfer, hresults]
  · rw [World.name_refresh]
    exact hname

theorem resolveAbandoned (h : Custody handles (p :: ps) w) (hslot : p.slot < w.nextSlot)
    (hempty : (w.results p.slot).completed = none) (hp : p.Plain) :
    Custody handles ps (w.resolveAbandoned p).1 :=
  h.fill hslot hempty (name_abandoned hp) _

/-- A ring that has closed leaves no handle in a payload. -/
theorem release (h : Custody handles w.inner.slab.payloads w)
    (hslots : Slotted w.inner.slab.payloads w futures)
    (hplain : ∀ p ∈ w.inner.slab.payloads, p.Plain) : Custody handles [] w.release.1 := by
  have hall : Custody handles [] w.abandonAll := by
    refine (World.abandonAll_induction (P := fun ps w => Custody handles ps w ∧
      Slotted ps w futures ∧ ∀ p ∈ ps, p.Plain) w ⟨?_, ?_, hplain⟩ ?_).1
    · exact h.of_world (.refl _) rfl rfl fun _ => .rfl
    · exact hslots.of_results rfl rfl
    · rintro p ps w ⟨hc, hs, hp⟩
      refine ⟨hc.resolveAbandoned (hs.bounded p List.mem_cons_self) (hs.empty p List.mem_cons_self)
        (hp p List.mem_cons_self), ?_, fun q hq => hp q (List.mem_cons_of_mem _ hq)⟩
      exact hs.fill (by simp) (World.results_resolveAbandoned w p)
  obtain ⟨hresults, hnext, -, -⟩ := w.release_frame
  refine hall.of_world (.refl _) hnext hresults fun n => ?_
  exact World.marked_dropRegistrations _ n

/-- A request moves a handle into its payload. -/
theorem accept (h : Custody handles ps w) (hhandles : handles.Perm (p.handle.toList ++ handles'))
    (hps : ps'.Perm (p :: ps)) (hnext : w'.nextSlot = w.nextSlot + 1)
    (hresults : w'.results = Function.update w.results w.nextSlot .new)
    (hmarked : ∀ n, w'.Marked n ↔ w.Marked n) : Custody handles' ps' w' := by
  refine Lease.perm h (List.perm_iff_count.mpr fun n => ?_) hmarked
  have hmoved : (handles.map RegisteredBuf.name).count n =
      p.name?.toList.count n + (handles'.map RegisteredBuf.name).count n := by
    rw [(hhandles.map _).count_eq, List.map_append, List.count_append, OpPayload.name?]
    cases p.handle <;> rfl
  rw [count_held, count_held, World.resultNames_new hnext hresults, (hps.filterMap _).count_eq,
    count_cons, hmoved]
  omega

/-- A result is received, and the handle in it with it. -/
theorem deliver (h : Custody handles ps w) {σ : SlotId} {slot : ResultSlot} (hσ : σ < w.nextSlot)
    (hnext : w'.nextSlot = w.nextSlot) (hresults : w'.results = Function.update w.results σ slot)
    (hempty : slot.completed = none) {boxed : Option Boxed}
    (hname : Boxed.name? boxed = (w.results σ).name?) (hmarked : ∀ n, w'.Marked n ↔ w.Marked n) :
    Custody (handles ++ (boxed.bind Boxed.handle?).toList) ps w' := by
  refine Lease.perm h (List.perm_iff_count.mpr fun n => ?_) hmarked
  have htake := (World.resultNames_take hnext hresults hσ
    (by rw [ResultSlot.name?, hempty]; rfl)).count_eq n
  have hgot : ((boxed.bind Boxed.handle?).toList.map RegisteredBuf.name).count n =
      (w.results σ).name?.toList.count n := by
    rw [← hname, Boxed.name?]
    cases boxed.bind Boxed.handle? <;> rfl
  rw [count_held, count_held, htake, List.count_append, List.map_append, List.count_append, hgot]
  omega

/-- Emptying a slot takes the handle in it out of custody. -/
theorem held_take (handles : List RegisteredBuf) (ps : List OpPayload) {σ : SlotId}
    {slot : ResultSlot} (hσ : σ < w.nextSlot)
    (hnext : w'.nextSlot = w.nextSlot) (hresults : w'.results = Function.update w.results σ slot)
    (hempty : slot.name? = none) :
    (held handles ps w).Perm ((w.results σ).name?.toList ++ held handles ps w') := by
  have htake := World.resultNames_take hnext hresults hσ hempty
  refine List.perm_iff_count.mpr fun n => ?_
  rw [List.count_append, count_held, count_held, htake.count_eq, List.count_append]
  omega

/-- A future is dropped, and whatever was left for it. -/
theorem forget (h : Custody handles ps w) {σ : SlotId} (hσ : σ < w.nextSlot) (underBorrow : Bool) :
    Custody handles ps (w.dropFutureRef σ underBorrow) := by
  let emptied := { w.results σ with completed := none, awaited := false }
  have hresults : (w.dropFutureRef σ underBorrow).results = Function.update w.results σ emptied := by
    simp [World.dropFutureRef, emptied]
  have hperm := held_take handles ps hσ (by simp [World.dropFutureRef]) hresults rfl
  refine Lease.releaseOption _ (Lease.perm h hperm.symm fun _ => .rfl) fun n => ?_
  exact World.marked_dropOptional ..

/-- The application drops a handle it holds. -/
theorem dropHandle (h : Custody handles ps w) {i : Nat} {hd : RegisteredBuf}
    (hi : handles[i]? = some hd) (underBorrow : Bool) :
    Custody (handles.eraseIdx i) ps (w.dropHandle hd underBorrow) := by
  obtain ⟨hlt, rfl⟩ := List.getElem?_eq_some_iff.mp hi
  have hperm : (held handles ps w).Perm
      (handles[i].name :: held (handles.eraseIdx i) ps (w.dropHandle handles[i] underBorrow)) := by
    refine List.perm_iff_count.mpr fun n => ?_
    have herase := ((List.getElem_cons_eraseIdx_perm hlt).map RegisteredBuf.name).count_eq n
    rw [List.map_cons] at herase
    have hresults : (w.dropHandle handles[i] underBorrow).resultNames = w.resultNames := by
      simp [World.resultNames, World.dropHandle]
    rw [count_held, List.count_cons, count_held, ← herase, List.count_cons, hresults]
    omega
  exact Lease.release (Lease.perm h hperm.symm fun _ => .rfl) fun n => World.marked_dropHandle ..

/-- A buffer is checked out. -/
theorem checkOut (h : Custody handles ps w) {r : RegId} {registry : RegistryInner}
    {hd : RegisteredBuf} {index : Nat} (hr : r < w.nextRegistry)
    (hclaim : (w.registries r).claim r index = .ok (registry, hd)) :
    Custody (handles ++ [hd]) ps (w.setRegistry r registry) := by
  unfold RegistryInner.claim at hclaim
  split at hclaim
  · cases hclaim
  rename_i slot hslot
  split at hclaim
  · cases hclaim
  rename_i hfree
  obtain ⟨rfl, rfl⟩ := Prod.mk.inj (Except.ok.inj hclaim)
  have hunmarked : ¬ w.Marked (r, index) := by
    rintro ⟨-, hmark⟩
    rw [RegistryInner.mark, hslot] at hmark
    exact hfree (Option.some.inj hmark)
  refine (Lease.claim h hunmarked fun n => ?_).perm (List.perm_iff_count.mpr fun n => ?_) fun _ => .rfl
  · obtain ⟨r', i⟩ := n
    simp only [World.Marked, World.setRegistry_nextRegistry, World.setRegistry_registries,
      Function.update_apply, Prod.mk.injEq]
    by_cases hr' : r' = r
    · subst hr'
      simp only [if_true, RegistryInner.mark, RegistryInner.modifySlot, List.getElem?_modify, hr,
        true_and]
      by_cases hi : index = i
      · subst hi
        simp [hslot]
      · have hi' : i ≠ index := fun he => hi he.symm
        simp [hi, hi']
    · simp [hr']
  · rw [List.count_cons, count_held, count_held, List.map_append, List.count_append, List.map_cons,
      List.map_nil, List.count_singleton, RegisteredBuf.name]
    have hnames : (w.setRegistry r { (w.registries r).modifySlot index fun slot =>
        { slot with checkedOut := true } with strong := (w.registries r).strong + 1 }).resultNames =
        w.resultNames := rfl
    rw [hnames]
    dsimp only
    omega

end Custody

-- ---------------------------------------------------------------------------
-- Every run
-- ---------------------------------------------------------------------------

theorem kept_plain (ok : Sys ws → Action ws → Prop) :
    Kept ok fun s => ∀ k p, s.world.inner.slab.payloadAt k = some p → p.Plain :=
  kept_payloads (fun _ _ h hpending => by
    obtain ⟨pending, hpending⟩ := Option.isSome_iff_exists.mp hpending
    exact (h.registration pending hpending).1) ok

/-- A registration that can be checked out of was adopted. -/
theorem Accounts.current_lt (h : Accounts s) (hopen : s.world.inner.ring.closed = false)
    (hr : s.world.inner.bufferRegistration = some r) : r < s.world.nextRegistry := by
  have hlatest := (h.buffers hopen).latest
  rw [hr] at hlatest
  obtain ⟨e, -, -, hlt, -⟩ := hlatest.mem
  exact hlt

/-- What the custody of handles rests on. -/
def Orderly (s : Sys ws) : Prop :=
  (OnRecord s ∧ Accounts s) ∧ s.Slotted ∧
    ∀ k p, s.world.inner.slab.payloadAt k = some p → p.Plain

theorem kept_orderly (ok : Sys ws → Action ws → Prop) : Kept ok Orderly :=
  ((kept_onRecord ok).and (kept_accounts ok)).and
    ((kept_slotted ok).and (kept_plain ok).given).given

def Sys.Custody (s : Sys ws) : Prop := Runtime.Custody s.handles s.payloads s.world

theorem handles_receive (s : Sys ws) (boxed : Option Boxed) :
    (s.receive boxed).handles = s.handles ++ (boxed.bind Boxed.handle?).toList := by
  unfold Sys.receive
  split
  · rfl
  · exact (List.append_nil _).symm
  · rename_i hhandle hcollection
    have hnone : boxed.bind Boxed.handle? = none := by
      match boxed with
      | some (.buffer (.handle h)) => exact absurd rfl (hhandle h)
      | none | some (.buffer (.owned _)) | some (.collection _) | some (.pending _) => rfl
    rw [hnone]
    exact (List.append_nil _).symm

/-- What a future receives is what was left for it, marked as read or not. -/
theorem World.name_deliver (w : World ws) (σ : SlotId) (future : Future ws) (completed : CompletedOp) :
    Boxed.name? (w.deliver σ future completed).2 = Boxed.name? completed.2 := by
  simp only [deliver, recordRead]
  split
  · split
    · rfl
    · rfl
  · rfl

theorem World.marked_deliver (w : World ws) (σ : SlotId) (future : Future ws) (completed : CompletedOp)
    (n : BufName) : (w.deliver σ future completed).1.Marked n ↔ w.Marked n := by
  have hadvance : ∀ w : World ws,
      (w.advanceOnSuccess future.sequential completed.1).Marked n ↔ w.Marked n := by
    intro w
    obtain ⟨files, hw⟩ := w.advanceOnSuccess_eq future.sequential completed.1
    rw [hw]
    exact .rfl
  refine (hadvance _).trans ?_
  dsimp only
  split
  · split
    · exact marked_setInitialized ..
    · exact .rfl
  · exact .rfl

theorem kept_custody (ok : Sys ws → Action ws → Prop) : KeptGiven ok Orderly Sys.Custody where
  initial s hs := by
    have hpayloads : s.payloads = [] := by
      rw [Sys.payloads, hs.inner]
      exact OpSlab.payloads_new
    have hheld : held s.handles s.payloads s.world = [] := by
      simp [held, hpayloads, hs.handles, World.resultNames, hs.nextSlot]
    rw [Sys.Custody, Runtime.Custody, hheld]
    refine .nil fun n hn => ?_
    have := hn.1
    rw [hs.nextRegistry] at this
    exact Nat.not_lt_zero _ this
  move s s' hb hj h hm := by
    have hslab : ∀ {s' : Sys ws}, s'.world.inner.slab.payloadAt = s.world.inner.slab.payloadAt →
        s'.handles = s.handles → s'.world.nextSlot = s.world.nextSlot →
        s'.world.results = s.world.results → (∀ n, s'.world.Marked n ↔ s.world.Marked n) →
        s'.Custody := by
      intro s' hpayloads hhandles hnext hresults hmarked
      rw [Sys.Custody, hhandles]
      exact h.of_world (Sys.payloads_same hpayloads) hnext hresults hmarked
    cases hm with
    | quiet hq =>
      refine hslab (by rw [hq.world.inner.slab]) hq.handles hq.world.nextSlot hq.world.results ?_
      refine World.marked_congr hq.world.nextRegistry fun r => funext fun i => ?_
      have hslots : (s'.world.registries r).slots = (s.world.registries r).slots :=
        congrArg (fun marks => marks.2.2.1) (hq.world.marks r)
      rw [RegistryInner.mark, hslots, RegistryInner.mark]
    | refused hcell _ _ hhandles =>
      exact h.of_completed (hhandles.map _) (Sys.payloads_same (OpSlab.payloadAt_congr hcell)) rfl
        (fun _ => rfl) fun _ => .rfl
    | cancelled => exact hslab (OpSlab.payloadAt_registerCancel ..) rfl rfl rfl fun _ => .rfl
    | submitted => exact hslab (OpSlab.payloadAt_promote _) rfl rfl rfl fun _ => .rfl
    | reapedCancel => exact hslab (OpSlab.payloadAt_completeCancel ..) rfl rfl rfl fun _ => .rfl
    | detached t => exact hslab (OpSlab.payloadAt_detach ..) rfl rfl rfl fun _ => .rfl
    | @resolved cqe rest _ op _ _ hkind hop =>
      let resolved := s.withWorld ((s.world.setInner { s.world.inner with
        slab := (s.world.inner.slab.complete cqe.token).1
        ring := { s.world.inner.ring with completions := rest } }).resolveCompletion op.payload cqe).1
      have hperm : s.payloads.Perm (op.payload :: resolved.payloads) :=
        Sys.payloads_resolved hkind hop (by simp [resolved, Sys.withWorld])
      have hmem : op.payload ∈ s.payloads := hperm.mem_iff.mpr List.mem_cons_self
      have htaken : Runtime.Custody s.handles (op.payload :: _) (s.world.setInner { s.world.inner with
          slab := (s.world.inner.slab.complete cqe.token).1
          ring := { s.world.inner.ring with completions := rest } }) :=
        h.of_world hperm.symm rfl rfl fun _ => .rfl
      exact htaken.resolveCompletion (hj.2.1.bounded _ hmem) (hj.2.1.empty _ hmem)
        (hj.2.2 _ _ (OpSlab.payloadAt_of_cell hop)) cqe
    | @released ring =>
      have hnil : (s.withWorld (s.world.setInner { s.world.inner with ring }).release.1).payloads
          = [] := by
        rw [Sys.payloads, Sys.withWorld, World.release_inner]
        exact OpSlab.payloads_drain _
      rw [Sys.Custody, hnil]
      have hslots : Runtime.Slotted s.payloads (s.world.setInner { s.world.inner with ring })
          s.futures := hj.2.1.of_results rfl rfl
      refine Custody.release ?_ hslots fun p hp => ?_
      · exact h.of_world (.refl _) rfl rfl fun _ => .rfl
      · obtain ⟨k, hk⟩ := OpSlab.mem_payloads.mp hp
        exact hj.2.2 k p hk
    | @polled _ _ _ σ =>
      refine h.of_completed (.refl _) (.refl _) rfl (fun τ => ?_) fun _ => .rfl
      by_cases hτ : τ = σ
      · subst hτ
        simp [Sys.withWorld]
      · simp [Sys.withWorld, hτ]
    | @delivered future completed _ _ σ hfuture hfilled =>
      obtain ⟨_, _, hdeliver⟩ := s.world.deliver_eq σ future completed
      rw [Sys.Custody, handles_receive, Sys.payloads, Sys.receive_world, World.inner_deliver]
      have hresults : (s.world.deliver σ future completed).1.results = Function.update s.world.results σ
          { s.world.results σ with completed := none, awaited := false } := by
        rw [hdeliver]
        rfl
      refine h.deliver (hj.2.1.future_lt σ future hfuture) ?_ hresults rfl ?_ ?_
      · rw [hdeliver]
        rfl
      · rw [World.name_deliver, ResultSlot.name?, hfilled]
        rfl
      · exact s.world.marked_deliver σ future completed
    | @forgotten future _ _ σ detached underBorrow hfuture =>
      rw [Sys.Custody, Sys.payloads, World.inner_dropFutureRef]
      have hσ := hj.2.1.future_lt σ future hfuture
      have hlogged : Runtime.Custody s.handles s.payloads (s.world.emit (.futureDropped σ detached)) :=
        h.of_world (.refl _) rfl rfl fun _ => .rfl
      exact hlogged.forget hσ underBorrow
    | checkedOut htorn _ _ hcurrent hclaim =>
      exact h.checkOut (hj.1.2.current_lt (hb.tornDown ▸ htorn) hcurrent) hclaim
    | @filled i hd len _ _ hhandle =>
      obtain ⟨hlt, hd_eq⟩ := List.getElem?_eq_some_iff.mp hhandle
      have hnames : (s.handles.set i { hd with initialized := len }).map RegisteredBuf.name =
          s.handles.map RegisteredBuf.name := by
        rw [List.map_set]
        refine List.ext_getElem? fun j => ?_
        rw [List.getElem?_set]
        split
        · rename_i hij
          subst hij
          simp [hlt, RegisteredBuf.name, hd_eq]
        · rfl
      exact h.of_completed (.of_eq hnames) (.refl _) rfl (fun _ => rfl)
        fun n => (World.marked_congr (w := s.world.setRegistry hd.registry
          ((s.world.registries hd.registry).setInitialized hd.index len)) rfl (fun _ => rfl) n).trans
            (World.marked_setInitialized ..)
    | handleDropped hhandle =>
      rw [Sys.Custody, Sys.payloads, World.inner_dropHandle]
      exact h.dropHandle hhandle _
    | _ => exact hslab rfl rfl rfl rfl fun _ => .rfl
  accepted s s' t p e f _ _ _ hj h _ _ ha := by
    refine h.accept ha.handles ha.payloads ha.nextSlot ha.results ?_
    exact World.marked_congr ha.nextRegistry fun r => by rw [ha.registries]
  setCursor s file position _ _ h _ := h.of_world (.refl _) rfl rfl fun _ => .rfl

theorem custody_of_reachable (hr : (systemMachine ws).Reachable s) : s.Custody :=
  (((kept_orderly _).and (kept_custody _)).reachable hr).2

/-- In every reachable state there is at most one handle to each registered
buffer, wherever it is, and the registration's mark for the buffer is set exactly
when there is one. -/
theorem one_handle_per_buffer (hr : (systemMachine ws).Reachable s) (n : BufName) :
    (held s.handles s.payloads s.world).count n ≤ 1 ∧
      (s.world.Marked n ↔ n ∈ held s.handles s.payloads s.world) :=
  have h := custody_of_reachable hr
  ⟨List.nodup_iff_count_le_one.mp h.nodup n, h.marked_iff n⟩

/-- A registered read has taken the one handle to its buffer. -/
theorem one_handle_per_buffer_lent : ∃ s : Sys .w64, s.handles = [] ∧ s.world.Marked (0, 0) ∧
    (held s.handles s.payloads s.world).count (0, 0) = 1 := by
  obtain ⟨s, hrun, hhandles, hmarked⟩ : ∃ s, (systemMachine .w64).run .new registeredRead = some s ∧
      s.handles = [] ∧ (0 < s.world.nextRegistry ∧ (s.world.registries 0).mark 0 = some true) :=
    ⟨_, rfl, rfl, by decide, rfl⟩
  obtain ⟨hcount, hmem⟩ := one_handle_per_buffer (reachable_of_run hrun) (0, 0)
  have hpos := List.count_pos_iff.mpr (hmem.mp hmarked)
  exact ⟨s, hhandles, hmarked, Nat.le_antisymm hcount hpos⟩

end WinIoring.Runtime
