import WinIoring.Machine.Shared
import WinIoring.Runtime.Deeds

/-!
# What callers hand over

A caller gives the driver buffers, and gets handles and collections for those it
registers. Each is somewhere: with the application, in the payload of an
operation, in a result slot, or in a registration, which counts who refers to it
and drops its buffers with the last. Nothing is lost, and nothing is dropped
twice.
-/

namespace WinIoring.Runtime

open Slab WinIoring.Machine

variable {ws : WordSize} {s s' : Sys ws} {w w' : World ws}

-- ---------------------------------------------------------------------------
-- What is handed over
-- ---------------------------------------------------------------------------

namespace Boxed

/-- The registrations it refers to. -/
def refs : Boxed → List RegId
  | .buffer (.handle h) => [h.registry]
  | .collection r => [r]
  | _ => []

/-- What of it the application goes on holding: a handle or a collection. -/
def kept : Boxed → List Boxed
  | .buffer (.handle h) => [.buffer (.handle h)]
  | .collection r => [.collection r]
  | _ => []

/-- The caller's buffers in it. -/
def bufs : Boxed → List Buf
  | .buffer (.owned b) => [b]
  | .pending (.buffers buffers ..) => buffers
  | _ => []

theorem refs_kept (boxes : List Boxed) : (boxes.flatMap kept).flatMap refs = boxes.flatMap refs := by
  rw [List.flatMap_assoc]
  refine List.flatMap_congr fun b _ => ?_
  match b with
  | .buffer (.owned _) | .buffer (.handle _) | .collection _ | .pending (.buffers ..) | .pending (.files _) => rfl

theorem bufs_kept (boxes : List Boxed) : (boxes.flatMap kept).flatMap bufs = [] := by
  rw [List.flatMap_assoc]
  refine List.flatMap_eq_nil_iff.mpr fun b _ => ?_
  unfold kept
  split <;> rfl

end Boxed

def OpPayload.boxes (p : OpPayload) : List Boxed :=
  (p.buffer.map Boxed.buffer).toList ++ (p.pendingRegistration.map Boxed.pending).toList

theorem refs_handles (handles : List RegisteredBuf) :
    (handles.map fun h => Boxed.buffer (.handle h)).flatMap Boxed.refs = handles.map (·.registry) := by
  rw [List.flatMap_map]
  exact List.map_eq_flatMap.symm

/-- A handle is no buffer of the caller's. -/
theorem bufs_handles (handles : List RegisteredBuf) :
    (handles.map fun h => Boxed.buffer (.handle h)).flatMap Boxed.bufs = [] := by
  rw [List.flatMap_map]
  exact List.flatMap_eq_nil_iff.mpr fun _ _ => rfl

/-- What a payload refers to is what its handle does. -/
theorem OpPayload.refs_boxes (p : OpPayload) :
    p.boxes.flatMap Boxed.refs = (p.handle.toList.map fun h => Boxed.buffer (.handle h)).flatMap Boxed.refs := by
  have hpending : (p.pendingRegistration.map Boxed.pending).toList.flatMap Boxed.refs = [] := by
    cases p.pendingRegistration <;> rfl
  rw [boxes, List.flatMap_append, hpending, List.append_nil, handle]
  cases p.buffer with
  | none => rfl
  | some b => cases b <;> rfl

def ResultSlot.boxes (slot : ResultSlot) : List Boxed := (slot.completed.bind (·.2)).toList

def World.resultBoxes (w : World ws) : List Boxed := (List.range w.nextSlot).flatMap fun σ => (w.results σ).boxes

/-- Everything that is somewhere outside the registrations. -/
def cargo (handles : List RegisteredBuf) (collections : List RegId) (ps : List OpPayload) (w : World ws) : List Boxed :=
  handles.map (fun h => .buffer (.handle h)) ++ (collections.map .collection ++
    (ps.flatMap OpPayload.boxes ++ w.resultBoxes))

namespace Event

/-- The buffers an accepted request gives the driver. -/
def given : Event ws → List Buf
  | .accepted _ p _ => p.boxes.flatMap Boxed.bufs
  | _ => []

/-- The buffers that leave the driver: with a result, or dropped. -/
def returned : Event ws → List Buf
  | .delivered _ completed => completed.2.toList.flatMap Boxed.bufs
  | .dropBuffer b _ => [b]
  | _ => []

end Event

namespace World

def given (w : World ws) : List Buf := w.log.flatMap Event.given

def returned (w : World ws) : List Buf := w.log.flatMap Event.returned

def strong (w : World ws) (r : RegId) : Nat := (w.registries r).strong

/-- The buffers in the registrations that somebody refers to. -/
def storage (w : World ws) : List Buf := stored (fun r => (w.registries r).buffers) w.strong w.nextRegistry

theorem strong_congr (hregistries : w'.registries = w.registries) : w'.strong = w.strong :=
  funext fun r => by rw [strong, hregistries, strong]

theorem storage_congr (hregistries : w'.registries = w.registries) (hnext : w'.nextRegistry = w.nextRegistry) :
    w'.storage = w.storage := by
  rw [storage, strong_congr hregistries, hregistries, hnext, storage]

end World

/-- The references are counted, and the buffers accounted for. -/
structure Tally (refs : List RegId) (bufs : List Buf) (w : World ws) : Prop where
  shared : Shared refs w.strong w.nextRegistry
  balanced : w.given.Perm (bufs ++ (w.storage ++ w.returned))

/-- Events by which nothing is given and nothing leaves. -/
def Event.neutral (e : Event ws) : Prop := e.given = [] ∧ e.returned = []

theorem neutral_of_idle (e : Event ws) (he : e.idle = true) : e.neutral := by
  cases e <;> first | exact ⟨rfl, rfl⟩ | cases he

namespace World

theorem given_grows (h : w.Grows Event.neutral w') : w'.given = w.given ∧ w'.returned = w.returned := by
  obtain ⟨es, hlog, hes⟩ := h
  have hgiven : es.flatMap Event.given = [] := List.flatMap_eq_nil_iff.mpr fun e he => (hes e he).1
  have hreturned : es.flatMap Event.returned = [] := List.flatMap_eq_nil_iff.mpr fun e he => (hes e he).2
  simp only [given, returned, hlog, List.flatMap_append, hgiven, hreturned, List.nil_append, and_self]

end World

namespace Tally

variable {refs refs' : List RegId} {bufs bufs' : List Buf} {r : RegId}

theorem perm (h : Tally refs bufs w) (hrefs : refs'.Perm refs) (hbufs : bufs'.Perm bufs) : Tally refs' bufs' w where
  shared := h.shared.perm hrefs
  balanced := h.balanced.trans (hbufs.symm.append_right _)

/-- Code that leaves counts and contents alone, and logs nothing of them. -/
theorem congr (h : Tally refs bufs w) (hnext : w'.nextRegistry = w.nextRegistry)
    (hregistries : ∀ r, (w'.registries r).strong = (w.registries r).strong ∧
      (w'.registries r).buffers = (w.registries r).buffers)
    (hlog : w.Grows Event.neutral w') : Tally refs bufs w' := by
  obtain ⟨hgiven, hreturned⟩ := World.given_grows hlog
  have hstorage : w'.storage = w.storage := by
    rw [World.storage, hnext]
    exact stored_congr (fun r _ => (hregistries r).2) fun r _ => by rw [World.strong, (hregistries r).1, World.strong]
  refine ⟨?_, ?_⟩
  · rw [hnext]
    exact h.shared.congr fun r _ => (hregistries r).1
  · rw [hgiven, hstorage, hreturned]
    exact h.balanced

theorem of_registries (h : Tally refs bufs w) (hnext : w'.nextRegistry = w.nextRegistry)
    (hregistries : w'.registries = w.registries) (hlog : w.Grows Event.neutral w') : Tally refs bufs w' :=
  h.congr hnext (fun r => by rw [hregistries]; exact ⟨rfl, rfl⟩) hlog

theorem idles (h : Tally refs bufs w) (hw : w.Idles w') : Tally refs bufs w' :=
  h.of_registries hw.nextRegistry hw.registries (hw.log.mono neutral_of_idle)

/-- A registration in which only marks and counts of bytes have moved. -/
theorem setRegistry (h : Tally refs bufs w) {registry : RegistryInner}
    (hstrong : registry.strong = (w.registries r).strong) (hbuffers : registry.buffers = (w.registries r).buffers) :
    Tally refs bufs (w.setRegistry r registry) := by
  refine h.congr ?_ (fun q => ?_) ?_
  · rfl
  · rw [World.setRegistry_registries, Function.update_apply]
    split
    · rename_i hq
      exact ⟨hq ▸ hstrong, hq ▸ hbuffers⟩
    · exact ⟨rfl, rfl⟩
  · exact .of_log rfl

-- ---------------------------------------------------------------------------
-- Drops
-- ---------------------------------------------------------------------------

/-- Buffers are let go of. -/
theorem emitAll (h : Tally refs (bs ++ bufs) w) (u : Bool) :
    Tally refs bufs (w.emitAll (bs.map (.dropBuffer · u))) := by
  refine ⟨h.shared, ?_⟩
  have hgiven : (w.emitAll (bs.map (.dropBuffer · u))).given = w.given := by
    have hnone : (bs.map (.dropBuffer · u)).reverse.flatMap (fun e : Event ws => e.given) = [] :=
      List.flatMap_eq_nil_iff.mpr fun e he => by
        obtain ⟨b, -, rfl⟩ := List.mem_map.mp (List.mem_reverse.mp he)
        rfl
    rw [World.given, World.emitAll_log, List.flatMap_append, hnone]
    rfl
  have hreturned : (w.emitAll (bs.map (.dropBuffer · u))).returned.Perm (bs ++ w.returned) := by
    have hbs : ((bs.map (.dropBuffer · u)).reverse.flatMap (fun e : Event ws => e.returned)).Perm bs := by
      refine ((List.reverse_perm _).flatMap_right _).trans ?_
      rw [List.flatMap_map]
      exact .of_eq (List.flatMap_singleton' bs)
    rw [World.returned, World.emitAll_log, List.flatMap_append]
    exact hbs.append_right _
  rw [hgiven]
  refine h.balanced.trans (List.perm_iff_count.mpr fun b => ?_)
  have hcount := hreturned.count_eq b
  have hstorage : (w.emitAll (bs.map (.dropBuffer · u))).storage = w.storage := rfl
  simp only [List.count_append, hstorage] at hcount ⊢
  omega

/-- A reference goes, and with the last one what is stored. -/
theorem dropRegistryRef (h : Tally (r :: refs) bufs w) (u : Bool) : Tally refs bufs (w.dropRegistryRef r u) := by
  have hr : r < w.nextRegistry := h.shared.known r List.mem_cons_self
  have hpos : 0 < w.strong r := h.shared.pos List.mem_cons_self
  let left := w.setRegistry r { w.registries r with strong := (w.registries r).strong - 1 }
  have hcount : left.strong = Function.update w.strong r (w.strong r - 1) := by
    funext q
    by_cases hq : q = r
    · subst hq
      simp [left, World.strong]
    · simp [left, World.strong, hq]
  have hcontents : (fun q => (left.registries q).buffers) = fun q => (w.registries q).buffers := by
    funext q
    by_cases hq : q = r
    · subst hq
      simp [left]
    · simp [left, hq]
  have hstorage : left.storage = stored (fun q => (w.registries q).buffers)
      (Function.update w.strong r (w.strong r - 1)) w.nextRegistry := by
    rw [World.storage, hcontents, hcount]
    rfl
  have hshared : Shared refs left.strong left.nextRegistry := hcount ▸ h.shared.drop
  unfold World.dropRegistryRef
  dsimp only
  split
  · rename_i hlast
    have hone : w.strong r = 1 := Nat.le_antisymm hlast hpos
    have hleft : Tally refs ((w.registries r).buffers ++ bufs) left := by
      refine ⟨hshared, h.balanced.trans (List.perm_iff_count.mpr fun b => ?_)⟩
      have hcount := (stored_last (fun q => (w.registries q).buffers) hr hone).count_eq b
      have hreturned : left.returned = w.returned := rfl
      rw [hreturned, hstorage]
      simp only [World.storage, List.count_append] at hcount ⊢
      omega
    exact hleft.emitAll u
  · rename_i hmore
    refine ⟨hshared, ?_⟩
    have hsame : left.storage = w.storage :=
      hstorage.trans (stored_drop (fun q => (w.registries q).buffers) (Nat.lt_of_not_le hmore))
    change w.given.Perm (bufs ++ (left.storage ++ w.returned))
    rw [hsame]
    exact h.balanced

/-- A registration is made of buffers that were somewhere else, for its caller and
the driver to refer to. -/
theorem create (h : Tally refs (registry.buffers ++ bufs) w) (hstrong : registry.strong = 2) :
    Tally (w.nextRegistry :: w.nextRegistry :: refs) bufs
      { w.setRegistry w.nextRegistry registry with nextRegistry := w.nextRegistry + 1 } := by
  let made : World ws := { w.setRegistry w.nextRegistry registry with nextRegistry := w.nextRegistry + 1 }
  have hcount : made.strong = Function.update w.strong w.nextRegistry 2 := by
    funext q
    by_cases hq : q = w.nextRegistry
    · subst hq
      simp [made, World.strong, hstrong]
    · simp [made, World.strong, hq]
  have hstorage : made.storage = w.storage ++ registry.buffers := by
    have hold : ∀ q < w.nextRegistry, (made.registries q).buffers = (w.registries q).buffers := by
      intro q hq
      simp [made, Nat.ne_of_lt hq]
    have hnew : (made.registries w.nextRegistry).buffers = registry.buffers := by simp [made]
    rw [World.storage, hcount, ← hnew]
    exact stored_create hold Nat.two_pos
  have hshared : Shared (w.nextRegistry :: w.nextRegistry :: refs) made.strong made.nextRegistry :=
    hcount ▸ h.shared.create 2
  refine ⟨hshared, ?_⟩
  change w.given.Perm (bufs ++ (made.storage ++ w.returned))
  refine h.balanced.trans (List.perm_iff_count.mpr fun b => ?_)
  rw [hstorage]
  simp only [List.count_append]
  omega

/-- Whoever refers to a registration may refer to it again. -/
theorem clone (h : Tally refs bufs w) (hr : r ∈ refs) {registry : RegistryInner}
    (hstrong : registry.strong = (w.registries r).strong + 1) (hbuffers : registry.buffers = (w.registries r).buffers) :
    Tally (r :: refs) bufs (w.setRegistry r registry) := by
  let cloned := w.setRegistry r registry
  have hcount : cloned.strong = Function.update w.strong r (w.strong r + 1) := by
    funext q
    by_cases hq : q = r
    · subst hq
      simp [cloned, World.strong, hstrong]
    · simp [cloned, World.strong, hq]
  have hcontents : (fun q => (cloned.registries q).buffers) = fun q => (w.registries q).buffers := by
    funext q
    by_cases hq : q = r
    · subst hq
      simp [cloned, hbuffers]
    · simp [cloned, hq]
  have hstorage : cloned.storage = w.storage := by
    rw [World.storage, hcontents, hcount]
    exact stored_clone (fun q => (w.registries q).buffers) (h.shared.pos hr)
  refine ⟨hcount ▸ h.shared.clone hr, ?_⟩
  change w.given.Perm (bufs ++ (cloned.storage ++ w.returned))
  rw [hstorage]
  exact h.balanced

/-- A caller gives the driver buffers. -/
theorem give (h : Tally refs bufs w) (hregistries : w'.registries = w.registries)
    (hnext : w'.nextRegistry = w.nextRegistry) (hgiven : w'.given = more ++ w.given)
    (hreturned : w'.returned = w.returned) : Tally refs (more ++ bufs) w' := by
  refine ⟨?_, ?_⟩
  · rw [World.strong_congr hregistries, hnext]
    exact h.shared
  · rw [hgiven, World.storage_congr hregistries hnext, hreturned, List.append_assoc]
    exact h.balanced.append_left more

/-- A caller gets buffers from the driver. -/
theorem take (h : Tally refs (more ++ bufs) w) (hregistries : w'.registries = w.registries)
    (hnext : w'.nextRegistry = w.nextRegistry) (hgiven : w'.given = w.given)
    (hreturned : w'.returned = more ++ w.returned) : Tally refs bufs w' := by
  refine ⟨?_, ?_⟩
  · rw [World.strong_congr hregistries, hnext]
    exact h.shared
  · rw [hgiven, World.storage_congr hregistries hnext, hreturned]
    refine h.balanced.trans (List.perm_iff_count.mpr fun b => ?_)
    simp only [List.count_append]
    omega

end Tally

-- ---------------------------------------------------------------------------
-- Boxes
-- ---------------------------------------------------------------------------

/-- These boxes and the driver's registrations are all there is. -/
def Stowed (boxes : List Boxed) (registrations : List RegId) (w : World ws) : Prop :=
  Tally (boxes.flatMap Boxed.refs ++ registrations) (boxes.flatMap Boxed.bufs) w

namespace Stowed

variable {boxes boxes' : List Boxed} {registrations registrations' : List RegId} {r : RegId}

theorem perm (h : Stowed boxes registrations w) (hboxes : boxes'.Perm boxes) : Stowed boxes' registrations w :=
  Tally.perm h ((hboxes.flatMap_right _).append_right _) (hboxes.flatMap_right _)

/-- Boxes that refer to the same and hold the same. -/
theorem relabel (h : Stowed boxes registrations w)
    (hrefs : (boxes'.flatMap Boxed.refs).Perm (boxes.flatMap Boxed.refs))
    (hbufs : (boxes'.flatMap Boxed.bufs).Perm (boxes.flatMap Boxed.bufs)) : Stowed boxes' registrations w :=
  Tally.perm h (hrefs.append_right _) hbufs

theorem dropBoxed {b : Boxed} (h : Stowed (b :: boxes) registrations w) (u : Bool) :
    Stowed boxes registrations (w.dropBoxed b u) := by
  match b with
  | .buffer (.owned b) =>
    have howned : Tally (boxes.flatMap Boxed.refs ++ registrations) ([b] ++ boxes.flatMap Boxed.bufs) w := h
    exact howned.emitAll u
  | .buffer (.handle hd) =>
    have hcleared : Tally (hd.registry :: (boxes.flatMap Boxed.refs ++ registrations)) (boxes.flatMap Boxed.bufs)
        (w.setRegistry hd.registry ((w.registries hd.registry).release hd.index)) := Tally.setRegistry h rfl rfl
    exact hcleared.dropRegistryRef u
  | .collection r => exact Tally.dropRegistryRef h u
  | .pending (.buffers buffers ..) =>
    have hpending : Tally (boxes.flatMap Boxed.refs ++ registrations) (buffers ++ boxes.flatMap Boxed.bufs) w := h
    exact hpending.emitAll u
  | .pending (.files _) => exact h

theorem dropOptional {b : Option Boxed} (h : Stowed (b.toList ++ boxes) registrations w) (u : Bool) :
    Stowed boxes registrations (w.dropOptional b u) := by
  cases b with
  | none => exact h
  | some b => exact h.dropBoxed u

/-- Whoever refers to a registration may have another that does. -/
theorem clone {b : Boxed} (h : Stowed boxes registrations w) (hr : r ∈ boxes.flatMap Boxed.refs) (hrefs : b.refs = [r])
    (hbufs : b.bufs = []) {registry : RegistryInner} (hstrong : registry.strong = (w.registries r).strong + 1)
    (hbuffers : registry.buffers = (w.registries r).buffers) :
    Stowed (b :: boxes) registrations (w.setRegistry r registry) := by
  have hcloned := Tally.clone h (List.mem_append_left registrations hr) hstrong hbuffers
  refine Tally.perm hcloned (.of_eq ?_) (.of_eq ?_)
  · rw [List.flatMap_cons, hrefs]
    rfl
  · rw [List.flatMap_cons, hbufs]
    rfl

/-- The driver's own references go. -/
theorem dropRegistrations (h : Stowed boxes registrations w) :
    Stowed boxes [] (w.dropRegistrations registrations) := by
  induction registrations generalizing w with
  | nil => exact h
  | cons r registrations ih =>
    refine ih (w := w.dropRegistryRef r true) (Tally.dropRegistryRef ?_ true)
    exact Tally.perm h List.perm_middle.symm (.refl _)

theorem congr (h : Stowed boxes registrations w) (hnext : w'.nextRegistry = w.nextRegistry)
    (hregistries : w'.registries = w.registries) (hlog : w.Grows Event.neutral w') : Stowed boxes registrations w' :=
  Tally.of_registries h hnext hregistries hlog

end Stowed

-- ---------------------------------------------------------------------------
-- Result slots
-- ---------------------------------------------------------------------------

namespace World

section Slots

variable {σ : SlotId} {slot : ResultSlot}

/-- One slot changes. -/
theorem resultBoxes_update (hnext : w'.nextSlot = w.nextSlot)
    (hresults : w'.results = Function.update w.results σ slot) (hσ : σ < w.nextSlot) :
    ((w.results σ).boxes ++ w'.resultBoxes).Perm (slot.boxes ++ w.resultBoxes) := by
  have hboxes : (fun τ => (w'.results τ).boxes) = Function.update (fun τ => (w.results τ).boxes) σ slot.boxes := by
    funext τ
    rw [hresults, Function.update_apply, Function.update_apply]
    split <;> rfl
  rw [resultBoxes, hboxes, hnext]
  exact flatMap_range_update (fun τ => (w.results τ).boxes) hσ slot.boxes

theorem resultBoxes_congr (hnext : w'.nextSlot = w.nextSlot)
    (hcompleted : ∀ σ, (w'.results σ).completed = (w.results σ).completed) : w'.resultBoxes = w.resultBoxes := by
  rw [resultBoxes, hnext]
  exact List.flatMap_congr fun σ _ => by rw [ResultSlot.boxes, hcompleted, ResultSlot.boxes]

/-- A new slot has nothing in it. -/
theorem resultBoxes_new (hnext : w'.nextSlot = w.nextSlot + 1)
    (hresults : w'.results = Function.update w.results w.nextSlot .new) : w'.resultBoxes = w.resultBoxes := by
  have hold : (List.range w.nextSlot).flatMap (fun σ => (w'.results σ).boxes) = w.resultBoxes := by
    refine List.flatMap_congr fun σ hσ => ?_
    rw [hresults, Function.update_of_ne (Nat.ne_of_lt (List.mem_range.mp hσ))]
  have hlast : (w'.results w.nextSlot).boxes = [] := by
    rw [hresults, Function.update_self]
    rfl
  rw [resultBoxes, hnext, List.range_succ, List.flatMap_append, hold, List.flatMap_singleton, hlast, List.append_nil]

end Slots

end World

namespace Stowed

variable {boxes rest : List Boxed} {registrations : List RegId}

/-- A result is left in its slot, or dropped with nobody to take it. -/
theorem fill (p : OpPayload) (completed : CompletedOp)
    (h : Stowed (completed.2.toList ++ (rest ++ w.resultBoxes)) registrations w) (hslot : p.slot < w.nextSlot)
    (hempty : (w.results p.slot).completed = none) (cause : Cause ws) :
    Stowed (rest ++ (w.fill p completed cause).1.resultBoxes) registrations (w.fill p completed cause).1 := by
  have hresults := World.results_fill w p completed cause
  have hboxes := World.resultBoxes_update (World.nextSlot_fill w p completed cause) hresults hslot
  have hnone : (w.results p.slot).boxes = [] := by rw [ResultSlot.boxes, hempty]; rfl
  rw [hnone, List.nil_append] at hboxes
  let noted := (w.emit (.filled p.slot completed (w.results p.slot).waker cause)).setResult p.slot
    { w.results p.slot with completed := some completed, waker := none }
  have hnoted : Stowed (completed.2.toList ++ (rest ++ w.resultBoxes)) registrations noted :=
    h.congr rfl rfl (.congr (.emit w ⟨rfl, rfl⟩) rfl)
  have hguard : ∀ {w' : World ws} {boxes}, Stowed boxes registrations w' →
      Stowed boxes registrations (w'.dropGuard p.sequential) := fun h =>
    h.congr (World.nextRegistry_dropGuard ..) (World.registries_dropGuard ..) (.of_log (World.log_dropGuard ..))
  have hfill : (w.fill p completed cause).1 = (noted.dropSlotRef p.slot).dropGuard p.sequential := rfl
  cases hawaited : (w.results p.slot).awaited with
  | true =>
    have hkept : noted.dropSlotRef p.slot = noted := by
      simp only [World.dropSlotRef, noted, World.setResult_results, Function.update_self, hawaited, if_true]
    rw [hawaited] at hboxes
    rw [hfill] at hboxes ⊢
    rw [hkept] at hboxes ⊢
    refine hguard (hnoted.perm ?_)
    refine (hboxes.append_left rest).trans ?_
    exact List.perm_append_comm_assoc ..
  | false =>
    have hdropped : noted.dropSlotRef p.slot = (noted.setResult p.slot
        { noted.results p.slot with completed := none }).dropOptional completed.2 true := by
      simp only [World.dropSlotRef, noted, World.setResult_results, Function.update_self, hawaited]
      rfl
    rw [hawaited] at hboxes
    rw [hfill] at hboxes ⊢
    rw [hdropped] at hboxes ⊢
    refine hguard (Stowed.perm (dropOptional (b := completed.2) ?_ true) (hboxes.append_left rest))
    exact hnoted.congr rfl rfl (.of_log rfl)

theorem setInner (h : Stowed boxes registrations w) (d : DriverInner ws) : Stowed boxes registrations (w.setInner d) :=
  h.congr rfl rfl (.of_log rfl)

theorem raiseTransfer (h : Stowed boxes registrations w) (p : OpPayload) (result : Except Error Transferred)
    (boxed : Option Boxed) : Stowed boxes registrations (w.raiseTransfer p result boxed) := by
  unfold World.raiseTransfer
  split
  · exact Tally.setRegistry h rfl rfl
  · exact h

/-- What a completed operation hands back is what it carried, or a collection of
what it carried. -/
theorem settleRegistration {p : OpPayload} (h : Stowed (p.boxes ++ rest) w.inner.registrations w) (hp : p.Plain)
    (result : Except Error Transferred) :
    Stowed ((w.settleRegistration p result).2.toList ++ rest)
      (w.settleRegistration p result).1.inner.registrations (w.settleRegistration p result).1 := by
  rw [OpPayload.boxes] at h
  rcases w.settleRegistration_cases p result with
    ⟨hpending, hsettle⟩ | ⟨pending, e, hpending, -, hsettle⟩ | ⟨files, n, hpending, -, hsettle⟩ |
    ⟨buffers, pointers, extents, watermarks, descriptors, n, hpending, -, hsettle⟩
  all_goals rw [hpending] at h
  · rw [hsettle]
    simpa using h
  all_goals
    rw [hp (by rw [hpending]; rfl)] at h
    rw [hsettle]
  · exact setInner h _
  · rw [hp (by rw [hpending]; rfl)]
    refine setInner (relabel h ?_ ?_) _
    · exact .refl _
    · exact .refl _
  · let registry := RegistryInner.new buffers pointers extents watermarks descriptors
    let made : World ws := { w.setRegistry w.nextRegistry { registry with strong := registry.strong + 1 } with
      nextRegistry := w.nextRegistry + 1 }
    have hmade : Tally (w.nextRegistry :: w.nextRegistry :: (rest.flatMap Boxed.refs ++ w.inner.registrations))
        (rest.flatMap Boxed.bufs) made := Tally.create h rfl
    have hadopted : Stowed (.collection w.nextRegistry :: rest) (w.nextRegistry :: w.inner.registrations) made :=
      Tally.perm hmade (List.perm_middle.cons _) (.refl _)
    have hretired : (w.nextRegistry :: (w.inner.retiredBufferRegistrations ++ w.inner.bufferRegistration.toList)).Perm
        (w.nextRegistry :: w.inner.registrations) := List.perm_append_comm.cons _
    exact setInner (Tally.perm hadopted (hretired.append_left _) (.refl _)) _

theorem refresh {boxed : Option Boxed} (h : Stowed (boxed.toList ++ rest) registrations w) :
    Stowed ((w.refresh boxed).toList ++ rest) registrations w := by
  unfold World.refresh
  split
  · exact h
  · exact h

theorem resolveCompletion {p : OpPayload} (h : Stowed (p.boxes ++ (rest ++ w.resultBoxes)) w.inner.registrations w)
    (hslot : p.slot < w.nextSlot) (hempty : (w.results p.slot).completed = none) (hp : p.Plain) (cqe : Cqe ws) :
    Stowed (rest ++ (w.resolveCompletion p cqe).1.resultBoxes) (w.resolveCompletion p cqe).1.inner.registrations
      (w.resolveCompletion p cqe).1 := by
  have hsettled := h.settleRegistration hp (World.completionResult cqe.outcome)
  have hnext := w.nextSlot_settleRegistration p (World.completionResult cqe.outcome)
  have hresults := World.results_settleRegistration (w := w) p (World.completionResult cqe.outcome)
  rw [World.resolveCompletion_inner]
  simp only [World.resolveCompletion]
  generalize w.settleRegistration p (World.completionResult cqe.outcome) = settled at *
  obtain ⟨settled, boxed⟩ := settled
  let raised := settled.raiseTransfer p (World.completionResult cqe.outcome) boxed
  have hraisedResults : raised.results = w.results := (World.results_raiseTransfer ..).trans hresults
  have hraisedNext : raised.nextSlot = w.nextSlot := (World.nextSlot_raiseTransfer ..).trans hnext
  have hboxes : raised.resultBoxes = w.resultBoxes :=
    World.resultBoxes_congr hraisedNext fun σ => by rw [hraisedResults]
  refine fill p (World.completionResult cqe.outcome, raised.refresh boxed) ?_ ?_ ?_ _
  · rw [hboxes]
    exact refresh (hsettled.raiseTransfer p _ boxed)
  · exact hraisedNext ▸ hslot
  · exact hraisedResults ▸ hempty

theorem resolveAbandoned {p : OpPayload} (h : Stowed (p.boxes ++ (rest ++ w.resultBoxes)) registrations w)
    (hslot : p.slot < w.nextSlot) (hempty : (w.results p.slot).completed = none) (hp : p.Plain) :
    Stowed (rest ++ (w.resolveAbandoned p).1.resultBoxes) registrations (w.resolveAbandoned p).1 := by
  refine fill p (World.abandoned p) ?_ hslot hempty .abandoned
  have hboxes : p.boxes = (World.abandoned p).2.toList := by
    rw [OpPayload.boxes, World.abandoned]
    cases hpending : p.pendingRegistration with
    | none => simp
    | some pending =>
      rw [hp (by rw [hpending]; rfl)]
      rfl
  exact hboxes ▸ h

end Stowed

-- ---------------------------------------------------------------------------
-- The cargo
-- ---------------------------------------------------------------------------

section Cargo

variable {handles handles' : List RegisteredBuf} {collections collections' : List RegId} {ps ps' : List OpPayload}
  {p : OpPayload} {futures : SlotId → Option (Future ws)} {completed : CompletedOp} {rest : List Boxed}
  {registrations : List RegId} {hd : RegisteredBuf} {r : RegId}

/-- What one operation carries, set apart. -/
theorem cargo_cons (handles : List RegisteredBuf) (collections : List RegId) (p : OpPayload) (ps : List OpPayload)
    (w : World ws) : (cargo handles collections (p :: ps) w).Perm (p.boxes ++
      ((handles.map (fun h => .buffer (.handle h)) ++ (collections.map .collection ++ ps.flatMap OpPayload.boxes)) ++
        w.resultBoxes)) := by
  refine List.perm_iff_count.mpr fun b => ?_
  simp only [cargo, List.flatMap_cons, List.count_append]
  omega

/-- One handle set apart. -/
theorem cargo_handles (h : handles'.Perm (hd :: handles)) (w : World ws) :
    (cargo handles' collections ps w).Perm (.buffer (.handle hd) :: cargo handles collections ps w) :=
  (h.map fun h => Boxed.buffer (.handle h)).append_right _

/-- One collection set apart. -/
theorem cargo_collections (h : collections'.Perm (r :: collections)) (w : World ws) :
    (cargo handles collections' ps w).Perm (.collection r :: cargo handles collections ps w) := by
  have hmapped := ((h.map Boxed.collection).append_right (ps.flatMap OpPayload.boxes ++ w.resultBoxes)).append_left
    (handles.map fun h => Boxed.buffer (.handle h))
  exact hmapped.trans List.perm_middle

/-- Whoever holds a collection refers to its registration. -/
theorem mem_refs_cargo {i : Nat} (h : collections[i]? = some r) :
    r ∈ (cargo handles collections ps w).flatMap Boxed.refs := by
  refine List.mem_flatMap.mpr ⟨.collection r, ?_, List.mem_singleton_self r⟩
  exact List.mem_append_right _ (List.mem_append_left _ (List.mem_map_of_mem (List.mem_of_getElem? h)))

/-- A drop reaches no payload and no slot. -/
theorem cargo_dropOptional (w : World ws) (b : Option Boxed) (u : Bool) :
    cargo handles collections ps (w.dropOptional b u) = cargo handles collections ps w := by
  rw [cargo, World.resultBoxes_congr (World.nextSlot_dropOptional ..) fun σ => by rw [World.results_dropOptional], cargo]

theorem cargo_assoc (handles : List RegisteredBuf) (collections : List RegId) (ps : List OpPayload) (w : World ws) :
    cargo handles collections ps w =
      (handles.map (fun h => .buffer (.handle h)) ++ (collections.map .collection ++ ps.flatMap OpPayload.boxes)) ++
        w.resultBoxes := by
  simp only [cargo, List.append_assoc]

namespace Stowed

/-- A closed ring leaves nothing in a payload, and the driver lets go of its
registrations. -/
theorem release (h : Stowed (cargo handles collections w.inner.slab.payloads w) w.inner.registrations w)
    (hslots : Slotted w.inner.slab.payloads w futures) (hplain : ∀ p ∈ w.inner.slab.payloads, p.Plain) :
    Stowed (cargo handles collections [] w.release.1) w.release.1.inner.registrations w.release.1 := by
  have hall : Stowed (cargo handles collections [] w.abandonAll) w.inner.registrations w.abandonAll := by
    refine (World.abandonAll_induction (P := fun ps w' => Stowed (cargo handles collections ps w')
      w.inner.registrations w' ∧ Slotted ps w' futures ∧ ∀ p ∈ ps, p.Plain) w ⟨?_, ?_, hplain⟩ ?_).1
    · exact h.setInner _
    · exact hslots.of_results rfl rfl
    · rintro p ps w' ⟨hstowed, hs, hp⟩
      refine ⟨?_, ?_, fun q hq => hp q (List.mem_cons_of_mem _ hq)⟩
      · rw [cargo_assoc]
        exact (hstowed.perm (cargo_cons ..).symm).resolveAbandoned (hs.bounded p List.mem_cons_self)
          (hs.empty p List.mem_cons_self) (hp p List.mem_cons_self)
      · exact hs.fill (by simp) (World.results_resolveAbandoned w' p)
  obtain ⟨hresults, hnext, -, -⟩ := w.release_frame
  have hboxes : cargo handles collections [] w.release.1 = cargo handles collections [] w.abandonAll := by
    rw [cargo, World.resultBoxes_congr hnext fun σ => by rw [hresults], cargo]
  have hregistrations : w.release.1.inner.registrations = [] := by
    rw [World.release_inner]
    rfl
  have hrefers : w.abandonAll.inner.registrations = w.inner.registrations := by
    rw [World.abandonAll, World.inner_resolveAllAbandoned]
    rfl
  have hdropped : Stowed (cargo handles collections [] w.abandonAll) []
      (w.abandonAll.dropRegistrations w.abandonAll.inner.registrations) := (hrefers.symm ▸ hall).dropRegistrations
  rw [hboxes, hregistrations]
  exact hdropped.congr rfl rfl (.congr (.map _ (fun _ => ⟨rfl, rfl⟩) _) rfl)

/-- Idle code moves nothing. -/
theorem of_idle (h : Stowed (cargo handles collections ps w) registrations w) (hhandles : handles'.Perm handles)
    (hps : ps'.Perm ps) (hnext : w'.nextSlot = w.nextSlot)
    (hcompleted : ∀ σ, (w'.results σ).completed = (w.results σ).completed) (hregistries : w'.registries = w.registries)
    (hnextRegistry : w'.nextRegistry = w.nextRegistry) (hlog : w.Grows Event.neutral w') :
    Stowed (cargo handles' collections ps' w') registrations w' := by
  refine (h.congr hnextRegistry hregistries hlog).perm ?_
  rw [cargo, World.resultBoxes_congr hnext hcompleted]
  exact (hhandles.map _).append (((hps.flatMap_right _).append_right _).append_left _)

/-- A request moves a handle into its payload, and gives the driver the rest of
what the payload carries. -/
theorem accept (h : Stowed (cargo handles collections ps w) registrations w)
    (hhandles : handles.Perm (p.handle.toList ++ handles')) (hps : ps'.Perm (p :: ps))
    (hnext : w'.nextSlot = w.nextSlot + 1) (hresults : w'.results = Function.update w.results w.nextSlot .new)
    (hregistries : w'.registries = w.registries) (hnextRegistry : w'.nextRegistry = w.nextRegistry)
    (hgiven : w'.given = p.boxes.flatMap Boxed.bufs ++ w.given) (hreturned : w'.returned = w.returned) :
    Stowed (cargo handles' collections ps' w') registrations w' := by
  have hgive := Tally.give h hregistries hnextRegistry hgiven hreturned
  have hboxes : (cargo handles' collections ps' w').Perm (p.boxes ++ cargo handles' collections ps w) := by
    refine List.perm_iff_count.mpr fun b => ?_
    have hcount := (hps.flatMap_right OpPayload.boxes).count_eq b
    simp only [cargo, List.flatMap_cons, List.count_append, World.resultBoxes_new hnext hresults] at hcount ⊢
    omega
  have hold : (cargo handles collections ps w).Perm
      (p.handle.toList.map (fun h => .buffer (.handle h)) ++ cargo handles' collections ps w) := by
    refine List.perm_iff_count.mpr fun b => ?_
    have hcount := (hhandles.map fun h => Boxed.buffer (.handle h)).count_eq b
    simp only [cargo, List.map_append, List.count_append] at hcount ⊢
    omega
  refine Tally.perm hgive (List.Perm.append_right registrations ?_) ?_
  · refine ((hboxes.flatMap_right Boxed.refs).trans ?_).trans (hold.flatMap_right Boxed.refs).symm
    rw [List.flatMap_append, List.flatMap_append, p.refs_boxes]
  · refine (hboxes.flatMap_right Boxed.bufs).trans ?_
    rw [List.flatMap_append]
    refine List.Perm.append_left _ ((hold.flatMap_right Boxed.bufs).trans ?_).symm
    rw [List.flatMap_append, bufs_handles, List.nil_append]

/-- A read may mark what it received, in the registration and in the handle. -/
theorem recordRead (h : Stowed (completed.2.toList.flatMap Boxed.kept ++ rest) registrations w) (future : Future ws) :
    Stowed ((w.recordRead future completed).2.toList.flatMap Boxed.kept ++ rest) registrations
      (w.recordRead future completed).1 := by
  unfold World.recordRead
  split
  · split
    · exact Tally.setRegistry h rfl rfl
    · exact h
  · exact h

/-- A result is received: the application has the handle or the collection in it,
and the rest has left the driver. -/
theorem deliver (h : Stowed (cargo handles collections ps w) registrations w) {σ : SlotId} (hσ : σ < w.nextSlot)
    (hfilled : (w.results σ).completed = some completed) (future : Future ws) :
    Stowed ((w.deliver σ future completed).2.toList.flatMap Boxed.kept ++
      cargo handles collections ps (w.deliver σ future completed).1) registrations
      (w.deliver σ future completed).1 := by
  let emptied := (w.setResult σ { w.results σ with completed := none, awaited := false }).emit (.delivered σ completed)
  have htaken : w.resultBoxes.Perm (completed.2.toList ++ emptied.resultBoxes) := by
    have hboxes : ((w.results σ).boxes ++ emptied.resultBoxes).Perm (_ ++ w.resultBoxes) :=
      World.resultBoxes_update rfl rfl hσ
    rw [ResultSlot.boxes, ResultSlot.boxes, hfilled] at hboxes
    exact hboxes.symm
  have hcargo : (cargo handles collections ps w).Perm (completed.2.toList ++ cargo handles collections ps emptied) := by
    refine List.perm_iff_count.mpr fun b => ?_
    have hcount := htaken.count_eq b
    simp only [cargo, List.count_append] at hcount ⊢
    omega
  have htake : Tally ((completed.2.toList ++ cargo handles collections ps emptied).flatMap Boxed.refs ++ registrations)
      ((cargo handles collections ps emptied).flatMap Boxed.bufs) emptied := by
    have hheld : Tally ((completed.2.toList ++ cargo handles collections ps emptied).flatMap Boxed.refs ++ registrations)
        (completed.2.toList.flatMap Boxed.bufs ++ (cargo handles collections ps emptied).flatMap Boxed.bufs) w :=
      Tally.perm (h.perm hcargo.symm) (.refl _) (.of_eq List.flatMap_append.symm)
    exact hheld.take rfl rfl rfl rfl
  have hemptied : Stowed (completed.2.toList.flatMap Boxed.kept ++ cargo handles collections ps emptied) registrations
      emptied := by
    refine Tally.perm htake (.of_eq ?_) (.of_eq ?_)
    · rw [List.flatMap_append, List.flatMap_append, Boxed.refs_kept]
    · rw [List.flatMap_append, Boxed.bufs_kept, List.nil_append]
  have hboxes : (w.deliver σ future completed).1.resultBoxes = emptied.resultBoxes := by
    obtain ⟨_, _, hdeliver⟩ := w.deliver_eq σ future completed
    rw [hdeliver]
    rfl
  obtain ⟨_, hadvance⟩ := World.advanceOnSuccess_eq (emptied.recordRead future completed).1 future.sequential completed.1
  rw [cargo, hboxes]
  refine (hemptied.recordRead future).congr ?_ ?_ (.of_log ?_)
  all_goals exact (congrArg _ hadvance).trans rfl

/-- A slot is emptied, and what was in it dropped. -/
theorem forget (h : Stowed (cargo handles collections ps w) registrations w) {σ : SlotId} (hσ : σ < w.nextSlot)
    (u : Bool) : Stowed (cargo handles collections ps (w.dropFutureRef σ u)) registrations (w.dropFutureRef σ u) := by
  let emptied := w.setResult σ { w.results σ with completed := none, awaited := false }
  have hboxes : ((w.results σ).boxes ++ emptied.resultBoxes).Perm (_ ++ w.resultBoxes) :=
    World.resultBoxes_update rfl rfl hσ
  have hdropped : (w.dropFutureRef σ u).resultBoxes = emptied.resultBoxes :=
    World.resultBoxes_congr (World.nextSlot_dropOptional ..) fun τ => by
      rw [World.dropFutureRef, World.results_dropOptional]
  refine dropOptional (b := (w.results σ).completed.bind (·.2)) ?_ u
  have hemptied : Stowed (cargo handles collections ps w) registrations emptied := h.congr rfl rfl (.of_log rfl)
  refine hemptied.perm (List.perm_iff_count.mpr fun b => ?_)
  have hcount := hboxes.count_eq b
  simp only [ResultSlot.boxes, cargo, List.count_append, hdropped, Option.bind_none, Option.toList_none,
    List.count_nil] at hcount ⊢
  omega

end Stowed

/-- What a resolved future leaves with the application. -/
theorem cargo_receive (s : Sys ws) (boxed : Option Boxed) (ps : List OpPayload) (w : World ws) :
    (cargo (s.receive boxed).handles (s.receive boxed).collections ps w).Perm
      (boxed.toList.flatMap Boxed.kept ++ cargo s.handles s.collections ps w) := by
  refine List.perm_iff_count.mpr fun b => ?_
  match boxed with
  | none | some (.buffer (.owned _)) | some (.pending (.files _)) | some (.pending (.buffers ..)) => rfl
  | some (.buffer (.handle _)) | some (.collection _) =>
    simp only [Sys.receive, cargo, Boxed.kept, List.map_append, List.map_cons, List.map_nil, List.flatMap_cons,
      List.flatMap_nil, Option.toList_some, List.count_append, List.append_nil]
    omega

end Cargo

-- ---------------------------------------------------------------------------
-- Every run
-- ---------------------------------------------------------------------------

def Sys.cargo (s : Sys ws) : List Boxed := Runtime.cargo s.handles s.collections s.payloads s.world

def Sys.Stowed (s : Sys ws) : Prop := Runtime.Stowed s.cargo s.world.inner.registrations s.world

/-- What is given shows in the trace. -/
theorem World.given_trace (w : World ws) : w.given = w.trace.flatMap Event.given := by
  rw [given, trace]
  induction w.log with
  | nil => rfl
  | cons e log ih =>
    cases htraced : e.traced with
    | true => rw [List.filter_cons_of_pos htraced, List.flatMap_cons, List.flatMap_cons, ih]
    | false =>
      have hnone : e.given = [] := by cases e <;> first | rfl | cases htraced
      rw [List.filter_cons_of_neg (by simp [htraced]), List.flatMap_cons, hnone, List.nil_append, ih]

theorem Accepted.given (h : Accepted s s' t p e f) :
    s'.world.given = p.boxes.flatMap Boxed.bufs ++ s.world.given := by
  have hstarted : (p.sequential.toList.map fun g =>
      (.seqStarted g s.world.nextSlot (s.world.files g).cursor : Event ws)).flatMap Event.given = [] := by
    rw [List.flatMap_map]
    exact List.flatMap_eq_nil_iff.mpr fun _ _ => rfl
  rw [World.given_trace, h.trace, List.flatMap_append, hstarted, List.flatMap_cons, World.given_trace]
  rfl

theorem RegistryInner.claim_refers {registry : RegistryInner} (h : registry.claim r index = .ok (claimed, hd)) :
    hd.registry = r ∧ claimed.strong = registry.strong + 1 ∧ claimed.buffers = registry.buffers := by
  unfold claim at h
  split at h
  · cases h
  split at h
  · cases h
  obtain ⟨rfl, rfl⟩ := Prod.mk.inj (Except.ok.inj h)
  exact ⟨rfl, rfl, rfl⟩

theorem returned_starts (h : w.Grows Event.starts w') : w'.returned = w.returned := by
  obtain ⟨es, hlog, hes⟩ := h
  have hnone : es.flatMap Event.returned = [] := by
    refine List.flatMap_eq_nil_iff.mpr fun e he => ?_
    rcases hes e he with hidle | ⟨t, p, files, rfl⟩
    · exact (neutral_of_idle e hidle).2
    · rfl
  rw [World.returned, hlog, List.flatMap_append, hnone]
  rfl

namespace Sys.Stowed

theorem step (hb : Books s) (hj : Orderly s) (h : s.Stowed) (hs : s.step a = some s') : s'.Stowed := by
  obtain ⟨-, hslots, hplain⟩ := hj
  -- Nothing moves beside the world, and nothing in it but the log.
  have hidle : ∀ {s' : Sys ws}, s'.world.inner.slab.payloadAt = s.world.inner.slab.payloadAt →
      s'.world.inner.registrations = s.world.inner.registrations → Beside s s' → s'.world.nextSlot = s.world.nextSlot →
      (∀ σ, (s'.world.results σ).completed = (s.world.results σ).completed) →
      s'.world.registries = s.world.registries → s'.world.nextRegistry = s.world.nextRegistry →
      s.world.Grows Event.neutral s'.world → s'.Stowed := by
    intro s' hpayloads hregistrations hbeside hnext hcompleted hregistries hnextRegistry hlog
    rw [Sys.Stowed, hregistrations, Sys.cargo, hbeside.collections]
    exact Runtime.Stowed.of_idle h hbeside.handles (Sys.payloads_same hpayloads) hnext hcompleted hregistries
      hnextRegistry hlog
  cases step_deed hb.noneDescribed hs with
  | idled hworld hbeside _ =>
    exact hidle hworld.inner.payloadAt hworld.inner.registrations hbeside hworld.nextSlot
      (fun _ => by rw [hworld.results]) hworld.registries hworld.nextRegistry (hworld.log.mono neutral_of_idle)
  | accepted hacc hlog hcollections _ =>
    have hregistrations : s'.world.inner.registrations = s.world.inner.registrations := by
      simp only [DriverInner.registrations, hacc.bufferRegistration, hacc.retiredBufferRegistrations]
    rw [Sys.Stowed, hregistrations, Sys.cargo, hcollections]
    exact Runtime.Stowed.accept h hacc.handles hacc.payloads hacc.nextSlot hacc.results hacc.registries
      hacc.nextRegistry hacc.given (returned_starts hlog)
  | @polled σ _ waker =>
    refine hidle rfl rfl ⟨rfl, .refl _, rfl⟩ rfl (fun τ => ?_) rfl rfl ?_
    · by_cases hτ : τ = σ
      · subst hτ
        simp [Sys.withWorld, World.pollPending]
      · simp [Sys.withWorld, World.pollPending, hτ]
    · refine (s.world.grows_pollPending σ waker s.held).mono ?_
      rintro e (⟨old, -, rfl⟩ | rfl)
      · exact ⟨rfl, rfl⟩
      · exact ⟨rfl, rfl⟩
  | @delivered σ future completed _ hfuture hfilled =>
    have hdelivered := Runtime.Stowed.deliver h (hslots.future_lt σ future hfuture) hfilled future
    rw [Sys.Stowed, Sys.receive_world, World.inner_deliver]
    refine hdelivered.perm ((cargo_receive _ _ _ _).trans (List.Perm.append_left _ (.of_eq ?_)))
    rw [Sys.payloads, Sys.receive_world, World.inner_deliver]
    rfl
  | @forgotten σ future _ _ w detached hfuture hidles hworld hfutures hhandles hcollections hpc =>
    have hinner : s'.world.inner = w.inner := by
      rw [hworld, World.inner_dropFutureRef]
      rfl
    have hpayloads : s'.world.inner.slab.payloadAt = s.world.inner.slab.payloadAt := hinner ▸ hidles.inner.payloadAt
    have hregistrations : s'.world.inner.registrations = s.world.inner.registrations :=
      hinner ▸ hidles.inner.registrations
    have hlogged : Runtime.Stowed (Runtime.cargo s.handles s.collections s'.payloads (w.emit (.futureDropped σ detached)))
        s.world.inner.registrations (w.emit (.futureDropped σ detached)) := by
      refine Runtime.Stowed.of_idle h (.refl _) (Sys.payloads_same hpayloads) hidles.nextSlot
        (fun _ => by rw [World.emit_results, hidles.results]) hidles.registries hidles.nextRegistry ?_
      exact (hidles.log.mono neutral_of_idle).trans (.emit w ⟨rfl, rfl⟩)
    have hσ : σ < w.nextSlot := hidles.nextSlot ▸ hslots.future_lt σ future hfuture
    rw [Sys.Stowed, hregistrations, Sys.cargo, hhandles, hcollections, hworld]
    exact hlogged.forget hσ s.held
  | @checkedOut i r index registry hd hcollection hclaim =>
    obtain ⟨hregistry, hstrong, hbuffers⟩ := RegistryInner.claim_refers hclaim
    have hcloned := Runtime.Stowed.clone (b := .buffer (.handle hd)) h (mem_refs_cargo hcollection)
      (congrArg (fun r => [r]) hregistry) rfl hstrong hbuffers
    exact hcloned.perm (cargo_handles (List.perm_append_singleton hd s.handles) _)
  | @filled i hd len hhandle =>
    have hregistries : (s.handles.set i { hd with initialized := len }).map (·.registry) = s.handles.map (·.registry) := by
      obtain ⟨hlt, rfl⟩ := List.getElem?_eq_some_iff.mp hhandle
      rw [List.map_set]
      have hlt' : i < (s.handles.map (·.registry)).length := by simpa using hlt
      simpa using List.set_getElem_self hlt'
    have hmarked : Runtime.Stowed s.cargo s.world.inner.registrations
        (s.world.setRegistry hd.registry ((s.world.registries hd.registry).setInitialized hd.index len)) :=
      Tally.setRegistry h rfl rfl
    let marked := s.world.setRegistry hd.registry ((s.world.registries hd.registry).setInitialized hd.index len)
    have hcopied : Runtime.Stowed s.cargo s.world.inner.registrations
        (marked.emit (.copied hd.registry hd.index len)) := hmarked.congr rfl rfl (.emit marked ⟨rfl, rfl⟩)
    refine hcopied.relabel (.of_eq ?_) (.of_eq ?_)
    · simp only [Sys.cargo, Runtime.cargo, List.flatMap_append, refs_handles, hregistries]
      rfl
    · simp only [Sys.cargo, Runtime.cargo, List.flatMap_append, bufs_handles]
      rfl
  | @handleDropped i hd hhandle =>
    obtain ⟨hlt, rfl⟩ := List.getElem?_eq_some_iff.mp hhandle
    have herased := h.perm (cargo_handles (List.getElem_cons_eraseIdx_perm hlt).symm s.world).symm
    rw [Sys.Stowed, Sys.cargo, Sys.payloads, World.inner_dropHandle]
    exact (herased.dropBoxed s.held).perm (.of_eq (cargo_dropOptional s.world (some (.buffer (.handle _))) s.held))
  | @collectionCloned i r hcollection =>
    let cloned := { s.world.registries r with strong := (s.world.registries r).strong + 1 }
    have hcloned : Runtime.Stowed (.collection r :: s.cargo) s.world.inner.registrations (s.world.setRegistry r cloned) :=
      Runtime.Stowed.clone h (mem_refs_cargo hcollection) rfl rfl rfl rfl
    exact hcloned.perm (cargo_collections (List.perm_append_singleton r s.collections) _)
  | @collectionDropped i r hcollection =>
    obtain ⟨hlt, rfl⟩ := List.getElem?_eq_some_iff.mp hcollection
    have herased := h.perm (cargo_collections (List.getElem_cons_eraseIdx_perm hlt).symm s.world).symm
    rw [Sys.Stowed, Sys.cargo, Sys.payloads, World.inner_dropRegistryRef]
    exact (herased.dropBoxed s.held).perm (.of_eq (cargo_dropOptional s.world (some (.collection _)) s.held))
  | waited _ hworld hbeside _ =>
    obtain ⟨_, _, hinner⟩ := hworld.inner
    refine hidle ?_ ?_ hbeside hworld.nextSlot (fun _ => by rw [hworld.results]) hworld.registries hworld.nextRegistry ?_
    · rw [hinner]
    · rw [hinner]
      rfl
    · refine hworld.log.mono ?_
      rintro e ⟨_, _, -, rfl⟩
      exact ⟨rfl, rfl⟩
  | @resolved task loop wakers cqe rest op answers w hpc hring hkind hcell hw =>
    let resolved := s.driverStep (w.resolveCompletion op.payload cqe).1
      (.reaping task loop (wakers ++ (w.resolveCompletion op.payload cqe).2.toList))
    have hperm : s.payloads.Perm (op.payload :: resolved.payloads) :=
      Sys.payloads_resolved hkind hcell (by simp [resolved, Sys.driverStep, hw])
    have hmem : op.payload ∈ s.payloads := hperm.mem_iff.mpr List.mem_cons_self
    have htaken : Runtime.Stowed (Runtime.cargo s.handles s.collections (op.payload :: resolved.payloads) w)
        w.inner.registrations w := by
      rw [hw]
      exact Runtime.Stowed.of_idle h (.refl _) hperm.symm rfl (fun _ => rfl) rfl rfl (.of_log rfl)
    have hresults : w.results = s.world.results := by rw [hw]; rfl
    have hnext : w.nextSlot = s.world.nextSlot := by rw [hw]; rfl
    rw [Sys.Stowed, Sys.cargo, cargo_assoc]
    refine (htaken.perm (cargo_cons ..).symm).resolveCompletion ?_ ?_ ?_ cqe
    · exact hnext ▸ hslots.bounded _ hmem
    · exact hresults ▸ hslots.empty _ hmem
    · exact hplain _ _ (OpSlab.payloadAt_of_cell hcell)
  | @released task next answers w hpc hsealed hw =>
    have hslab : w.inner.slab = s.world.inner.slab := by rw [hw]; rfl
    have hbefore : Runtime.Stowed (Runtime.cargo s.handles s.collections w.inner.slab.payloads w) w.inner.registrations
        w := by
      rw [hw]
      exact Runtime.Stowed.of_idle h (.refl _) (.refl _) rfl (fun _ => rfl) rfl rfl (.of_log rfl)
    have hslotted : Runtime.Slotted w.inner.slab.payloads w s.futures := by
      rw [hslab]
      exact hslots.of_results (by rw [hw]; rfl) (by rw [hw]; rfl)
    have hreleased := hbefore.release hslotted fun p hp => by
      obtain ⟨k, hk⟩ := OpSlab.mem_payloads.mp (hslab ▸ hp)
      exact hplain k p hk
    have hnil : (s.driverStep (w.release.1.setInner w.release.1.inner.takeReports.1)
        (.released task w.release.2 w.release.1.inner.takeReports.2)).payloads = [] := by
      simp only [Sys.payloads, Sys.driverStep, World.setInner_inner, DriverInner.takeReports, World.release_inner]
      exact OpSlab.payloads_drain _
    rw [Sys.Stowed, Sys.cargo, hnil]
    exact hreleased.setInner _

theorem of_initial (hs : s.Initial) : s.Stowed := by
  have hpayloads : s.payloads = [] := by
    rw [Sys.payloads, hs.inner]
    exact OpSlab.payloads_new
  have hcargo : s.cargo = [] := by
    simp [Sys.cargo, Runtime.cargo, hs.handles, hs.collections, hpayloads, World.resultBoxes, hs.nextSlot]
  have hregistrations : s.world.inner.registrations = [] := by
    rw [hs.inner]
    rfl
  rw [Sys.Stowed, hcargo, hregistrations]
  refine ⟨?_, ?_⟩
  · rw [hs.nextRegistry]
    exact .nil _
  · simp [World.given, World.returned, World.storage, stored, hs.log, hs.nextRegistry]

theorem of_reachable (hr : (systemMachine ws).Reachable s) : s.Stowed :=
  hr.invariant (fun _ => of_initial) fun _ _ _ hr h _ hs =>
    step (books_of_reachable hr) ((kept_orderly _).reachable hr) h hs

end Sys.Stowed

/-- Once it is torn down the driver refers to no registration. -/
def Sys.Unregisters (s : Sys ws) : Prop := s.world.inner.tornDown = true → s.world.inner.registrations = []

namespace Sys.Unregisters

/-- Code that changes neither the mode nor the registrations. -/
theorem congr (h : s.Unregisters) (htorn : s'.world.inner.tornDown = s.world.inner.tornDown)
    (hregistrations : s'.world.inner.registrations = s.world.inner.registrations) : s'.Unregisters := fun hdone =>
  hregistrations.trans (h (htorn.symm.trans hdone))

theorem of_inner (h : s.Unregisters) (hinner : s'.world.inner = s.world.inner) : s'.Unregisters :=
  h.congr (by rw [hinner]) (by rw [hinner])

theorem idles (h : s.Unregisters) (hidles : s.world.inner.Idles s'.world.inner) : s'.Unregisters :=
  h.congr (congrArg (fun waiting => waiting.2.2) hidles.waiting) hidles.registrations

theorem step (hb : Books s) (h : s.Unregisters) (hs : s.step a = some s') : s'.Unregisters := by
  cases step_deed hb.noneDescribed hs with
  | idled hworld _ _ => exact h.idles hworld.inner
  | accepted hacc _ _ _ =>
    refine h.congr hacc.tornDown ?_
    simp only [DriverInner.registrations, hacc.bufferRegistration, hacc.retiredBufferRegistrations]
  | delivered => exact h.of_inner (by rw [Sys.receive_world, World.inner_deliver])
  | forgotten _ _ hidles hworld =>
    refine h.idles ?_
    rw [hworld, World.inner_dropFutureRef]
    exact hidles.inner
  | waited _ hworld _ _ =>
    obtain ⟨_, _, hinner⟩ := hworld.inner
    refine h.congr ?_ ?_
    · rw [hinner]
    · rw [hinner]
      rfl
  | @resolved task loop wakers cqe rest op answers w hpc hring hkind hcell hw =>
    intro htorn
    have hopen : s.world.inner.tornDown = false := hb.tornDown.trans (hb.open_of_completions hring)
    have hstays : (w.resolveCompletion op.payload cqe).1.inner.tornDown = false := by
      rw [World.tornDown_resolveCompletion, hw]
      exact hopen
    cases hstays.symm.trans htorn
  | released =>
    intro _
    rw [Sys.driverStep, World.setInner_inner, DriverInner.takeReports, World.release_inner]
    rfl
  | handleDropped => exact h.of_inner (World.inner_dropHandle ..)
  | collectionDropped => exact h.of_inner (World.inner_dropRegistryRef ..)
  | _ => exact h.of_inner rfl

theorem of_reachable (hr : (systemMachine ws).Reachable s) : s.Unregisters := by
  refine hr.invariant (fun s hs htorn => ?_) fun s a s' hr h _ hs => step (books_of_reachable hr) h hs
  rw [hs.inner] at htorn
  cases htorn

end Sys.Unregisters

/-- Every reference to a registration: what callers hold, what is on its way to
them, and the driver's own. -/
def Sys.references (s : Sys ws) : List RegId := s.cargo.flatMap Boxed.refs ++ s.world.inner.registrations

/-- In every reachable state each registration counts the references there are to
it, wherever they are. -/
theorem registrations_counted (hr : (systemMachine ws).Reachable s) :
    (∀ r ∈ s.references, r < s.world.nextRegistry) ∧
    ∀ r < s.world.nextRegistry, (s.world.registries r).strong = s.references.count r :=
  have h := (Sys.Stowed.of_reachable hr).shared
  ⟨h.known, h.counted⟩

/-- A registered read holds a third reference, with its caller's collection and the
driver's own. -/
theorem registrations_counted_lent : ∃ s : Sys .w64, s.handles = [] ∧ s.collections = [0] ∧
    s.world.inner.registrations = [0] ∧ s.references.count 0 = 3 := by
  obtain ⟨s, hrun, hhandles, hcollections, hregistrations, hnext, hstrong⟩ : ∃ s,
      (systemMachine .w64).run .new registeredRead = some s ∧ s.handles = [] ∧ s.collections = [0] ∧
      s.world.inner.registrations = [0] ∧ 0 < s.world.nextRegistry ∧ (s.world.registries 0).strong = 3 :=
    ⟨_, rfl, rfl, rfl, rfl, by decide, rfl⟩
  obtain ⟨-, hcounted⟩ := registrations_counted (reachable_of_run hrun)
  exact ⟨s, hhandles, hcollections, hregistrations, (hcounted 0 hnext).symm.trans hstrong⟩

/-- The buffers there are outside the registrations: with operations and in result
slots. -/
def Sys.carried (s : Sys ws) : List Buf := s.cargo.flatMap Boxed.bufs

/-- In every reachable state each buffer that accepted requests gave the driver is
in exactly one place: with an operation, in a result slot, in a registration that
somebody refers to, or returned, which is to say delivered with a result or dropped.
Once the driver is torn down and the application holds no future, handle or
collection, each has been returned exactly once. -/
theorem buffers_conserved (hr : (systemMachine ws).Reachable s) :
    s.world.given.Perm (s.carried ++ (s.world.storage ++ s.world.returned)) ∧
    (s.world.inner.tornDown = true → (∀ σ, s.futures σ = none) → s.handles = [] → s.collections = [] →
      s.world.given.Perm s.world.returned) := by
  have h := Sys.Stowed.of_reachable hr
  refine ⟨h.balanced, fun htorn hfutures hhandles hcollections => ?_⟩
  obtain ⟨-, hslots, -⟩ := (kept_orderly _).reachable hr
  have hb := books_of_reachable hr
  have hpayloads : s.payloads = [] := by
    refine List.eq_nil_iff_forall_not_mem.mpr fun q hq => ?_
    obtain ⟨k, hk⟩ := OpSlab.mem_payloads.mp hq
    obtain ⟨op, hop, -⟩ := OpSlab.payloadAt_eq_some.mp hk
    rw [(hb.closed (hb.tornDown.symm.trans htorn)).2 k] at hop
    cases hop
  have hboxes : s.world.resultBoxes = [] := by
    refine List.flatMap_eq_nil_iff.mpr fun σ hσ => ?_
    rw [ResultSlot.boxes, hslots.gone σ (List.mem_range.mp hσ) (hfutures σ)]
    rfl
  have hcargo : s.cargo = [] := by simp [Sys.cargo, Runtime.cargo, hhandles, hcollections, hpayloads, hboxes]
  have hregistrations := Sys.Unregisters.of_reachable hr htorn
  rw [Sys.Stowed, hcargo, hregistrations] at h
  have hstorage : s.world.storage = [] := stored_nil _ h.shared
  have hbalanced := h.balanced
  rw [hstorage] at hbalanced
  exact hbalanced

/-- A collection outlives the driver it was registered with. -/
def collectionOutlives : List (Action .w64) :=
  let e : Sqe .w64 := ⟨.registerBuffers [⟨4096, 512⟩], 2 ^ 17⟩
  [.start (.registerBuffers [⟨4096, 512, 512⟩]) .willing, .pollDrive 7 .willing, .execute e registeredOk,
    .report e registeredOk, .advance .willing, .advance .willing, .advance .willing, .advance .willing,
    .advance .willing, .advance .willing, .advance .willing, .poll 0 8, .dropDrive, .dropDriver .willing,
    .advance .willing, .advance .willing, .advance .willing, .advance .willing, .dropCollection 0]

theorem buffers_conserved_returned : ∃ s : Sys .w64, s.world.given = [⟨4096, 512, 512⟩] ∧
    s.world.returned = [⟨4096, 512, 512⟩] := by
  obtain ⟨s, f, hrun, htorn, hfutures, hhandles, hcollections, hgiven⟩ : ∃ s f,
      (systemMachine .w64).run .new collectionOutlives = some s ∧ s.world.inner.tornDown = true ∧
      s.futures = Function.update (Function.update (fun _ => none) 0 (some f)) 0 none ∧ s.handles = [] ∧
      s.collections = [] ∧ s.world.given = [⟨4096, 512, 512⟩] :=
    ⟨_, _, rfl, rfl, rfl, rfl, rfl, rfl⟩
  have hgone : ∀ σ, s.futures σ = none := by simp [hfutures, Function.update_apply]
  obtain ⟨-, hreturned⟩ := buffers_conserved (reachable_of_run hrun)
  have hall := hreturned htorn hgone hhandles hcollections
  rw [hgiven] at hall
  exact ⟨s, hgiven, List.perm_singleton.mp hall.symm⟩

end WinIoring.Runtime
