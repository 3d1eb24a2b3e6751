import WinIoring.Runtime.Cancel
import WinIoring.Runtime.Counts

/-!
# Initialized bytes

Each byte a registration counts as initialized is one the application brought or
copied in, or one the platform reported it had read, and operations are admitted
to no others.
-/

namespace WinIoring.Runtime

open Slab WinIoring.Machine

variable {ws : WordSize} {s s' : Sys ws} {w w' : World ws}

-- ---------------------------------------------------------------------------
-- Every move
-- ---------------------------------------------------------------------------

/-- A future that records what it receives waits for an operation on the whole
of its buffer. -/
def Sys.Whole (s : Sys ws) : Prop :=
  ∀ σ f, s.futures σ = some f → f.isRead = true → ∀ p ∈ s.payloads, p.slot = σ →
    p.registeredBuffer = none

theorem Move.payloads (h : Move b s s') : ∀ p ∈ s'.payloads, p ∈ s.payloads := by
  intro p hp
  obtain ⟨k, hk⟩ := OpSlab.mem_payloads.mp hp
  exact OpSlab.mem_payloads.mpr ⟨k, h.payloadAt hk⟩

theorem kept_whole (ok : Sys ws → Action ws → Prop) : KeptGiven ok Sys.Slotted Sys.Whole where
  initial s hs σ f hf := by
    rw [hs.results] at hf
    cases hf
  move s s' _ _ h hm σ f hf hread p hp :=
    h σ f (hm.futures hf) hread p (hm.payloads p hp)
  accepted s s' t p e f _ _ _ hj h _ hmade ha σ g hg hread q hq hslot := by
    have hp : p.slot = s.world.nextSlot := ha.admitted.slot
    rw [ha.futures, Function.update_apply] at hg
    rcases List.mem_cons.mp (ha.payloads.mem_iff.mp hq) with rfl | hq
    · split at hg
      · obtain rfl := Option.some.inj hg
        exact ha.isRead hread
      · rename_i hσ
        exact absurd (hslot.symm.trans hp) hσ
    · split at hg
      · rename_i hσ
        exact absurd (hslot.trans hσ) (Nat.ne_of_lt (hj.bounded q hq))
      · exact h σ g hg hread q hq hslot
  setCursor s file position _ _ h _ := h

/-- The registrations' counts, the handles' copies of them, and what there is of
written bytes behind both. -/
structure Initialized (s : Sys ws) : Prop where
  counted : s.world.Counted s.world.Written
  cached : Cached s.handles s.payloads s.world
  sources : ∀ t p checked h, .accepted t p checked ∈ s.world.trace → p.handle = some h →
    ∀ e ∈ s.world.inner.ring.history, e.userData = t.asUserData → s.world.Sourced h.name p.start e.op
  recorded : ∀ σ f n h, s.futures σ = some f → f.isRead = true →
    (s.world.results σ).completed = some (.ok n, some (.buffer (.handle h))) →
    s.world.WrittenTo h.name n

/-- What the account of initialized bytes rests on. -/
structure Grounds (s : Sys ws) : Prop where
  orderly : Orderly s
  custody : s.Custody
  ran : s.Ran
  whole : s.Whole
  fitted : ∀ k p, s.world.inner.slab.payloadAt k = some p → p.Fitted

theorem kept_grounds (ok : Sys ws → Action ws → Prop) : Kept ok Grounds := by
  have hslots := (kept_slotted ok).and (kept_whole ok)
  have hran := (kept_ran ok).and (kept_fitted ok).given
  refine (((kept_orderly ok).and (kept_custody ok)).and (hran.and hslots.given).given).congr fun s => ?_
  constructor
  · rintro ⟨⟨horderly, hcustody⟩, ⟨hran, hfitted⟩, -, hwhole⟩
    exact ⟨horderly, hcustody, hran, hwhole, hfitted⟩
  · intro h
    exact ⟨⟨h.orderly, h.custody⟩, ⟨h.ran, h.fitted⟩, h.orderly.2.1, h.whole⟩

section SetInitialized

variable {handles : List RegisteredBuf} {ps : List OpPayload} {h : RegisteredBuf} {len : Nat}

theorem World.bounds_setInitialized (w : World ws) (h : RegisteredBuf) (len : Nat) (m : BufName) :
    (w.setRegistry h.registry ((w.registries h.registry).setInitialized h.index len)).bounds m =
      if m = h.name then (w.bounds m).map (fun b => (b.1, min len b.1)) else w.bounds m :=
  bounds_setRegistry_of (RegistryInner.bounds_setInitialized _ h.index len) m

/-- Whoever holds a handle sets the count and the handle's copy of it together. -/
theorem Cached.setInitialized (hc : Cached handles ps w) (ha : w.Agrees h)
    (hfree : h.name ∉ held handles ps w) (hlen : len ≤ h.extent) :
    Cached (handles ++ [{ h with initialized := len }]) ps
      (w.setRegistry h.registry ((w.registries h.registry).setInitialized h.index len)) := by
  have hrest : Cached handles ps
      (w.setRegistry h.registry ((w.registries h.registry).setInitialized h.index len)) :=
    hc.change hfree rfl (fun m hm => by rw [w.bounds_setInitialized, if_neg hm]) fun x hx =>
      hx.mono (fun _ => id) (fun _ => id) rfl fun _ _ => id
  intro x hx
  cases hx with
  | application hmem =>
    rcases List.mem_append.mp hmem with hmem | hmem
    · exact hrest x (.application hmem)
    · obtain rfl := List.mem_singleton.mp hmem
      refine ⟨ha.1, (w.bounds_setInitialized h len h.name).trans ?_⟩
      rw [if_pos rfl, ha.2, Option.map_some, Nat.min_eq_left hlen]
  | payload hp hh => exact hrest x (.payload hp hh)
  | result hσ hh => exact hrest x (.result hσ hh)

theorem World.Counted.setInitialized {P : BufName → Nat → Prop} (hc : w.Counted P)
    (hwritten : ∀ j < len, P h.name j) :
    (w.setRegistry h.registry ((w.registries h.registry).setInitialized h.index len)).Counted P :=
  hc.change rfl (w.bounds_setInitialized h len) fun _ _ _ =>
    ⟨Nat.min_le_right .., fun j hj => hwritten j (hj.trans_le (Nat.min_le_left ..))⟩

end SetInitialized

namespace Initialized

/-- What an accepted operation's entry may do to its buffer is settled when it
is built. -/
theorem sources_move (h : Initialized s) (hj : Grounds s) (hm : Move b s s') :
    ∀ t p checked hd, .accepted t p checked ∈ s'.world.trace → p.handle = some hd →
      ∀ e ∈ s'.world.inner.ring.history, e.userData = t.asUserData →
        s'.world.Sourced hd.name p.start e.op := by
  intro t p checked hd hacc hhd e he huser
  have hacc := hm.mem_accepted.mp hacc
  have hold : e ∈ s.world.inner.ring.history → s'.world.Sourced hd.name p.start e.op := fun he =>
    (h.sources t p checked hd hacc hhd e he huser).mono hm.suffix.subset hm.frozen
  rcases hm.history with heq | ⟨u, handle, heq⟩
  · exact hold (heq ▸ he)
  · rw [heq] at he
    rcases List.mem_cons.mp he with rfl | he
    · have hkind := (hj.orderly.1.1.2.issued t p checked hacc).1
      exact absurd (Token.asUserData_inj.mp huser) (Token.toCancel_ne hkind)
    · exact hold he

theorem steady (h : Initialized s) (hj : Grounds s) (hm : Move b s s')
    (hk : World.Keeps RegistryInner.bounds s.world s'.world)
    (hnext : s'.world.nextRegistry = s.world.nextRegistry)
    (hcached : Cached s'.handles s'.payloads s'.world)
    (hresults : ∀ σ n hd, (s'.world.results σ).completed = some (.ok n, some (.buffer (.handle hd))) →
      (s.world.results σ).completed = some (.ok n, some (.buffer (.handle hd)))) : Initialized s' where
  counted := (h.counted.imp fun _ _ hw => hw.mono hm.suffix.subset hm.frozen).keeps hk hnext
  cached := hcached
  sources := h.sources_move hj hm
  recorded σ f n hd hf hread hcompleted :=
    (h.recorded σ f n hd (hm.futures hf) hread (hresults σ n hd hcompleted)).mono hm.suffix.subset
      hm.frozen

/-- A completion reports a transfer whose bytes have been written. -/
theorem resolved (h : Initialized s) (hj : Grounds s) (hm : Move true s s')
    (hbounded : s'.world.TransfersBounded)
    (hring : s.world.inner.ring.completions = cqe :: rest) (hkind : cqe.token.kind = .operation)
    (hcell : s.world.inner.slab.cell cqe.token.key = some (.live op))
    (hs' : s' = s.withWorld ((s.world.setInner { s.world.inner with
      slab := (s.world.inner.slab.complete cqe.token).1
      ring := { s.world.inner.ring with completions := rest } }).resolveCompletion op.payload cqe).1) :
    Initialized s' := by
  let taken := s.world.setInner { s.world.inner with
    slab := (s.world.inner.slab.complete cqe.token).1
    ring := { s.world.inner.ring with completions := rest } }
  have hworld : s'.world = (taken.resolveCompletion op.payload cqe).1 := congrArg Sys.world hs'
  have hpayload := OpSlab.payloadAt_of_cell hcell
  have hmem : op.payload ∈ s.payloads := OpSlab.mem_payloads.mpr ⟨_, hpayload⟩
  have hperm : s.payloads.Perm (op.payload :: s'.payloads) :=
    Sys.payloads_resolved hkind hcell (by simp [hs', Sys.withWorld])
  have hplain := hj.orderly.2.2 _ _ hpayload
  have hfitted := hj.fitted _ _ hpayload
  obtain ⟨checked, hacc⟩ := hj.orderly.1.1.accepted hkind hcell
  obtain ⟨e, he, huser, fs, bs, hran⟩ := hj.ran.completed cqe (hring ▸ List.mem_cons_self)
  have huser' : e.userData = cqe.token.asUserData := huser
  -- What the completion says was moved.
  have hmoved : ∀ hd n, op.payload.handle = some hd → World.completionResult cqe.outcome = .ok n →
      ∀ j, op.payload.start ≤ j → j < op.payload.start + n → s'.world.Written hd.name j := by
    intro hd n hhd hn j hstart hend
    obtain ⟨hok, hle⟩ := completionResult_ok hn
    have hwritten := (h.sources _ _ checked hd hacc hhd e he huser').written
      (hbounded.of_grown fun _ hx => hm.suffix.subset hx) hacc hhd hran huser' hok hstart
      (hend.trans_le (Nat.add_le_add_left hle _))
    exact hwritten.mono hm.suffix.subset hm.frozen
  refine
    { counted := ?_
      cached := ?_
      sources := h.sources_move hj hm
      recorded := fun σ f n hd hf hread hcompleted => ?_ }
  · have hcounted : taken.Counted s'.world.Written :=
      h.counted.imp fun _ _ hw => hw.mono hm.suffix.subset hm.frozen
    rw [hworld] at hcounted hmoved ⊢
    exact hcounted.resolveCompletion hplain hfitted cqe (fun n b j hn hb hj => .given hn hb hj) hmoved
  · have hcached : Cached s.handles (op.payload :: s'.payloads) taken := fun x hx =>
      h.cached x (hx.mono (fun _ => id) (fun _ => hperm.mem_iff.mpr) rfl fun _ _ => id)
    have hcustody : Custody s.handles (op.payload :: s'.payloads) taken :=
      Custody.of_world hj.custody hperm.symm rfl rfl fun _ => .rfl
    have hhandles : s'.handles = s.handles := by rw [hs', Sys.withWorld]
    rw [hworld, hhandles]
    exact hcached.resolveCompletion hcustody hplain hfitted cqe
  · rw [hworld, World.results_resolveCompletion, Function.update_apply] at hcompleted
    split at hcompleted
    · rename_i hσ
      dsimp only at hcompleted
      split at hcompleted
      · obtain ⟨hresult, hboxed⟩ := Prod.mk.inj (Option.some.inj hcompleted)
        have hname : op.payload.name? = some hd.name :=
          (World.name_settled taken hplain cqe).symm.trans (congrArg Boxed.name? hboxed)
        obtain ⟨hd', hhd', hname⟩ := Option.map_eq_some_iff.mp hname
        have hwhole := hj.whole σ f (hm.futures hf) hread _ hmem hσ.symm
        have hzero : op.payload.start = 0 := by rw [OpPayload.start, hwhole]; rfl
        intro j hjn
        exact hname ▸ hmoved hd' n hhd' hresult j (by omega) (by omega)
      · cases hcompleted
    · exact (h.recorded σ f n hd (hm.futures hf) hread hcompleted).mono hm.suffix.subset hm.frozen

/-- A future receives what was left for it. A read sets the count to what it
received. -/
theorem delivered (h : Initialized s) (hj : Grounds s) (hm : Move b s s') {σ : SlotId}
    (hfuture : s.futures σ = some future) (hfilled : (s.world.results σ).completed = some completed)
    (hs' : s' = Sys.receive { s with
      world := (s.world.deliver σ future completed).1
      futures := Function.update s.futures σ none } (s.world.deliver σ future completed).2) :
    Initialized s' := by
  let emptied := s.world.setResult σ { s.world.results σ with completed := none, awaited := false }
  let left := emptied.emit (.delivered σ completed)
  have hσ : σ < s.world.nextSlot := hj.orderly.2.1.future_lt σ future hfuture
  have hmono : ∀ n j, s.world.Written n j → s'.world.Written n j := fun _ _ hw =>
    hw.mono hm.suffix.subset hm.frozen
  have hin : ∀ x, HandleIn s.handles s.payloads left x → HandleIn s.handles s.payloads s.world x := by
    intro x hx
    refine hx.mono (fun _ => id) (fun _ => id) rfl fun τ y hy => ?_
    by_cases hτ : τ = σ
    · subst hτ
      simp [left, emptied, ResultSlot.handle?] at hy
    · simpa [left, emptied, hτ] using hy
  have hcached : Cached s.handles s.payloads left := fun x hx => h.cached x (hin x hx)
  have hcounted : left.Counted s'.world.Written := h.counted.imp hmono
  -- What is left once the result has been recorded: the futures' own change.
  suffices hrecorded : ∃ w boxed, (left.recordRead future completed) = (w, boxed) ∧
      w.Counted s'.world.Written ∧
      Cached (s.handles ++ (boxed.bind Boxed.handle?).toList) s.payloads w by
    obtain ⟨w, boxed, hrecord, hw, hc⟩ := hrecorded
    have hdeliver : s.world.deliver σ future completed =
        (w.advanceOnSuccess future.sequential completed.1, boxed) := by
      simp only [World.deliver]
      rw [show ((s.world.setResult σ { s.world.results σ with completed := none, awaited := false }).emit
        (.delivered σ completed)).recordRead future completed = (w, boxed) from hrecord]
    obtain ⟨files, hadvance⟩ := w.advanceOnSuccess_eq future.sequential completed.1
    have hworld : s'.world = { w with files } := by
      rw [hs', Sys.receive_world, hdeliver]
      exact hadvance
    have hpayloads : s'.payloads = s.payloads := by
      rw [Sys.payloads, hs', Sys.receive_world, World.inner_deliver, Sys.payloads]
    refine
      { counted := ?_
        cached := ?_
        sources := h.sources_move hj hm
        recorded := fun τ f n hd hf hread hcompleted => ?_ }
    · rw [hworld] at hw ⊢
      exact hw.keeps (.of_eq rfl rfl) rfl
    · rw [hpayloads, hworld]
      rw [hs', handles_receive, hdeliver]
      exact hc.keeps (.of_eq rfl rfl) fun x hx => hx.mono (fun _ => id) (fun _ => id) rfl fun _ _ => id
    · have hresults : s'.world.results = left.results := by
        obtain ⟨registries, hregistries⟩ := left.recordRead_eq future completed
        rw [hrecord] at hregistries
        rw [hworld, show w = _ from hregistries]
      rw [hresults] at hcompleted
      by_cases hτ : τ = σ
      · subst hτ
        simp [left, emptied] at hcompleted
      · refine (h.recorded τ f n hd (hm.futures hf) hread ?_).mono hm.suffix.subset hm.frozen
        simpa [left, emptied, hτ] using hcompleted
  have hreceived : ∀ hd, completed.2.bind Boxed.handle? = some hd →
      HandleIn s.handles s.payloads s.world hd := by
    intro hd hhd
    refine .result hσ ?_
    rw [ResultSlot.handle?, hfilled]
    exact hhd
  have hgiven : Cached (s.handles ++ (completed.2.bind Boxed.handle?).toList) s.payloads left := by
    intro x hx
    cases hx with
    | application hmem =>
      rcases List.mem_append.mp hmem with hmem | hmem
      · exact hcached x (.application hmem)
      · exact h.cached x (hreceived x (Option.mem_toList.mp hmem))
    | payload hp hh => exact hcached x (.payload hp hh)
    | result hτ hh => exact hcached x (.result hτ hh)
  unfold World.recordRead
  split
  · rename_i n hd
    have hagrees := h.cached hd (hreceived hd rfl)
    split
    · rename_i hread
      have hwritten := h.recorded σ future n hd hfuture hread hfilled
      refine ⟨_, _, rfl, ?_, ?_⟩
      · exact hcounted.setInitialized fun j hj => hmono _ j (hwritten j (hj.trans_le (Nat.min_le_left ..)))
      · refine hcached.setInitialized hagrees (fun hmem => ?_) (Nat.min_le_right ..)
        have hperm := Custody.held_take s.handles s.payloads hσ
          (show left.nextSlot = s.world.nextSlot from rfl) rfl rfl
        rw [ResultSlot.name?, hfilled] at hperm
        exact (List.nodup_cons.mp (hperm.nodup_iff.mp hj.custody.nodup)).1 hmem
    · exact ⟨_, _, rfl, hcounted, hgiven⟩
  · exact ⟨_, _, rfl, hcounted, hgiven⟩

/-- The application copies bytes in from the first. -/
theorem filled (h : Initialized s) (hj : Grounds s) {i : Nat} {hd : RegisteredBuf} {len : Nat}
    (hhandle : s.handles[i]? = some hd) (hlen : len ≤ hd.extent)
    (hm : Move b s s')
    (hs' : s' = { s with
      world := (s.world.setRegistry hd.registry
        ((s.world.registries hd.registry).setInitialized hd.index len)).emit
          (.copied hd.registry hd.index len)
      handles := s.handles.set i { hd with initialized := len } }) : Initialized s' := by
  obtain ⟨hlt, hget⟩ := List.getElem?_eq_some_iff.mp hhandle
  have hperm : s.handles.Perm (hd :: s.handles.eraseIdx i) :=
    hget ▸ (List.getElem_cons_eraseIdx_perm hlt).symm
  have hagrees := h.cached hd (.application (hperm.mem_iff.mpr List.mem_cons_self))
  have hfree : hd.name ∉ held (s.handles.eraseIdx i) s.payloads s.world := by
    have hheld : (held s.handles s.payloads s.world).Perm
        (hd.name :: held (s.handles.eraseIdx i) s.payloads s.world) := by
      simp only [held]
      exact (hperm.map _).append_right _
    exact (List.nodup_cons.mp (hheld.nodup_iff.mp hj.custody.nodup)).1
  have hrest : Cached (s.handles.eraseIdx i) s.payloads s.world := fun x hx =>
    h.cached x (hx.mono (fun _ => List.mem_of_mem_eraseIdx) (fun _ => id) rfl fun _ _ => id)
  have hset := hrest.setInitialized hagrees hfree hlen
  have hmono : ∀ n j, s.world.Written n j → s'.world.Written n j := fun _ _ hw =>
    hw.mono hm.suffix.subset hm.frozen
  subst hs'
  refine
    { counted := ?_
      cached := fun x hx => ?_
      sources := h.sources_move hj hm
      recorded := fun σ f n x hf hread hcompleted => ?_ }
  · refine (World.Counted.setInitialized (h.counted.imp hmono) fun j hj => ?_).keeps (.of_eq rfl rfl) rfl
    exact .copied List.mem_cons_self hj
  · refine (World.Keeps.of_eq rfl rfl).agrees (hset x (hx.mono (fun y hy => ?_) (fun _ => id) rfl
      fun _ _ => id))
    have hset : (s.handles.set i { hd with initialized := len }).Perm
        ({ hd with initialized := len } :: s.handles.eraseIdx i) := by
      have hlt' : i < (s.handles.set i { hd with initialized := len }).length := by simpa using hlt
      simpa [List.eraseIdx_set_eq] using (List.getElem_cons_eraseIdx_perm hlt').symm
    exact (List.perm_append_singleton ..).mem_iff.mpr (hset.mem_iff.mp hy)
  · exact (h.recorded σ f n x hf hread hcompleted).mono hm.suffix.subset hm.frozen

/-- A ring closes, and what was still in the slab is handed back as it is. -/
theorem released (h : Initialized s) (hj : Grounds s) (hm : Move b s s')
    (hs' : s' = s.withWorld (s.world.setInner { s.world.inner with ring }).release.1) :
    Initialized s' := by
  let closed := s.world.setInner { s.world.inner with ring }
  have hworld : s'.world = closed.release.1 := congrArg Sys.world hs'
  have hhandles : s'.handles = s.handles := by rw [hs', Sys.withWorld]
  have hplain : ∀ p ∈ s.payloads, p.Plain := by
    intro p hp
    obtain ⟨k, hk⟩ := OpSlab.mem_payloads.mp hp
    exact hj.orderly.2.2 k p hk
  -- Nothing new is held, and nothing new was read.
  obtain ⟨⟨hslots, hregistries⟩, -, hin, hread⟩ := World.abandonAll_induction (w := closed)
    (P := fun ps w => (w.nextSlot = s.world.nextSlot ∧ w.nextRegistry = s.world.nextRegistry) ∧
      (∀ p ∈ ps, p ∈ s.payloads) ∧
      (∀ x, HandleIn s.handles ps w x → HandleIn s.handles s.payloads s.world x) ∧
      ∀ σ n boxed, (w.results σ).completed = some (.ok n, boxed) →
        (s.world.results σ).completed = some (.ok n, boxed))
    ⟨⟨rfl, rfl⟩, fun _ => id, fun x hx => hx.mono (fun _ => id) (fun _ => id) rfl fun _ _ => id,
      fun _ _ _ => id⟩ fun p ps w hw => by
      obtain ⟨⟨hnext, hregistry⟩, hps, hin, hread⟩ := hw
      have hp := hps p List.mem_cons_self
      refine ⟨⟨by simpa using hnext, by simpa [World.resolveAbandoned] using hregistry⟩,
        fun q hq => hps q (List.mem_cons_of_mem _ hq), fun x hx => ?_, fun σ n boxed hσ => ?_⟩
      · rcases HandleIn.fill hx with hx | hx
        · exact hin x (hx.mono (fun _ => id) (fun _ => List.mem_cons_of_mem _) rfl fun _ _ => id)
        · exact .payload hp ((handle_abandoned (hplain p hp)).symm.trans hx)
      · rw [World.results_resolveAbandoned, Function.update_apply] at hσ
        split at hσ
        · dsimp only at hσ
          split at hσ
          · cases hσ
          · cases hσ
        · exact hread σ n boxed hσ
  obtain ⟨hresults, hnext, hnextRegistry, -⟩ := closed.release_frame
  have hkeeps : World.Keeps RegistryInner.bounds s.world s'.world := by
    rw [hworld]
    refine World.Keeps.trans ?_ (.release RegistryInner.unmarked_bounds closed)
    exact .of_eq rfl rfl
  have hnil : s'.payloads = [] := by
    rw [Sys.payloads, hworld, World.release_inner]
    exact OpSlab.payloads_drain _
  have hresults' : s'.world.results = closed.abandonAll.results := hworld ▸ hresults
  refine h.steady hj hm hkeeps ?_ (h.cached.keeps hkeeps fun x hx => hin x ?_) fun σ n hd hσ => ?_
  · rw [hworld, hnextRegistry, hregistries]
  · rw [hhandles, hnil] at hx
    refine hx.mono (fun _ => id) (fun _ => id) ?_ fun σ y hy => hresults' ▸ hy
    rw [hworld, hnext]
  · exact hread σ n _ (hresults' ▸ hσ)

theorem move (hb : Books s) (hj : Grounds s) (h : Initialized s) (hm : Move b s s')
    (hbounded : s'.world.TransfersBounded) : Initialized s' := by
  have hm' := hm
  -- Most moves leave the counts and the handles as they are.
  have hcalm : ∀ {s' : Sys ws}, Move b s s' → World.Keeps RegistryInner.bounds s.world s'.world →
      s'.world.nextRegistry = s.world.nextRegistry → (∀ x ∈ s'.handles, x ∈ s.handles) →
      s'.world.nextSlot = s.world.nextSlot →
      (∀ σ, (s'.world.results σ).completed = (s.world.results σ).completed) → Initialized s' := by
    intro s' hm hk hnext hhandles hslots hresults
    refine h.steady hj hm hk hnext (h.cached.keeps hk fun x hx => ?_) fun σ n hd => by rw [hresults]; exact id
    refine hx.mono hhandles hm.payloads hslots fun σ y hy => ?_
    rwa [ResultSlot.handle?, hresults] at hy
  cases hm with
  | quiet hq =>
    refine hcalm hm' ⟨hq.world.nextRegistry.ge, fun r _ => ?_⟩ hq.world.nextRegistry
      (fun x hx => hq.handles ▸ hx) hq.world.nextSlot fun σ => by rw [hq.world.results]
    exact congrArg (fun marks => marks.2.2.1.map fun slot => (slot.extent, slot.initialized))
      (hq.world.marks r)
  | refused _ _ _ hhandles =>
    exact hcalm hm' (.of_eq rfl rfl) rfl (fun x => hhandles.mem_iff.mp) rfl fun _ => rfl
  | resolved _ hring hkind hcell => exact h.resolved hj hm' hbounded hring hkind hcell rfl
  | @released ring => exact h.released hj hm' rfl
  | @polled _ _ _ σ =>
    refine hcalm hm' (.of_eq rfl rfl) rfl (fun _ => id) rfl fun τ => ?_
    by_cases hτ : τ = σ
    · subst hτ
      simp [Sys.withWorld]
    · simp [Sys.withWorld, hτ]
  | delivered hfuture hfilled => exact h.delivered hj hm' hfuture hfilled rfl
  | @forgotten future _ _ σ detached underBorrow =>
    have hresults : ((s.world.emit (.futureDropped σ detached)).dropFutureRef σ underBorrow).results =
        Function.update s.world.results σ { s.world.results σ with completed := none, awaited := false } := by
      simp [World.dropFutureRef]
    have hkept : ∀ τ c, (((s.world.emit (.futureDropped σ detached)).dropFutureRef σ
        underBorrow).results τ).completed = some c → (s.world.results τ).completed = some c := by
      intro τ c hc
      rw [hresults, Function.update_apply] at hc
      split at hc
      · cases hc
      · exact hc
    have hkeeps : World.Keeps RegistryInner.bounds s.world
        ((s.world.emit (.futureDropped σ detached)).dropFutureRef σ underBorrow) := by
      refine World.Keeps.trans ?_ (.dropOptional RegistryInner.unmarked_bounds ..)
      exact .of_eq rfl rfl
    have hnext : ((s.world.emit (.futureDropped σ detached)).dropFutureRef σ underBorrow).nextSlot =
        s.world.nextSlot := by simp [World.dropFutureRef]
    refine h.steady hj hm' hkeeps (by simp [World.dropFutureRef]) (h.cached.keeps hkeeps fun x hx => ?_)
      fun τ n hd => hkept τ _
    refine hx.mono (fun _ => id) hm'.payloads hnext fun τ y hy => ?_
    obtain ⟨boxed, hboxed, hhandle⟩ := Option.bind_eq_some_iff.mp hy
    obtain ⟨c, hc, hbox⟩ := Option.bind_eq_some_iff.mp hboxed
    rw [ResultSlot.handle?, hkept τ c hc, Option.bind_some, hbox, Option.bind_some, hhandle]
  | checkedOut htorn _ _ hcurrent hclaim =>
    have hr := hj.orderly.1.2.current_lt (hb.tornDown ▸ htorn) hcurrent
    obtain ⟨hbounds, hself, hown⟩ := RegistryInner.claim_bounds hclaim
    subst hself
    have hkeeps := World.Keeps.setRegistry s.world hbounds
    refine h.steady hj hm' hkeeps rfl (fun x hx => ?_) fun _ _ _ => id
    cases hx with
    | application hmem =>
      rcases List.mem_append.mp hmem with hmem | hmem
      · exact hkeeps.agrees (h.cached x (.application hmem))
      · obtain rfl := List.mem_singleton.mp hmem
        exact hkeeps.agrees ⟨hr, hown⟩
    | payload hp hh => exact hkeeps.agrees (h.cached x (.payload hp hh))
    | result hτ hh => exact hkeeps.agrees (h.cached x (.result hτ hh))
  | filled hhandle hlen => exact h.filled hj hhandle hlen hm' rfl
  | @handleDropped i hd underBorrow hhandle =>
    exact hcalm hm' (.dropHandle RegistryInner.unmarked_bounds ..) (by simp [World.dropHandle])
      (fun _ => List.mem_of_mem_eraseIdx) (by simp [World.dropHandle]) fun _ => by simp [World.dropHandle]
  | _ => exact hcalm hm' (.of_eq rfl rfl) rfl (fun _ => id) rfl fun _ => rfl

end Initialized

-- ---------------------------------------------------------------------------
-- Admission
-- ---------------------------------------------------------------------------

/-- How far into its buffer an operation may reach: a read anywhere, a write over
what is initialized. -/
def RegisteredBuf.bound (h : RegisteredBuf) (isWrite : Bool) : Nat :=
  if isWrite then h.initialized else h.extent

/-- A handle that agrees with its registration is checked against its own
bounds. -/
theorem World.checkRegisteredBuffer_agrees {h : RegisteredBuf} (ha : w.Agrees h)
    (hcurrent : w.inner.bufferRegistration = some h.registry) (offset len : Nat) (isWrite : Bool) :
    w.checkRegisteredBuffer h.index offset len isWrite =
      if offset + len > h.bound isWrite then
        .error (.registeredRangeOutOfBounds h.index offset len (h.bound isWrite))
      else
        .ok () := by
  have hbounds : (w.registries h.registry).bounds[h.index]? = some (h.extent, h.initialized) := ha.2
  rw [checkRegisteredBuffer, hcurrent]
  simp only [RegistryInner.extent_eq, RegistryInner.initialized_eq, hbounds, Option.map_some]
  rfl

/-- A request is refused by its own checks, or by the slab or the ring once it
has passed them. -/
theorem World.start_result {r : World ws × Except (Rejection Error) (Token ws)}
    (hrun : w.start checks payload place build accept recovery = r) :
    (∃ e, checks = .error e ∧ r.2 = .error (e, recovery.checks)) ∨
    checks = .ok () ∧ ∀ e given, r.2 = .error (e, given) →
      e = .tooManyOperations ∨ ∃ err, e = .ring err := by
  subst hrun
  cases checks with
  | error e => exact .inl ⟨e, rfl, rfl⟩
  | ok u =>
    refine .inr ⟨rfl, fun e given herror => ?_⟩
    simp only [start] at herror
    split at herror
    · obtain ⟨rfl, -⟩ := Prod.mk.inj (Except.error.inj herror)
      exact .inl rfl
    · split at herror
      · obtain ⟨rfl, -⟩ := Prod.mk.inj (Except.error.inj herror)
        exact .inr ⟨_, rfl⟩
      · cases herror

section Range

variable {h : RegisteredBuf} {target : FileTarget} {offset len fileOffset : Nat} {isWrite : Bool}
  {a : StartAnswers}

/-- A registered operation that was accepted is in range. -/
theorem World.in_range_of_accepted (ha : w.Agrees h) {t : Token ws}
    (hok : (w.tryRegisteredOp target h offset len fileOffset isWrite a).2 = .ok t) :
    offset + len ≤ h.bound isWrite := by
  rcases World.start_result (r := w.tryRegisteredOp target h offset len fileOffset isWrite a) rfl with
    ⟨e, -, herror⟩ | ⟨hchecks, -⟩
  · cases hok.symm.trans herror
  obtain ⟨-, hchecks⟩ := ok_of_bind hchecks
  obtain ⟨hregistration, hchecks⟩ := ok_of_bind hchecks
  obtain ⟨hrange, -⟩ := ok_of_bind hchecks
  rw [World.checkRegisteredBuffer_agrees ha (current_of_checkRegistration hregistration)] at hrange
  split at hrange
  · cases hrange
  · exact Nat.le_of_not_gt ‹_›

/-- Past the checks that come before, a registered operation is refused for its
range just when it reaches beyond the bound of its own handle. -/
theorem World.refused_for_range_iff (ha : w.Agrees h)
    (haccepting : w.checkAccepting a (if isWrite then .write else .read) = .ok ())
    (hcurrent : w.checkRegistration h = .ok ()) :
    (w.tryRegisteredOp target h offset len fileOffset isWrite a).2 =
      .error (.registeredRangeOutOfBounds h.index offset len (h.bound isWrite), [.handle h]) ↔
        h.bound isWrite < offset + len := by
  have hcheck := World.checkRegisteredBuffer_agrees ha (current_of_checkRegistration hcurrent) offset len
    isWrite
  by_cases hrange : h.bound isWrite < offset + len
  · refine iff_of_true ?_ hrange
    rw [if_pos hrange] at hcheck
    simp only [tryRegisteredOp, start, haccepting, hcurrent, hcheck, bind, Except.bind]
  · refine iff_of_false (fun herror => ?_) hrange
    rw [if_neg hrange] at hcheck
    rcases World.start_result (r := w.tryRegisteredOp target h offset len fileOffset isWrite a) rfl with
      ⟨e, hchecks, hfailed⟩ | ⟨-, hfailed⟩
    · simp only [haccepting, hcurrent, hcheck, bind, Except.bind] at hchecks
      obtain rfl := (Prod.mk.inj (Except.error.inj (hfailed.symm.trans herror))).1
      cases target with
      | owned file => cases hchecks
      | registered index =>
        simp only [checkTarget, DriverInner.checkRegisteredFile] at hchecks
        split at hchecks
        · cases hchecks
        · split at hchecks
          · cases hchecks
          · cases hchecks
    · rcases hfailed _ _ herror with he | ⟨err, he⟩
      · cases he
      · cases he

end Range

namespace Initialized

/-- An admitted write reads from its buffer only what has been written. -/
theorem sourced (h : Initialized s) {p : OpPayload} {hd : RegisteredBuf} {op : SqeOp ws}
    (ha : Admitted s.world p) (hhd : p.handle = some hd) (hin : hd ∈ s.handles)
    (hrange : RangeChecked s.world p op) : s.world.Sourced hd.name p.start op := by
  have hbuffer : p.buffer = some (.handle hd) := by
    rw [OpPayload.handle] at hhd
    obtain ⟨b, hb, hhandle⟩ := Option.bind_eq_some_iff.mp hhd
    cases b with
    | owned b => cases hhandle
    | handle x =>
      obtain rfl := Option.some.inj hhandle
      exact hb
  have hagrees := h.cached hd (.application hin)
  have hwritten : s.world.WrittenTo hd.name hd.initialized :=
    (h.counted hd.name _ hagrees.1 hagrees.2).2
  cases op with
  | read => trivial
  | write handle data len offset =>
    have hlen : p.start + len ≤ hd.initialized := by
      rw [RangeChecked, RangeChecked.InRange] at hrange
      cases hregistered : p.registeredBuffer with
      | none =>
        rw [hregistered] at hrange
        rw [OpPayload.start, hregistered]
        exact (Nat.zero_add len).le.trans (hrange _ hbuffer)
      | some target =>
        obtain ⟨index, start⟩ := target
        obtain ⟨x, hx, hindex, hcurrent⟩ := ha.registeredBuffer index start hregistered
        obtain rfl : hd = x := Buffer.handle.inj (Option.some.inj (hbuffer.symm.trans hx))
        rw [hregistered, ← hindex] at hrange
        dsimp only at hrange
        rw [World.checkRegisteredBuffer_agrees hagrees hcurrent] at hrange
        split at hrange
        · cases hrange
        · rename_i hle
          rw [OpPayload.start, hregistered]
          exact Nat.le_of_not_gt hle
    exact fun j hj => hwritten j (hj.trans_le hlen)
  | _ =>
    have hnone : p.buffer = none := hrange
    cases hbuffer.symm.trans hnone

theorem accepted (h : Initialized s) (hb : Books s) (hj : Grounds s) (ha : Accepted s s' t p e f) :
    Initialized s' := by
  have hgrown : ∀ x ∈ s.world.trace, x ∈ s'.world.trace := fun x hx => by
    rw [ha.trace]
    exact List.mem_append_right _ (List.mem_cons_of_mem _ hx)
  have hfrozen : s.world.Frozen s'.world := .of_eq ha.nextRegistry ha.registries
  have hkeeps : World.Keeps RegistryInner.bounds s.world s'.world := .of_eq ha.nextRegistry ha.registries
  have hmoved : ∀ x, p.handle = some x → x ∈ s.handles := fun x hx =>
    ha.handles.mem_iff.mpr (List.mem_append_left _ (Option.mem_toList.mpr hx))
  have hold : ∀ σ c, (s'.world.results σ).completed = some c → σ ≠ s.world.nextSlot ∧
      (s.world.results σ).completed = some c := by
    intro σ c hc
    rw [ha.results, Function.update_apply] at hc
    split at hc
    · cases hc
    · exact ⟨‹_›, hc⟩
  refine
    { counted := (h.counted.imp fun _ _ hw => hw.mono hgrown hfrozen).keeps hkeeps ha.nextRegistry
      cached := h.cached.keeps hkeeps fun x hx => ?_
      sources := fun u q checked hd hacc hhd x hx huser => ?_
      recorded := fun σ g n hd hg hread hcompleted => ?_ }
  · cases hx with
    | application hmem => exact .application (ha.handles.mem_iff.mpr (List.mem_append_right _ hmem))
    | payload hq hh =>
      rcases List.mem_cons.mp (ha.payloads.mem_iff.mp hq) with rfl | hq
      · exact .application (hmoved x hh)
      · exact .payload hq hh
    | @result σ hσ hh =>
      obtain ⟨boxed, hboxed, hhandle⟩ := Option.bind_eq_some_iff.mp hh
      obtain ⟨c, hc, hbox⟩ := Option.bind_eq_some_iff.mp hboxed
      obtain ⟨hne, hc⟩ := hold σ c hc
      refine .result (σ := σ) ?_ ?_
      · rw [ha.nextSlot] at hσ
        exact Nat.lt_of_le_of_ne (Nat.le_of_lt_succ hσ) hne
      · rw [ResultSlot.handle?, hc, Option.bind_some, hbox, Option.bind_some, hhandle]
  · have htoken : x.token = u := by rw [Sqe.token, huser, Token.fromUserData_asUserData]
    rw [ha.ring] at hx
    rcases ha.mem_accepted.mp hacc with ⟨rfl, rfl, rfl⟩ | hacc
    · rcases List.mem_cons.mp hx with rfl | hx
      · exact (h.sourced ha.admitted hhd (hmoved hd hhd) ha.range).mono hgrown hfrozen
      · have hopen : s.world.inner.ring.closed = false := ha.isOpen
        exact absurd (htoken ▸ (hb.ledger hopen).history_issued x hx) ha.unissued
    · rcases List.mem_cons.mp hx with rfl | hx
      · have hissued := (hj.orderly.1.1.2.issued u q checked hacc).2
        have htoken' : x.token = t := by rw [Sqe.token, ha.userData, Token.fromUserData_asUserData]
        rw [← htoken, htoken'] at hissued
        exact absurd hissued ha.unissued
      · exact (h.sources u q checked hd hacc hhd x hx huser).mono hgrown hfrozen
  · obtain ⟨hne, hcompleted⟩ := hold σ _ hcompleted
    rw [ha.futures, Function.update_of_ne hne] at hg
    exact (h.recorded σ g n hd hg hread hcompleted).mono hgrown hfrozen

end Initialized

theorem kept_initialized (ok : Sys ws → Action ws → Prop) :
    KeptGiven ok Grounds fun s => s.world.TransfersBounded → Initialized s where
  initial s hs _ := by
    have hnext := hs.nextRegistry
    have hpayloads : s.payloads = [] := by
      rw [Sys.payloads, hs.inner]
      exact OpSlab.payloads_new
    refine
      { counted := fun n b hn => absurd hn (by rw [hnext]; exact Nat.not_lt_zero _)
        cached := fun x hx => ?_
        sources := fun t p checked hd hacc => ?_
        recorded := fun σ f n hd hf => ?_ }
    · cases hx with
      | application hmem => simp [hs.handles] at hmem
      | payload hp _ => simp [hpayloads] at hp
      | result hσ _ => simp [hs.nextSlot] at hσ
    · simp [World.trace, hs.log] at hacc
    · simp [hs.results] at hf
  move s s' hb hj h hm hbounded :=
    (h (hbounded.of_grown fun _ hx => hm.suffix.subset hx)).move hb hj hm hbounded
  accepted s s' t p e f _ _ hb hj h _ _ ha hbounded := by
    refine (h (hbounded.of_grown fun x hx => ?_)).accepted hb hj ha
    rw [ha.trace]
    exact List.mem_append_right _ (List.mem_cons_of_mem _ hx)
  setCursor s file position _ hj h _ hbounded := by
    have hgrown : ∀ x ∈ s.world.trace, x ∈ (s.world.setCursor file position).trace :=
      fun _ => List.mem_cons_of_mem _
    have hfrozen : s.world.Frozen (s.world.setCursor file position) := .of_eq rfl rfl
    have hold := h (hbounded.of_grown hgrown)
    exact
      { counted := (hold.counted.imp fun _ _ hw => hw.mono hgrown hfrozen).keeps (.of_eq rfl rfl) rfl
        cached := hold.cached.keeps (.of_eq rfl rfl) fun x hx =>
          hx.mono (fun _ => id) (fun _ => id) rfl fun _ _ => id
        sources := fun t p checked hd hacc hhd e he huser => by
          rcases List.mem_cons.mp hacc with hacc | hacc
          · cases hacc
          · exact (hold.sources t p checked hd hacc hhd e he huser).mono hgrown hfrozen
        recorded := fun σ f n hd hf hread hcompleted =>
          (hold.recorded σ f n hd hf hread hcompleted).mono hgrown hfrozen }

theorem initialized_of_reachable (hr : (systemMachine ws).Reachable s)
    (hbounded : s.world.TransfersBounded) : Initialized s :=
  ((kept_grounds _).and (kept_initialized _)).reachable hr |>.2 hbounded

/-- A read of a registered buffer from inside its initialized bytes to beyond
them, which is cut short. -/
def readBeyond : List (Action .w64) :=
  let register : Sqe .w64 := ⟨.registerBuffers [⟨4096, 512⟩], 2 ^ 17⟩
  let read : Sqe .w64 := ⟨.read (.raw 10) (.registered 0 8) 24 0, 2 ^ 18⟩
  let short : Outcome := { resultCode := 0, information := 20 }
  [.start (.registerBuffers [{ address := 4096, capacity := 512, len := 16 }]) .willing,
    .pollDrive 7 .willing,
    .execute register registeredOk,
    .report register registeredOk,
    .advance .willing, .advance .willing,
    .poll 0 8,
    .checkOut 0 0,
    .start (.registeredOp (.owned 10) 0 8 24 0 false) .willing,
    .advance .willing, .advance .willing,
    .execute read short,
    .report read short,
    .advance .willing, .advance .willing,
    .poll 1 9]

end WinIoring.Runtime
