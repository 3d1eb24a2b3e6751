import WinIoring.Runtime.Cancel

/-!
# Cancel holds

A cancellation names a file its operation named, and the operation may be gone
before it is. The driver keeps the file open for as long as a cancellation that
names it is outstanding, and no longer.
-/

namespace WinIoring.Runtime

open Slab

variable {ws : WordSize} {s s' : Sys ws}

-- ---------------------------------------------------------------------------
-- Targets
-- ---------------------------------------------------------------------------

theorem OpPayload.cancelTarget_owned {p : OpPayload} {f : FileId} :
    p.cancelTarget = some (.owned f) ↔ p.file = some f := by
  unfold cancelTarget
  cases p.file with
  | some g => simp
  | none => cases p.registeredFile <;> simp

/-- A cancellation's entry, and the operation it is for. -/
structure Cancels (e : Sqe ws) (t : Token ws) (p : OpPayload) : Prop where
  kind : t.kind = .operation
  nonzero : t.asUserData ≠ 0
  userData : e.userData = t.toCancel.asUserData
  target : ∃ target, p.cancelTarget = some target ∧ e.op = .cancel target.handle t.asUserData

/-- Every cancellation ever built is for an operation the driver accepted. -/
def Targeted (s : Sys ws) : Prop :=
  ∀ e ∈ s.world.inner.ring.history, ∀ handle u, e.op = .cancel handle u →
    ∃ t p checked, .accepted t p checked ∈ s.world.trace ∧ Cancels e t p

/-- What a move builds. -/
theorem Move.mem_history (h : Move b s s') (he : e ∈ s'.world.inner.ring.history) :
    e ∈ s.world.inner.ring.history ∨ ∃ t op, s.world.inner.slab.cell t.key = some (.live op) ∧
      op.lifecycle = .submitted ∧ Cancels e t op.payload := by
  cases h with
  | quiet hq => exact .inl (hq.world.inner.ring ▸ he)
  | executed hring => exact .inl ((IoRing.execute_books hring).history ▸ he)
  | reported hring => exact .inl ((IoRing.report_books hring).history ▸ he)
  | cancelled _ _ hkind hcell hlife _ htarget hnonzero =>
    rcases List.mem_cons.mp he with rfl | he
    · exact .inr ⟨_, _, hcell, hlife, hkind, hnonzero, rfl, _, htarget, rfl⟩
    · exact .inl he
  | submitted _ _ hsub => exact .inl (hsub.history ▸ he)
  | waited _ _ _ hsub => exact .inl (hsub.history ▸ he)
  | resolved =>
    rw [Sys.withWorld, World.ring_resolveCompletion] at he
    exact .inl he
  | released _ hclosed =>
    subst hclosed
    rw [Sys.withWorld, World.release_inner] at he
    exact .inl he
  | delivered => exact .inl (by simpa using he)
  | forgotten => exact .inl (by simpa using he)
  | handleDropped => exact .inl (by simpa using he)
  | _ => exact .inl he

theorem keptGiven_targeted (ok : Sys ws → Action ws → Prop) : KeptGiven ok OnRecord Targeted where
  initial s hs e he := by
    rw [hs.inner] at he
    cases he
  move s s' _ hrecord h hm e he handle u hop := by
    rcases hm.mem_history he with he | ⟨t, op, hcell, -, hcancels⟩
    · obtain ⟨t, p, checked, hacc, hcancels⟩ := h e he handle u hop
      exact ⟨t, p, checked, hm.suffix.subset hacc, hcancels⟩
    · obtain ⟨checked, hacc⟩ := hrecord.accepted hcancels.kind hcell
      exact ⟨t, op.payload, checked, hm.suffix.subset hacc, hcancels⟩
  accepted s s' t p e f _ _ _ _ h _ _ ha x hx handle u hop := by
    rw [ha.ring] at hx
    rcases List.mem_cons.mp hx with rfl | hx
    · have := ha.backs
      rw [hop] at this
      exact this.elim
    · obtain ⟨t, p, checked, hacc, hcancels⟩ := h x hx handle u hop
      exact ⟨t, p, checked, ha.mem_accepted.mpr (.inr hacc), hcancels⟩
  setCursor s file position _ _ h _ e he handle u hop := by
    obtain ⟨t, p, checked, hacc, hcancels⟩ := h e he handle u hop
    exact ⟨t, p, checked, List.mem_cons_of_mem _ hacc, hcancels⟩

-- ---------------------------------------------------------------------------
-- Holds
-- ---------------------------------------------------------------------------

/-- The file an operation on record owns. -/
def Owns (trace : List (Event ws)) (t : Token ws) (file : FileId) : Prop :=
  ∃ p checked, .accepted t p checked ∈ trace ∧ p.file = some file

/-- One hold for each outstanding cancellation of an operation that owns its
file, and no other. -/
structure HoldsExact (holds : List (Token ws × FileId)) (ring : IoRing ws)
    (trace : List (Event ws)) : Prop where
  nodup : (holds.map Prod.fst).Nodup
  mem_iff : ∀ c file, (c, file) ∈ holds ↔
    c.kind = .cancel ∧ c ∈ ring.queued ++ ring.owed ∧ Owns trace c.toOperation file

namespace HoldsExact

variable {holds : List (Token ws × FileId)} {ring ring' : IoRing ws} {trace trace' : List (Event ws)}

/-- The holds depend on which cancellations are outstanding and on what their
operations own. -/
theorem congr (h : HoldsExact holds ring trace)
    (hring : ∀ c, c.kind = .cancel → (c ∈ ring'.queued ++ ring'.owed ↔ c ∈ ring.queued ++ ring.owed))
    (htrace : ∀ c file, c ∈ ring.queued ++ ring.owed →
      (Owns trace' (c : Token ws).toOperation file ↔ Owns trace c.toOperation file)) :
    HoldsExact holds ring' trace' where
  nodup := h.nodup
  mem_iff c file := by
    rw [h.mem_iff]
    refine and_congr_right fun hkind => ?_
    rw [hring c hkind]
    exact and_congr_right fun hc => (htrace c file hc).symm

/-- A cancellation is queued. -/
theorem push {t : Token ws} {target : CancelTarget} {op : SqeOp ws}
    (h : HoldsExact holds ring trace) (hfresh : t.toCancel ∉ ring.queued ++ ring.owed)
    (howns : ∀ file, Owns trace t.toOperation file ↔ target = .owned file) :
    HoldsExact (holds ++ target.hold t.toCancel)
      (ring.push ⟨op, t.toCancel.asUserData⟩) trace where
  nodup := by
    rw [List.map_append]
    refine h.nodup.append ?_ ?_
    · cases target <;> simp [CancelTarget.hold]
    · rintro c hc hc'
      obtain ⟨⟨c, file⟩, hmem, rfl⟩ := List.mem_map.mp hc
      have hout := ((h.mem_iff c file).mp hmem).2.1
      cases target with
      | owned f =>
        simp only [CancelTarget.hold, List.map_cons, List.map_nil, List.mem_singleton] at hc'
        exact hfresh (hc' ▸ hout)
      | registered i => cases hc'
  mem_iff c file := by
    have hout : c ∈ (ring.push ⟨op, t.toCancel.asUserData⟩).queued ++
        (ring.push ⟨op, t.toCancel.asUserData⟩).owed ↔
        c ∈ ring.queued ++ ring.owed ∨ c = t.toCancel := by
      rw [Ledger.queued_push, Ledger.owed_push]
      simp only [List.mem_append, List.mem_singleton, Sqe.token, Token.fromUserData_asUserData]
      tauto
    rw [List.mem_append, h.mem_iff, hout]
    by_cases hc : c = t.toCancel
    · subst hc
      have hnew : (t.toCancel, file) ∈ target.hold t.toCancel ↔ target = .owned file := by
        cases target <;> simp [CancelTarget.hold, eq_comm]
      rw [hnew, Token.toOperation_toCancel, howns]
      simp [hfresh]
    · have hold : (c, file) ∉ target.hold t.toCancel := by
        cases target <;> simp [CancelTarget.hold, hc]
      simp [hold, hc]

/-- A completion is reaped. -/
theorem pop (h : HoldsExact holds ring trace) (hnodup : (ring.queued ++ ring.owed).Nodup)
    (hring : ring.completions = cqe :: rest) :
    HoldsExact (holds.filter fun hold => hold.1 ≠ cqe.token)
      { ring with completions := rest } trace where
  nodup := h.nodup.sublist (List.filter_sublist.map _)
  mem_iff c file := by
    have hpop := Ledger.perm_pop hring
    have hgone := (List.nodup_cons.mp (hpop.nodup_iff.mp hnodup)).1
    have hmem := hpop.mem_iff (a := c)
    rw [List.mem_cons] at hmem
    rw [List.mem_filter, h.mem_iff, hmem]
    by_cases hc : c = cqe.token
    · subst hc
      simp [hgone]
    · simp [hc]

end HoldsExact

/-- The holds of a driver whose ring is open. -/
def HoldsKept (s : Sys ws) : Prop :=
  s.world.inner.ring.closed = false →
    HoldsExact s.world.inner.cancelHolds s.world.inner.ring s.world.trace

theorem HoldsKept.of_inner (h : HoldsKept s) (hm : Move b s s')
    (hinner : s'.world.inner = s.world.inner) : HoldsKept s' := by
  unfold HoldsKept
  rw [hinner]
  refine fun hc => (h hc).congr (fun _ _ => .rfl) fun c file _ => ?_
  simp only [Owns, hm.mem_accepted]

theorem keptGiven_holds (ok : Sys ws → Action ws → Prop) : KeptGiven ok OnRecord HoldsKept where
  initial s hs _ := by
    rw [hs.inner]
    exact ⟨List.nodup_nil, by simp [DriverInner.new]⟩
  move s s' hb hrecord h hm := by
    have howns : ∀ t file, Owns s'.world.trace t file ↔ Owns s.world.trace t file := by
      intro t file
      simp only [Owns, hm.mem_accepted]
    have hsame : s.world.inner.ring.closed = false →
        HoldsExact s.world.inner.cancelHolds s.world.inner.ring s'.world.trace :=
      fun hc => (h hc).congr (fun _ _ => .rfl) fun c file _ => howns _ file
    cases hm with
    | quiet hq =>
      unfold HoldsKept
      rw [hq.world.inner.ring, hq.world.inner.cancelHolds]
      exact hsame
    | executed hring =>
      have hbooks := IoRing.execute_books hring
      intro hc
      refine (hsame (hbooks.closed.symm.trans hc)).congr (fun c _ => ?_) fun _ _ _ => .rfl
      exact ((List.Perm.of_eq (congrArg _ hbooks.queue)).append hbooks.owed).mem_iff
    | reported hring =>
      have hbooks := IoRing.report_books hring
      intro hc
      refine (hsame (hbooks.closed.symm.trans hc)).congr (fun c _ => ?_) fun _ _ _ => .rfl
      exact ((List.Perm.of_eq (congrArg _ hbooks.queue)).append hbooks.owed).mem_iff
    | @cancelled target _ _ t op htorn hopen hkind hcell hlife hcancel htarget =>
      intro _
      have hfresh : t.toCancel ∉ s.world.inner.ring.queued ++ s.world.inner.ring.owed := by
        rw [(hb.ledger hopen).cancel_iff _ t.kind_toCancel, Token.key_toCancel, hcell]
        simp [CancelOutstanding, Cell.cancelPending, hcancel]
      refine (hsame hopen).push hfresh fun file => ?_
      rw [howns, Token.toOperation_of_kind hkind]
      obtain ⟨checked, hacc⟩ := hrecord.accepted hkind hcell
      have htarget' : target = .owned file ↔ op.payload.file = some file := by
        rw [← OpPayload.cancelTarget_owned, htarget, Option.some.injEq]
      rw [htarget']
      constructor
      · rintro ⟨p, checked', hacc', hfile⟩
        rw [(hrecord.2.unique t _ _ _ _ hacc hacc').1]
        exact hfile
      · exact fun hfile => ⟨_, checked, hacc, hfile⟩
    | @retracted _ _ op t hkind hcell hcancel =>
      intro hopen
      have hnone : s.world.inner.cancelHolds.filter (fun hold => hold.1 ≠ t.toCancel) =
          s.world.inner.cancelHolds := by
        refine List.filter_eq_self.mpr fun hold hmem => ?_
        obtain ⟨c, file⟩ := hold
        rw [decide_eq_true_eq]
        rintro rfl
        have hout := (((h hopen).mem_iff _ _).mp hmem).2.1
        rw [(hb.ledger hopen).cancel_iff _ t.kind_toCancel, Token.key_toCancel, hcell] at hout
        simp [CancelOutstanding, Cell.cancelPending, hcancel] at hout
      show HoldsExact (s.world.inner.cancelHolds.filter _) _ _
      rw [hnone]
      exact hsame hopen
    | submitted _ hopen hsub =>
      exact fun _ => (hsame hopen).congr (fun c _ => hsub.perm.mem_iff) fun _ _ _ => .rfl
    | waited _ hopen _ hsub =>
      exact fun _ => (hsame hopen).congr (fun c _ => hsub.perm.mem_iff) fun _ _ _ => .rfl
    | reapedCancel _ hring hkind =>
      have hopen := hb.open_of_completions hring
      exact fun _ => (hsame hopen).pop (hb.ledger hopen).nodup hring
    | @reapedStray cqe _ _ _ hring hkind =>
      have hopen := hb.open_of_completions hring
      refine fun _ => (hsame hopen).congr (fun c hc => ?_) fun _ _ _ => .rfl
      have hne : c ≠ cqe.token := by
        rintro rfl
        rw [hkind] at hc
        cases hc
      rw [(Ledger.perm_pop hring).mem_iff, List.mem_cons, or_iff_right hne]
      exact .rfl
    | @resolved cqe rest _ op _ hring hkind hcell =>
      have hopen := hb.open_of_completions hring
      intro _
      have hbooks := World.resolveCompletion_books (s.world.setInner { s.world.inner with
        slab := (s.world.inner.slab.complete cqe.token).1
        ring := { s.world.inner.ring with completions := rest } }) op.payload cqe
      obtain ⟨_, _, _, _, _, hinner⟩ := hbooks
      have hexact : HoldsExact _ { s.world.inner.ring with completions := rest } _ :=
        (hsame hopen).congr (fun c hc => ?_) fun _ _ _ => .rfl
      · simp only [Sys.withWorld, hinner] at hexact ⊢
        exact hexact
      · have hne : c ≠ cqe.token := by
          rintro rfl
          rw [hkind] at hc
          cases hc
        rw [(Ledger.perm_pop hring).mem_iff, List.mem_cons, or_iff_right hne]
    | released _ hclosed =>
      intro hc
      rw [Sys.withWorld, World.release_inner, hclosed] at hc
      cases hc
    | delivered hfuture hfilled => exact h.of_inner (.delivered (b := false) hfuture hfilled) (by simp)
    | forgotten detached u hfuture => exact h.of_inner (.forgotten (b := false) detached u hfuture) (by simp)
    | handleDropped hhandle => exact h.of_inner (.handleDropped (b := false) hhandle) (by simp)
    | _ => exact hsame
  accepted s s' t p e f _ _ hb hrecord h _ _ ha := by
    have hopen := ha.isOpen
    have htoken : e.token = t := by rw [Sqe.token, ha.userData, Token.fromUserData_asUserData]
    intro _
    rw [ha.cancelHolds, ha.ring]
    refine (h hopen).congr (fun c hc => ?_) fun c file hout => ?_
    · rw [Ledger.queued_push, Ledger.owed_push, htoken]
      simp only [List.mem_append, List.mem_singleton]
      have hne : c ≠ t := by
        rintro rfl
        rw [ha.kind] at hc
        cases hc
      simp [hne]
    · -- The new operation has no cancellation outstanding.
      have hne : c.toOperation ≠ t := by
        rintro rfl
        refine ha.unissued ?_
        rw [Token.key_toOperation]
        cases hkind : c.kind with
        | cancel =>
          have hcell := ((hb.ledger hopen).cancel_iff c hkind).mp hout
          unfold CancelOutstanding at hcell
          split at hcell
          · exact OpSlab.issued_of_cell ‹_›
          · exact hcell.elim
        | operation =>
          rw [List.mem_append, (hb.ledger hopen).queued_iff c hkind,
            (hb.ledger hopen).owed_iff c hkind] at hout
          cases hcell : s.world.inner.slab.cell c.key with
          | some cell => exact OpSlab.issued_of_cell hcell
          | none => simp [hcell, IsBuilt, IsSubmitted] at hout
      simp only [Owns, ha.mem_accepted, hne, false_and, false_or]
  setCursor s file position _ _ h _ hopen := by
    refine (h hopen).congr (fun _ _ => .rfl) fun c f _ => ?_
    have hmem : ∀ t p checked, .accepted t p checked ∈ (s.world.setCursor file position).trace ↔
        .accepted t p checked ∈ s.world.trace := by
      intro t p checked
      simp [World.setCursor, World.trace_emit, Event.traced]
    simp only [Owns, Sys.withWorld, hmem]

-- ---------------------------------------------------------------------------
-- One step
-- ---------------------------------------------------------------------------

/-- Code that does not reap leaves what the platform has where it is. -/
theorem Move.submitted_of_calm (hb : Books s) (h : Move false s s')
    (hcell : s.world.inner.slab.cell k = some (.live op)) (hlife : op.lifecycle = .submitted) :
    ∃ op', s'.world.inner.slab.cell k = some (.live op') ∧ op'.lifecycle = .submitted ∧
      op'.payload = op.payload := by
  have hkept : ∀ {slab : OpSlab ws OpPayload}, slab.cell = s.world.inner.slab.cell →
      ∃ op', slab.cell k = some (.live op') ∧ op'.lifecycle = .submitted ∧
        op'.payload = op.payload :=
    fun h => ⟨op, h ▸ hcell, hlife, rfl⟩
  cases h with
  | quiet hq => exact hkept (by rw [hq.world.inner.slab])
  | refused hsame => exact hkept hsame
  | @cancelled _ _ _ t op' _ _ hkind hlive _ hcancel =>
    have hcell' := (OpSlab.cell_registerCancel hkind hlive hcancel).1
    by_cases hk : k = t.key
    · subst hk
      obtain rfl := Cell.live.inj (Option.some.inj (hlive.symm.trans hcell))
      exact ⟨_, (congrFun hcell' _).trans (Function.update_self ..), hlife, rfl⟩
    · exact ⟨op, (congrFun hcell' _).trans ((Function.update_of_ne hk ..).trans hcell), hlife, rfl⟩
  | submitted =>
    have hpromoted : op.promote = op := by simp [Occupant.promote, hlife]
    refine ⟨op, ?_, hlife, rfl⟩
    show s.world.inner.slab.promoteBuiltToSubmitted.cell k = _
    rw [OpSlab.cell_promote, hcell]
    exact congrArg (some ∘ Cell.live) hpromoted
  | released hsealed =>
    exact absurd hlife ((OpSlab.awaitingKernel_eq_zero.mp (hb.sealed hsealed) k).2 op hcell)
  | detached t =>
    by_cases hlive : ∃ op', s.world.inner.slab.cell t.key = some (.live op')
    · obtain ⟨op', hop'⟩ := hlive
      have hcell' := OpSlab.cell_detach hop'
      by_cases hk : k = t.key
      · subst hk
        obtain rfl := Cell.live.inj (Option.some.inj (hop'.symm.trans hcell))
        exact ⟨_, (congrFun hcell' _).trans (Function.update_self ..), hlife, rfl⟩
      · exact ⟨op, (congrFun hcell' _).trans ((Function.update_of_ne hk ..).trans hcell), hlife, rfl⟩
    · exact hkept (congrArg (·.1.cell) (OpSlab.detach_inert (not_exists.mp hlive)))
  | delivered => exact hkept (by simp)
  | forgotten => exact hkept (by simp)
  | handleDropped => exact hkept (by simp)
  | _ => exact hkept rfl

/-- What a stretch of such code builds is for operations the platform has when it
ends. -/
theorem Moves.mem_history (hb : Books s) (h : Moves false s s')
    (he : e ∈ s'.world.inner.ring.history) : e ∈ s.world.inner.ring.history ∨
      ∃ t op, s'.world.inner.slab.cell t.key = some (.live op) ∧ op.lifecycle = .submitted ∧
        Cancels e t op.payload := by
  suffices Books s' ∧ (e ∈ s'.world.inner.ring.history → e ∈ s.world.inner.ring.history ∨
      ∃ t op, s'.world.inner.slab.cell t.key = some (.live op) ∧ op.lifecycle = .submitted ∧
        Cancels e t op.payload) from this.2 he
  clear he
  induction h with
  | refl => exact ⟨hb, .inl⟩
  | @tail s₁ s₂ _ hlast ih =>
    obtain ⟨hb₁, ih⟩ := ih
    refine ⟨hb₁.move hlast, fun he => ?_⟩
    rcases hlast.mem_history he with he | ⟨t, op, hcell, hlife, hcancels⟩
    · rcases ih he with he | ⟨t, op, hcell, hlife, hcancels⟩
      · exact .inl he
      · obtain ⟨op', hcell', hlife', hp⟩ := hlast.submitted_of_calm hb₁ hcell hlife
        exact .inr ⟨t, op', hcell', hlife', hp ▸ hcancels⟩
    · obtain ⟨op', hcell', hlife', hp⟩ := hlast.submitted_of_calm hb₁ hcell hlife
      exact .inr ⟨t, op', hcell', hlife', hp ▸ hcancels⟩

/-- A step builds no cancellation but for an operation that was submitted, and
that the step leaves unreaped. -/
theorem step_cancels (hr : (systemMachine ws).Reachable s) (h : s.step a = some s')
    (he : e ∈ s'.world.inner.ring.history) (hnew : e ∉ s.world.inner.ring.history)
    (hop : e.op = .cancel handle u) :
    ∃ t op, s'.world.inner.slab.cell t.key = some (.live op) ∧ op.lifecycle = .submitted ∧
      Cancels e t op.payload := by
  have hb := books_of_reachable hr
  cases step_stride hb.noneDescribed h with
  | @moves b _ hm hcalm =>
    cases b with
    | true => exact absurd (hcalm rfl ▸ he) hnew
    | false => exact (Moves.mem_history hb hm he).resolve_left hnew
  | accepted _ ha =>
    rw [ha.ring] at he
    rcases List.mem_cons.mp he with rfl | he
    · have := ha.backs
      rw [hop] at this
      exact this.elim
    · exact absurd he hnew
  | setCursor heq =>
    subst heq
    exact absurd he hnew

/-- Over every run: each cancellation built names an operation the driver had
submitted and not reaped, and the file that operation named; and until the
driver is torn down there is one hold for each outstanding cancellation of an
operation that owns its file, and no other. -/
theorem cancellation_targeted (hr : (systemMachine ws).Reachable s) :
    (∀ a s', s.step a = some s' → ∀ e ∈ s'.world.inner.ring.history,
      e ∉ s.world.inner.ring.history → ∀ handle u, e.op = .cancel handle u →
      ∃ t op, s'.world.inner.slab.cell t.key = some (.live op) ∧ op.lifecycle = .submitted ∧
        Cancels e t op.payload) ∧
    (∀ e ∈ s.world.inner.ring.history, ∀ handle u, e.op = .cancel handle u →
      ∃ t p checked, .accepted t p checked ∈ s.world.log ∧ Cancels e t p) ∧
    (s.world.inner.tornDown = false →
      HoldsExact s.world.inner.cancelHolds s.world.inner.ring s.world.log) := by
  refine ⟨fun a s' h e he hnew handle u hop => step_cancels hr h he hnew hop,
    fun e he handle u hop => ?_, fun htorn => ?_⟩
  · have htargeted := ((kept_onRecord _).and (keptGiven_targeted _)).reachable hr
    obtain ⟨t, p, checked, hacc, hcancels⟩ := htargeted.2 e he handle u hop
    exact ⟨t, p, checked, World.mem_log hacc, hcancels⟩
  · have hholds := ((kept_onRecord _).and (keptGiven_holds _)).reachable hr
    have hopen : s.world.inner.ring.closed = false := by
      rw [← (books_of_reachable hr).tornDown]
      exact htorn
    refine (hholds.2 hopen).congr (fun _ _ => .rfl) fun c file _ => ?_
    simp only [Owns, World.trace, List.mem_filter, Event.traced, and_true]

/-- A read of an owned file, cancelled once the platform had it. -/
theorem cancellation_targeted_owned : ∃ s : Sys .w64, ∃ c,
    s.world.inner.cancelHolds = [(c, 3)] ∧ c ∈ s.world.inner.ring.queued ∧
    HoldsExact s.world.inner.cancelHolds s.world.inner.ring s.world.log := by
  obtain ⟨s, hrun, hholds, hqueued, htorn⟩ : ∃ s, (systemMachine .w64).run .new
      [.start (.flush 3) .willing, .pollDrive 7 .willing, .advance .willing, .advance .willing,
        .cancel ⟨2 ^ 17⟩ none] = some s ∧
      s.world.inner.cancelHolds = [((⟨2 ^ 17⟩ : Token .w64).toCancel, 3)] ∧
      s.world.inner.ring.queued = [(⟨2 ^ 17⟩ : Token .w64).toCancel] ∧
      s.world.inner.tornDown = false :=
    ⟨_, rfl, rfl, rfl, rfl⟩
  exact ⟨s, _, hholds, by rw [hqueued]; simp,
    (cancellation_targeted (reachable_of_run hrun)).2.2 htorn⟩

end WinIoring.Runtime
