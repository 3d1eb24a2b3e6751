import WinIoring.Runtime.Safety

/-!
# Cancellation

A cancellation is correlated with its operation by the slot they share. It is
asked for once, it keeps the slot until it is reported, and its report is not
the operation's.
-/

namespace WinIoring.Runtime

open Slab

variable {ws : WordSize} {s s' : Sys ws}

-- ---------------------------------------------------------------------------
-- The entries of a closed ring
-- ---------------------------------------------------------------------------

/-- A closed ring does not change. -/
theorem Move.ring_of_closed (hb : Books s) (h : Move b s s')
    (hc : s'.world.inner.ring.closed = true) : s'.world.inner.ring = s.world.inner.ring ∨
      s.pc.sealed = true ∧ s'.world.inner.ring = { s.world.inner.ring with closed := true } := by
  have habsurd : ∀ {p : Prop}, s.world.inner.ring.closed = false →
      s.world.inner.ring.closed = true → p := fun h h' => nomatch h.symm.trans h'
  cases h with
  | quiet hq => exact .inl hq.world.inner.ring
  | executed hring =>
    rename_i e _ _
    have hclosed := (IoRing.execute_books hring).closed.symm.trans hc
    simp [IoRing.execute, (hb.completions_of_closed hclosed).1] at hring
  | reported hring =>
    have hclosed := (IoRing.report_books hring).closed.symm.trans hc
    simp [IoRing.report, (hb.completions_of_closed hclosed).2.1] at hring
  | cancelled _ hopen => exact habsurd hopen hc
  | submitted _ hopen hsub => exact habsurd hopen (hsub.closed.symm.trans hc)
  | waited _ hopen _ hsub => exact habsurd hopen (hsub.closed.symm.trans hc)
  | reapedCancel _ hring => exact habsurd (hb.open_of_completions hring) hc
  | reapedStray _ hring => exact habsurd (hb.open_of_completions hring) hc
  | resolved _ hring =>
    rw [Sys.withWorld, World.ring_resolveCompletion] at hc
    exact habsurd (hb.open_of_completions hring) hc
  | @released ring _ _ hsealed hclosed =>
    refine .inr ⟨hsealed, ?_⟩
    rw [Sys.withWorld, World.release_inner]
    exact hclosed
  | delivered => exact .inl (by simp)
  | forgotten => exact .inl (by simp)
  | handleDropped => exact .inl (by simp)
  | _ => exact .inl rfl

/-- The only entry a move builds is a cancellation, under its target's cancel
token. -/
theorem Move.history (h : Move b s s') :
    s'.world.inner.ring.history = s.world.inner.ring.history ∨
    ∃ (t : Token ws) (handle : HandleRef), s'.world.inner.ring.history =
      ⟨.cancel handle t.asUserData, t.toCancel.asUserData⟩ :: s.world.inner.ring.history := by
  cases h with
  | quiet hq => exact .inl (congrArg _ hq.world.inner.ring)
  | executed hring => exact .inl (IoRing.execute_books hring).history
  | reported hring => exact .inl (IoRing.report_books hring).history
  | cancelled => exact .inr ⟨_, _, rfl⟩
  | submitted _ _ hsub => exact .inl hsub.history
  | waited _ _ _ hsub => exact .inl hsub.history
  | resolved =>
    rw [Sys.withWorld, World.ring_resolveCompletion]
    exact .inl rfl
  | released _ hclosed =>
    subst hclosed
    rw [Sys.withWorld, World.release_inner]
    exact .inl rfl
  | delivered => exact .inl (by simp)
  | forgotten => exact .inl (by simp)
  | handleDropped => exact .inl (by simp)
  | _ => exact .inl rfl

/-- What holds of a ring's entries, be it open or closed. -/
structure Filed (r : IoRing ws) : Prop where
  nodup : (r.queued ++ r.owed).Nodup
  history : (r.history.map Sqe.token).Nodup
  leftover : r.closed = true → ∀ t ∈ r.queued, t.kind = .operation
  cancels : ∀ e ∈ r.history, ∀ handle u, e.op = .cancel handle u →
    e.token = (Token.fromUserData u).toCancel

/-- A ring about to be closed holds no cancellation. -/
theorem Books.queued_of_sealed (hb : Books s) (hsealed : s.pc.sealed = true)
    (hopen : s.world.inner.ring.closed = false) (ht : t ∈ s.world.inner.ring.queued) :
    t.kind = .operation := by
  cases hkind : t.kind with
  | operation => rfl
  | cancel =>
    have hout := ((hb.ledger hopen).cancel_iff t hkind).mp (List.mem_append_left _ ht)
    exact absurd hout (hb.not_cancelOutstanding hsealed hopen _)

theorem kept_filed (ok : Sys ws → Action ws → Prop) : Kept ok fun s => Filed s.world.inner.ring where
  initial s hs := by
    rw [hs.inner]
    exact ⟨List.nodup_nil, List.nodup_nil, (nomatch ·), fun _ h => nomatch h⟩
  move s s' hb h hm := by
    have hcancels : ∀ e ∈ s'.world.inner.ring.history, ∀ handle u, e.op = .cancel handle u →
        e.token = (Token.fromUserData u).toCancel := by
      rcases hm.history with heq | ⟨t, hd, heq⟩
      · rw [heq]
        exact h.cancels
      · rw [heq]
        rintro e he handle u hop
        rcases List.mem_cons.mp he with rfl | he
        · cases hop
          rfl
        · exact h.cancels e he handle u hop
    cases hc : s'.world.inner.ring.closed with
    | false =>
      have hledger := (hb.move hm).ledger hc
      exact ⟨hledger.nodup, hledger.history_nodup, (nomatch hc.symm.trans ·), hcancels⟩
    | true =>
      rcases hm.ring_of_closed hb hc with heq | ⟨hsealed, heq⟩
      · rw [heq]
        exact h
      · rw [heq]
        refine ⟨h.nodup, h.history, fun _ t ht => ?_, h.cancels⟩
        cases hopen : s.world.inner.ring.closed with
        | true => exact h.leftover hopen t ht
        | false => exact hb.queued_of_sealed hsealed hopen ht
  accepted s s' t p e f _ _ hb h _ _ ha := by
    have hopen : s'.world.inner.ring.closed = false := by
      rw [ha.ring]
      exact ha.isOpen
    have hledger := (hb.accepted ha).ledger hopen
    refine ⟨hledger.nodup, hledger.history_nodup, (nomatch hopen.symm.trans ·), ?_⟩
    rw [ha.ring]
    rintro x hx handle u hop
    rcases List.mem_cons.mp hx with rfl | hx
    · have := ha.backs
      rw [hop] at this
      exact this.elim
    · exact h.cancels x hx handle u hop
  setCursor s file position _ h _ := h

-- ---------------------------------------------------------------------------
-- Correlation
-- ---------------------------------------------------------------------------

/-- Whether an entry asks for an operation to be cancelled. -/
def Sqe.cancels (e : Sqe ws) (t : Token ws) : Bool :=
  match e.op with
  | .cancel _ opToCancel => opToCancel = t.asUserData
  | _ => false

theorem length_le_one {f : α → β} {l : List α} (hnodup : (l.map f).Nodup)
    (hconst : ∀ x ∈ l, f x = a) : l.length ≤ 1 := by
  match l with
  | [] => exact Nat.zero_le 1
  | [x] => exact Nat.le_refl 1
  | x :: y :: rest =>
    have hx := hconst x (by simp)
    have hy := hconst y (by simp)
    simp [hx, hy] at hnodup

theorem Filed.once {r : IoRing ws} (h : Filed r) (t : Token ws) :
    (r.history.filter (Sqe.cancels · t)).length ≤ 1 := by
  refine length_le_one (f := Sqe.token) (a := t.toCancel)
    (h.history.sublist (List.filter_sublist.map _)) fun e he => ?_
  obtain ⟨he, hcancels⟩ := List.mem_filter.mp he
  unfold Sqe.cancels at hcancels
  split at hcancels
  · rename_i handle u hop
    rw [h.cancels e he handle u hop, of_decide_eq_true hcancels, Token.fromUserData_asUserData]
  · cases hcancels

/-- The report of a cancellation touches no payload and no result. -/
theorem reapOne_cancel {w : World ws} (hring : w.inner.ring.completions = cqe :: rest)
    (hkind : cqe.token.kind = .cancel) (failure : Option HResult) :
    (w.reapOne failure).1.results = w.results ∧ (w.reapOne failure).1.log = w.log ∧
    ∀ k op, w.inner.slab.cell k = some (.live op) →
      ∃ op', (w.reapOne failure).1.inner.slab.cell k = some (.live op') ∧
        op'.payload = op.payload := by
  unfold World.reapOne
  split
  · exact ⟨rfl, rfl, fun k op hop => ⟨op, hop, rfl⟩⟩
  · exact ⟨rfl, rfl, fun k op hop => ⟨op, hop, rfl⟩⟩
  rename_i ring cqe' hpop
  obtain ⟨rest', hring', rfl⟩ := IoRing.pop_some hpop
  obtain ⟨rfl, rfl⟩ := List.cons.inj (hring.symm.trans hring')
  have hcancel : (Token.fromUserData cqe.userData).kind = .cancel := hkind
  dsimp only
  rw [if_pos hcancel]
  refine ⟨rfl, rfl, fun k op hop => ?_⟩
  by_cases hpending : ∃ c, w.inner.slab.cell cqe.token.key = some c ∧ c.cancelPending
  · obtain ⟨c, hc, hp⟩ := hpending
    have hcell := (OpSlab.cell_completeCancel hkind hc hp).1
    by_cases hk : k = cqe.token.key
    · subst hk
      obtain rfl := Option.some.inj (hc.symm.trans hop)
      refine ⟨{ op with cancel := .completed }, (congrFun hcell _).trans ?_, rfl⟩
      rw [Function.update_self]
      rfl
    · refine ⟨op, (congrFun hcell k).trans ?_, rfl⟩
      rw [Function.update_of_ne hk]
      exact hop
  · have hinert := OpSlab.completeCancel_inert fun _ c hc hp => hpending ⟨c, hc, hp⟩
    exact ⟨op, (congrArg (fun r => r.1.cell k) hinert).trans hop, rfl⟩

/-- A cancellation outstanding keeps its operation's slot. -/
theorem Books.cell_of_outstanding (hb : Books s) (hf : Filed s.world.inner.ring)
    {t : Token ws}
    (ht : t.toCancel ∈ s.world.inner.ring.queued ++ s.world.inner.ring.owed) :
    ∃ c, s.world.inner.slab.cell t.key = some c := by
  cases hc : s.world.inner.ring.closed with
  | false =>
    have hout := ((hb.ledger hc).cancel_iff _ t.kind_toCancel).mp ht
    rw [Token.key_toCancel] at hout
    unfold CancelOutstanding at hout
    split at hout
    · exact ⟨_, ‹_›⟩
    · exact hout.elim
  | true =>
    rw [(hb.closed hc).1, List.append_nil] at ht
    have := hf.leftover hc _ ht
    rw [t.kind_toCancel] at this
    cases this

/-- Over every run: an operation has at most one cancellation outstanding, and
none is built again once one was; while one is outstanding its slot's index is
not issued again; its completion touches no payload and no result; one the ring
refuses leaves the slab as it was; and it commutes with its operation's
completion. -/
theorem cancellation_correlated (hr : (systemMachine ws).Reachable s) :
    (∀ t, (s.world.inner.ring.queued ++ s.world.inner.ring.owed).count t ≤ 1) ∧
    (∀ t, (s.world.inner.ring.history.filter (Sqe.cancels · t)).length ≤ 1) ∧
    (∀ t : Token ws, t.toCancel ∈ s.world.inner.ring.queued ++ s.world.inner.ring.owed →
      ∀ k, k.index = t.index → s.world.inner.slab.Issued k → k.generation ≤ t.generation) ∧
    (∀ cqe rest failure, s.world.inner.ring.completions = cqe :: rest → cqe.token.kind = .cancel →
      (s.world.reapOne failure).1.results = s.world.results ∧
      (s.world.reapOne failure).1.log = s.world.log ∧
      ∀ k op, s.world.inner.slab.cell k = some (.live op) →
        ∃ op', (s.world.reapOne failure).1.inner.slab.cell k = some (.live op') ∧
          op'.payload = op.payload) ∧
    (∀ t hr, (s.world.inner.issueCancel t (some hr)).slab = s.world.inner.slab) ∧
    ∀ (slab : OpSlab ws OpPayload) (t : Token ws) op, t.kind = .operation →
      slab.cell t.key = some (.live op) → op.cancel = .pending →
      ((slab.complete t).1.completeCancel t.toCancel).1 =
        ((slab.completeCancel t.toCancel).1.complete t).1 := by
  have hb := books_of_reachable hr
  have hf := (kept_filed _).reachable hr
  refine ⟨fun t => ?_, hf.once, fun t ht k hindex hissued => ?_,
    fun cqe rest failure hring hkind => reapOne_cancel hring hkind failure, fun t hr => ?_,
    fun slab t op hkind hcell hpending => OpSlab.complete_completeCancel hkind hcell hpending⟩
  · exact List.nodup_iff_count_le_one.mp hf.nodup t
  · obtain ⟨c, hc⟩ := hb.cell_of_outstanding hf ht
    exact OpSlab.generation_le_of_cell hc hissued hindex
  · rcases Moves.issueCancel_cases s.world.inner t (some hr) with
      hsame | ⟨_, _, _, _, hsame⟩ | ⟨_, _, hnone, -⟩
    · exact hsame.slab
    · exact hsame.slab
    · cases hnone

/-- A read cancelled once the platform had it: asked for again, the cancellation
is not built again. -/
theorem cancellation_correlated_twice : ∃ s : Sys .w64,
    (s.world.inner.ring.queued ++ s.world.inner.ring.owed).length = 2 ∧
    (s.world.inner.ring.history.filter (Sqe.cancels · ⟨2 ^ 17⟩)).length = 1 ∧
    ∀ k : Key, k.index = 0 → s.world.inner.slab.Issued k → k.generation ≤ 1 := by
  obtain ⟨s, hrun, hlength, hqueued, hcount⟩ : ∃ s, (systemMachine .w64).run .new
      [.start (.flush 3) .willing, .pollDrive 7 .willing, .advance .willing, .advance .willing,
        .cancel ⟨2 ^ 17⟩ none, .cancel ⟨2 ^ 17⟩ none] = some s ∧
      (s.world.inner.ring.queued ++ s.world.inner.ring.owed).length = 2 ∧
      s.world.inner.ring.queued = [(⟨2 ^ 17⟩ : Token .w64).toCancel] ∧
      (s.world.inner.ring.history.filter (Sqe.cancels · ⟨2 ^ 17⟩)).length = 1 :=
    ⟨_, rfl, rfl, rfl, rfl⟩
  obtain ⟨-, -, hindex, -⟩ := cancellation_correlated (reachable_of_run hrun)
  refine ⟨s, hlength, hcount, fun k hk hissued => ?_⟩
  exact hindex ⟨2 ^ 17⟩ (by rw [hqueued]; simp) k (hk.trans (by decide)) hissued

end WinIoring.Runtime
