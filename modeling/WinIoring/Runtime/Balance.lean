import WinIoring.Runtime.Strides

/-!
# Every move balances the ledger

An open ring's ledger holds at every reachable state, and a ring is closed only
once the platform owes nothing.
-/

namespace WinIoring.Runtime

open Slab

variable {ws : WordSize}

namespace Ledger

variable {slab slab' : OpSlab ws OpPayload} {ring ring' : IoRing ws} {pending : Bool} {t : Token ws}

theorem key_ne {u : Token ws} (hk : t.kind = u.kind) (hne : t ≠ u) : t.key ≠ u.key :=
  fun h => hne (Token.ext_key hk h)

theorem not_queued (h : Ledger slab ring pending) (hkind : t.kind = .operation)
    (hcell : ¬ IsBuilt (slab.cell t.key)) : t ∉ ring.queued :=
  fun hq => hcell ((h.queued_iff t hkind).mp hq)

theorem not_owed (h : Ledger slab ring pending) (hkind : t.kind = .operation)
    (hcell : ¬ IsSubmitted (slab.cell t.key)) : t ∉ ring.owed :=
  fun ho => hcell ((h.owed_iff t hkind).mp ho)

-- ---------------------------------------------------------------------------
-- Entries joining the queue
-- ---------------------------------------------------------------------------

section Push

variable {e : Sqe ws}

theorem queued_push : (ring.push e).queued = ring.queued ++ [e.token] := by
  simp [IoRing.queued, IoRing.push]

theorem owed_push : (ring.push e).owed = ring.owed := rfl

theorem mem_entries_push {x : Sqe ws} : x ∈ (ring.push e).entries ↔ x ∈ ring.entries ∨ x = e := by
  simp only [IoRing.entries, IoRing.push, List.mem_append, List.mem_singleton]
  tauto

theorem nodup_push (h : Ledger slab ring pending) (hfresh : e.token ∉ ring.queued ++ ring.owed) :
    ((ring.push e).queued ++ (ring.push e).owed).Nodup := by
  have hperm : ((ring.push e).queued ++ (ring.push e).owed).Perm
      (e.token :: (ring.queued ++ ring.owed)) := by
    rw [queued_push, owed_push, List.append_assoc]
    exact List.perm_middle
  exact hperm.nodup_iff.mpr (List.nodup_cons.mpr ⟨hfresh, h.nodup⟩)

/-- A new operation's entry. -/
theorem accept (h : Ledger slab ring pending) {p : OpPayload} (hkind : t.kind = .operation)
    (hunissued : ¬ slab.Issued t.key)
    (hcell : slab'.cell = Function.update slab.cell t.key (some (.live
      { lifecycle := .built, observer := .live, payload := p, cancel := .neverRequested })))
    (hissued : ∀ k, slab'.Issued k ↔ slab.Issued k ∨ k = t.key)
    (huser : e.userData = t.asUserData) (hbacks : Backs p e.op) :
    Ledger slab' (ring.push e) true := by
  have htoken : e.token = t := by rw [Sqe.token, huser, Token.fromUserData_asUserData]
  have hnone : slab.cell t.key = none := by
    cases hc : slab.cell t.key with
    | none => rfl
    | some c => exact absurd (OpSlab.issued_of_cell hc) hunissued
  have hnew : slab'.cell t.key = some (.live
      { lifecycle := .built, observer := .live, payload := p, cancel := .neverRequested }) := by
    rw [hcell, Function.update_self]
  have hold : ∀ k, k ≠ t.key → slab'.cell k = slab.cell k := by
    intro k hk
    rw [hcell, Function.update_of_ne hk]
  have hqueued : t ∉ ring.queued := h.not_queued hkind (by rw [hnone]; exact id)
  have howed : t ∉ ring.owed := h.not_owed hkind (by rw [hnone]; exact id)
  refine
    { nodup := h.nodup_push (by simp [htoken, hqueued, howed])
      queued_iff := fun u hu => ?_
      owed_iff := fun u hu => ?_
      cancel_iff := fun u hu => ?_
      described := fun k op hop => ?_
      built := fun k op hop hb => ?_
      backed := fun x hx hxk => ?_
      cancels := fun x hx hxk => ?_
      pending := fun _ => rfl
      history_nodup := ?_
      history_issued := fun x hx => ?_
      history_cancel := fun x hx hxk => ?_ }
  · rw [queued_push, htoken, List.mem_append, List.mem_singleton]
    by_cases hut : u = t
    · subst hut
      simp [hnew, IsBuilt]
    · rw [hold _ (key_ne (hu.trans hkind.symm) hut), h.queued_iff u hu]
      simp [hut]
  · rw [owed_push]
    by_cases hut : u = t
    · subst hut
      simp [hnew, IsSubmitted, howed]
    · rw [hold _ (key_ne (hu.trans hkind.symm) hut), h.owed_iff u hu]
  · have hne : u ≠ t := fun he => by simp [he, hkind] at hu
    rw [queued_push, owed_push, htoken, List.append_assoc, List.mem_append, List.mem_append,
      List.mem_singleton, or_iff_right hne, ← List.mem_append, h.cancel_iff u hu]
    by_cases hk : u.key = t.key
    · rw [hk, hnone, hnew]
      simp [CancelOutstanding, Cell.cancelPending]
    · rw [hold _ hk]
  · by_cases hk : k = t.key
    · subst hk
      cases hnew.symm.trans hop
      rintro ⟨⟩
    · exact h.described k op (hold k hk ▸ hop)
  · by_cases hk : k = t.key
    · subst hk
      cases hnew.symm.trans hop
      rfl
    · exact h.built k op (hold k hk ▸ hop) hb
  · rcases mem_entries_push.mp hx with hx | rfl
    · obtain ⟨op, hop, hbacked⟩ := h.backed x hx hxk
      refine ⟨op, ?_, hbacked⟩
      rw [hold _ fun hk => by rw [hk, hnone] at hop; cases hop]
      exact hop
    · exact ⟨_, htoken ▸ hnew, hbacks⟩
  · rcases mem_entries_push.mp hx with hx | rfl
    · exact h.cancels x hx hxk
    · simp [htoken, hkind] at hxk
  · simp only [IoRing.push, List.map_cons, List.nodup_cons]
    refine ⟨fun hmem => ?_, h.history_nodup⟩
    obtain ⟨x, hx, hxe⟩ := List.mem_map.mp hmem
    exact hunissued (htoken ▸ hxe ▸ h.history_issued x hx)
  · rcases List.mem_cons.mp hx with rfl | hx
    · exact (hissued _).mpr (.inr (by rw [htoken]))
    · exact (hissued _).mpr (.inl (h.history_issued x hx))
  · rcases List.mem_cons.mp hx with rfl | hx
    · simp [htoken, hkind] at hxk
    · have hk : x.token.key ≠ t.key := fun hk => hunissued (hk ▸ h.history_issued x hx)
      rw [hold _ hk]
      exact h.history_cancel x hx hxk

/-- A cancellation's entry. -/
theorem cancel (h : Ledger slab ring pending) (hkind : t.kind = .operation)
    (hcell : slab.cell t.key = some (.live op)) (hlife : op.lifecycle = .submitted)
    (hnever : op.cancel = .neverRequested) (handle : HandleRef) :
    Ledger (slab.registerCancel t).1
      (ring.push ⟨.cancel handle t.asUserData, t.toCancel.asUserData⟩) true := by
  have htoken : (Sqe.mk (.cancel handle t.asUserData) t.toCancel.asUserData).token = t.toCancel := rfl
  have hcell' := (OpSlab.cell_registerCancel hkind hcell hnever).1
  have hnew : (slab.registerCancel t).1.cell t.key = some (.live { op with cancel := .pending }) := by
    rw [hcell', Function.update_self]
  have hold : ∀ k, k ≠ t.key → (slab.registerCancel t).1.cell k = slab.cell k := by
    intro k hk
    rw [hcell', Function.update_of_ne hk]
  have hfresh : t.toCancel ∉ ring.queued ++ ring.owed := by
    rw [h.cancel_iff _ t.kind_toCancel, Token.key_toCancel, hcell]
    simp [CancelOutstanding, Cell.cancelPending, hnever]
  refine
    { nodup := h.nodup_push hfresh
      queued_iff := fun u hu => ?_
      owed_iff := fun u hu => ?_
      cancel_iff := fun u hu => ?_
      described := fun k op' hop => ?_
      built := fun k op' hop hb => ?_
      backed := fun x hx hxk => ?_
      cancels := fun x hx hxk => ?_
      pending := fun _ => rfl
      history_nodup := ?_
      history_issued := fun x hx => ?_
      history_cancel := fun x hx hxk op' hop => ?_ }
  · have hne : u ≠ t.toCancel := fun he => by simp [he] at hu
    rw [queued_push, htoken, List.mem_append, List.mem_singleton, or_iff_left hne, h.queued_iff u hu]
    by_cases hk : u.key = t.key
    · rw [hk, hcell, hnew]
      rfl
    · rw [hold _ hk]
  · rw [owed_push, h.owed_iff u hu]
    by_cases hk : u.key = t.key
    · rw [hk, hcell, hnew]
      rfl
    · rw [hold _ hk]
  · rw [queued_push, owed_push, htoken, List.append_assoc, List.mem_append, List.mem_append,
      List.mem_singleton]
    by_cases hut : u = t.toCancel
    · subst hut
      simp [hnew, CancelOutstanding, Cell.cancelPending]
    · have hk : u.key ≠ t.key := by
        rw [← t.key_toCancel]
        exact key_ne (hu.trans t.kind_toCancel.symm) hut
      rw [or_iff_right hut, ← List.mem_append, h.cancel_iff u hu, hold _ hk]
  · by_cases hk : k = t.key
    · subst hk
      cases hnew.symm.trans hop
      show op.lifecycle ≠ .described
      exact h.described _ _ hcell
    · exact h.described k op' (hold k hk ▸ hop)
  · by_cases hk : k = t.key
    · subst hk
      cases hnew.symm.trans hop
      simp [hlife] at hb
    · exact h.built k op' (hold k hk ▸ hop) hb
  · rcases mem_entries_push.mp hx with hx | rfl
    · obtain ⟨op', hop, hbacked⟩ := h.backed x hx hxk
      by_cases hk : x.token.key = t.key
      · rw [hk] at hop
        cases hcell.symm.trans hop
        exact ⟨{ op with cancel := .pending }, by rw [hk, hnew], hbacked⟩
      · exact ⟨op', (hold _ hk).trans hop, hbacked⟩
    · simp [htoken] at hxk
  · rcases mem_entries_push.mp hx with hx | rfl
    · exact h.cancels x hx hxk
    · refine ⟨handle, ?_⟩
      rw [htoken, Token.toOperation_toCancel, Token.toOperation_of_kind hkind]
  · simp only [IoRing.push, List.map_cons, List.nodup_cons]
    refine ⟨fun hmem => ?_, h.history_nodup⟩
    obtain ⟨x, hx, hxe⟩ := List.mem_map.mp hmem
    rw [htoken] at hxe
    exact h.history_cancel x hx (by rw [hxe, t.kind_toCancel]) op
      (by rw [hxe, Token.key_toCancel, hcell]) hnever
  · rw [OpSlab.issued_registerCancel]
    rcases List.mem_cons.mp hx with rfl | hx
    · rw [htoken, Token.key_toCancel]
      exact OpSlab.issued_of_cell hcell
    · exact h.history_issued x hx
  · rcases List.mem_cons.mp hx with rfl | hx
    · rw [htoken, Token.key_toCancel, hnew] at hop
      cases hop
      rintro ⟨⟩
    · by_cases hk : x.token.key = t.key
      · rw [hk, hnew] at hop
        cases hop
        rintro ⟨⟩
      · exact h.history_cancel x hx hxk op' (hold _ hk ▸ hop)

end Push

-- ---------------------------------------------------------------------------
-- Submission
-- ---------------------------------------------------------------------------

theorem isBuilt_promote (c : Option (Cell OpPayload)) : ¬ IsBuilt (c.map Cell.promote) := by
  rcases c with _ | ⟨op⟩ | _
  · exact id
  · simp only [Option.map_some, Cell.promote, Occupant.promote, IsBuilt]
    split
    · rintro ⟨⟩
    · assumption
  · exact id

theorem isSubmitted_promote (c : Option (Cell OpPayload)) :
    IsSubmitted (c.map Cell.promote) ↔ IsBuilt c ∨ IsSubmitted c := by
  rcases c with _ | ⟨op⟩ | _
  · simp [IsSubmitted, IsBuilt]
  · simp only [Option.map_some, Cell.promote, Occupant.promote, IsBuilt, IsSubmitted]
    split <;> simp_all
  · simp [IsSubmitted, IsBuilt, Cell.promote]

theorem cancelOutstanding_promote (c : Option (Cell OpPayload)) :
    CancelOutstanding (c.map Cell.promote) ↔ CancelOutstanding c := by
  rcases c with _ | ⟨op⟩ | _
  · rfl
  · simp only [Option.map_some, Cell.promote, Occupant.promote, CancelOutstanding, Cell.cancelPending]
    split <;> rfl
  · rfl

theorem promote_live {slab : OpSlab ws OpPayload}
    (h : slab.promoteBuiltToSubmitted.cell k = some (.live op)) :
    ∃ old, slab.cell k = some (.live old) ∧ op = old.promote := by
  rw [OpSlab.cell_promote] at h
  obtain ⟨c, hc, hp⟩ := Option.map_eq_some_iff.mp h
  cases c with
  | live old => exact ⟨old, hc, (Cell.live.inj hp).symm⟩
  | tombstone => cases hp

theorem submit (h : Ledger slab ring pending) (hsub : IoRing.Submitted ring ring' fun _ => true) :
    Ledger slab.promoteBuiltToSubmitted ring' false := by
  have hnil : ring'.queue = [] := by simp [hsub.queue]
  have hqueued : ring'.queued = [] := by simp [IoRing.queued, hnil]
  have howed : ring'.owed.Perm (ring.queued ++ ring.owed) := by
    simpa [hqueued] using hsub.perm
  refine
    { nodup := hsub.perm.nodup_iff.mpr h.nodup
      queued_iff := fun u hu => ?_
      owed_iff := fun u hu => ?_
      cancel_iff := fun u hu => ?_
      described := fun k op hop => ?_
      built := fun k op hop hb => ?_
      backed := fun x hx hxk => ?_
      cancels := fun x hx => h.cancels x (hsub.entries_perm.mem_iff.mp hx)
      pending := fun hne => absurd hnil hne
      history_nodup := hsub.history ▸ h.history_nodup
      history_issued := fun x hx => OpSlab.issued_promote.mpr (h.history_issued x (hsub.history ▸ hx))
      history_cancel := fun x hx hxk op hop => ?_ }
  · rw [hqueued, OpSlab.cell_promote]
    exact iff_of_false List.not_mem_nil (isBuilt_promote _)
  · rw [howed.mem_iff, List.mem_append, h.queued_iff u hu, h.owed_iff u hu, OpSlab.cell_promote,
      isSubmitted_promote]
  · rw [hsub.perm.mem_iff, h.cancel_iff u hu, OpSlab.cell_promote, cancelOutstanding_promote]
  · obtain ⟨old, hold, rfl⟩ := promote_live hop
    have := h.described k old hold
    unfold Occupant.promote
    split
    · rintro ⟨⟩
    · exact this
  · rw [OpSlab.cell_promote] at hop
    have hbuilt := isBuilt_promote (slab.cell k)
    rw [hop] at hbuilt
    exact absurd hb hbuilt
  · obtain ⟨op, hop, hbacked⟩ := h.backed x (hsub.entries_perm.mem_iff.mp hx) hxk
    refine ⟨op.promote, by rw [OpSlab.cell_promote, hop]; rfl, ?_⟩
    unfold Occupant.promote
    split
    · exact hbacked
    · exact hbacked
  · obtain ⟨old, hold, rfl⟩ := promote_live hop
    have := h.history_cancel x (hsub.history ▸ hx) hxk old hold
    unfold Occupant.promote
    split
    · exact this
    · exact this

/-- A wait submits cancellations only, there being no operation to submit. -/
theorem wait (h : Ledger slab ring pending) (hsub : IoRing.Submitted ring ring' taken)
    (hbuilt : ∀ k op, slab.cell k = some (.live op) → op.lifecycle ≠ .built) :
    Ledger slab ring' pending := by
  have hnone : ∀ k, ¬ IsBuilt (slab.cell k) := by
    intro k hb
    unfold IsBuilt at hb
    split at hb
    · rename_i op hop
      exact hbuilt k op hop hb
    · exact hb
  have hqueue : ∀ x ∈ ring'.queue, x ∈ ring.queue := by
    intro x hx
    rw [hsub.queue] at hx
    exact List.mem_of_mem_filter hx
  have hqueued : ∀ u, u ∈ ring'.queued → u ∈ ring.queued := by
    intro u hu
    obtain ⟨x, hx, rfl⟩ := List.mem_map.mp hu
    exact List.mem_map.mpr ⟨x, hqueue x hx, rfl⟩
  refine
    { nodup := hsub.perm.nodup_iff.mpr h.nodup
      queued_iff := fun u hu => ?_
      owed_iff := fun u hu => ?_
      cancel_iff := fun u hu => by rw [hsub.perm.mem_iff, h.cancel_iff u hu]
      described := h.described
      built := h.built
      backed := fun x hx => h.backed x (hsub.entries_perm.mem_iff.mp hx)
      cancels := fun x hx => h.cancels x (hsub.entries_perm.mem_iff.mp hx)
      pending := fun hne => h.pending ?_
      history_nodup := hsub.history ▸ h.history_nodup
      history_issued := fun x hx => h.history_issued x (hsub.history ▸ hx)
      history_cancel := fun x hx => h.history_cancel x (hsub.history ▸ hx) }
  · refine iff_of_false (fun hq => ?_) (hnone _)
    exact hnone _ ((h.queued_iff u hu).mp (hqueued u hq))
  · have hq := h.not_queued hu (hnone _)
    have hmem := hsub.perm.mem_iff (a := u)
    rw [List.mem_append, List.mem_append, or_iff_right (mt (hqueued u) hq), or_iff_right hq] at hmem
    rw [hmem, h.owed_iff u hu]
  · obtain ⟨x, hx⟩ := List.exists_mem_of_ne_nil _ hne
    exact List.ne_nil_of_mem (hqueue x hx)

-- ---------------------------------------------------------------------------
-- Completions
-- ---------------------------------------------------------------------------

section Pop

variable {cqe : Cqe ws} {rest : List (Cqe ws)}

theorem mem_owed_of_completions (hring : ring.completions = cqe :: rest) : cqe.token ∈ ring.owed := by
  simp [IoRing.owed, hring]

theorem perm_pop (hring : ring.completions = cqe :: rest) :
    (ring.queued ++ ring.owed).Perm
      (cqe.token :: (({ ring with completions := rest } : IoRing ws).queued ++
        ({ ring with completions := rest } : IoRing ws).owed)) := by
  simp only [IoRing.queued, IoRing.owed, hring, List.map_cons, ← List.append_assoc]
  exact List.perm_middle

theorem owed_perm_pop (hring : ring.completions = cqe :: rest) :
    ring.owed.Perm (cqe.token :: ({ ring with completions := rest } : IoRing ws).owed) := by
  simp only [IoRing.owed, hring, List.map_cons]
  exact List.perm_middle

/-- A cancellation's own completion. -/
theorem popCancel (h : Ledger slab ring pending) (hring : ring.completions = cqe :: rest)
    (hkind : cqe.token.kind = .cancel) :
    Ledger (slab.completeCancel cqe.token).1 { ring with completions := rest } pending := by
  have hpop := perm_pop hring
  have hgone := (List.nodup_cons.mp (hpop.nodup_iff.mp h.nodup))
  have hpending : CancelOutstanding (slab.cell cqe.token.key) :=
    (h.cancel_iff _ hkind).mp (List.mem_append_right _ (mem_owed_of_completions hring))
  obtain ⟨c, hcell, hc⟩ : ∃ c, slab.cell cqe.token.key = some c ∧ c.cancelPending := by
    unfold CancelOutstanding at hpending
    split at hpending
    · exact ⟨_, ‹_›, hpending⟩
    · exact hpending.elim
  have hcell' := (OpSlab.cell_completeCancel hkind hcell hc).1
  have hnew : (slab.completeCancel cqe.token).1.cell cqe.token.key = c.settle .completed := by
    rw [hcell', Function.update_self]
  have hold : ∀ k, k ≠ cqe.token.key →
      (slab.completeCancel cqe.token).1.cell k = slab.cell k := by
    intro k hk
    rw [hcell', Function.update_of_ne hk]
  -- What is left of the cell is live only if it was, with nothing but the
  -- cancellation's state changed.
  have hlive : ∀ op, c.settle .completed = some (.live op) →
      ∃ old, c = .live old ∧ old.cancel = .pending ∧ op = { old with cancel := .completed } := by
    intro op hop
    cases c with
    | live old => exact ⟨old, rfl, hc, (Cell.live.inj (Option.some.inj hop)).symm⟩
    | tombstone => cases hop
  refine
    { nodup := hgone.2
      queued_iff := fun u hu => ?_
      owed_iff := fun u hu => ?_
      cancel_iff := fun u hu => ?_
      described := fun k op hop => ?_
      built := fun k op hop hb => ?_
      backed := fun x hx hxk => ?_
      cancels := fun x hx => h.cancels x hx
      pending := h.pending
      history_nodup := h.history_nodup
      history_issued := fun x hx => OpSlab.issued_completeCancel.mpr (h.history_issued x hx)
      history_cancel := fun x hx hxk op hop => ?_ }
  · refine (h.queued_iff u hu).trans ?_
    by_cases hk : u.key = cqe.token.key
    · rw [hk, hcell, hnew]
      cases c <;> rfl
    · rw [hold _ hk]
  · have hne : u ≠ cqe.token := fun he => by simp [he, hkind] at hu
    have hmem := (owed_perm_pop hring).mem_iff (a := u)
    rw [List.mem_cons, or_iff_right hne] at hmem
    rw [← hmem, h.owed_iff u hu]
    by_cases hk : u.key = cqe.token.key
    · rw [hk, hcell, hnew]
      cases c <;> rfl
    · rw [hold _ hk]
  · by_cases hut : u = cqe.token
    · subst hut
      refine iff_of_false hgone.1 ?_
      rw [hnew]
      cases c <;> simp [Cell.settle, CancelOutstanding, Cell.cancelPending]
    · have hmem := hpop.mem_iff (a := u)
      rw [List.mem_cons, or_iff_right hut] at hmem
      rw [← hmem, h.cancel_iff u hu, hold _ (key_ne (hu.trans hkind.symm) hut)]
  · by_cases hk : k = cqe.token.key
    · subst hk
      obtain ⟨old, rfl, -, rfl⟩ := hlive op (hnew.symm.trans hop)
      exact h.described _ old hcell
    · exact h.described k op (hold k hk ▸ hop)
  · by_cases hk : k = cqe.token.key
    · subst hk
      obtain ⟨old, rfl, hp, rfl⟩ := hlive op (hnew.symm.trans hop)
      have := h.built _ old hcell hb
      simp [hp] at this
    · exact h.built k op (hold k hk ▸ hop) hb
  · obtain ⟨op, hop, hbacked⟩ := h.backed x hx hxk
    by_cases hk : x.token.key = cqe.token.key
    · rw [hk, hcell] at hop
      obtain rfl := Option.some.inj hop
      exact ⟨{ op with cancel := .completed }, by rw [hk, hnew]; rfl, hbacked⟩
    · exact ⟨op, (hold _ hk).trans hop, hbacked⟩
  · by_cases hk : x.token.key = cqe.token.key
    · rw [hk, hnew] at hop
      obtain ⟨old, -, -, rfl⟩ := hlive op hop
      rintro ⟨⟩
    · exact h.history_cancel x hx hxk op (hold _ hk ▸ hop)

/-- An operation's own completion. -/
theorem popOperation (h : Ledger slab ring pending) (hring : ring.completions = cqe :: rest)
    (hkind : cqe.token.kind = .operation) (hcell : slab.cell cqe.token.key = some (.live op)) :
    Ledger (slab.complete cqe.token).1 { ring with completions := rest } pending := by
  have hpop := perm_pop hring
  have hgone := (List.nodup_cons.mp (hpop.nodup_iff.mp h.nodup))
  have hcell' := (OpSlab.cell_complete hkind hcell).1
  have hnew : (slab.complete cqe.token).1.cell cqe.token.key = op.finish := by
    rw [hcell', Function.update_self]
  have hold : ∀ k, k ≠ cqe.token.key → (slab.complete cqe.token).1.cell k = slab.cell k := by
    intro k hk
    rw [hcell', Function.update_of_ne hk]
  have hdead : ∀ op', op.finish ≠ some (.live op') := by
    intro op'
    unfold Occupant.finish
    split <;> nofun
  refine
    { nodup := hgone.2
      queued_iff := fun u hu => ?_
      owed_iff := fun u hu => ?_
      cancel_iff := fun u hu => ?_
      described := fun k op' hop => ?_
      built := fun k op' hop hb => ?_
      backed := fun x hx hxk => ?_
      cancels := fun x hx => h.cancels x hx
      pending := h.pending
      history_nodup := h.history_nodup
      history_issued := fun x hx => OpSlab.issued_complete.mpr (h.history_issued x hx)
      history_cancel := fun x hx hxk op' hop => ?_ }
  · by_cases hut : u = cqe.token
    · subst hut
      refine iff_of_false (fun hq => hgone.1 (List.mem_append_left _ hq)) ?_
      rw [hnew]
      unfold Occupant.finish
      split <;> exact id
    · rw [hold _ (key_ne (hu.trans hkind.symm) hut)]
      exact h.queued_iff u hu
  · by_cases hut : u = cqe.token
    · subst hut
      refine iff_of_false (fun ho => hgone.1 (List.mem_append_right _ ho)) ?_
      rw [hnew]
      unfold Occupant.finish
      split <;> exact id
    · have hmem := (owed_perm_pop hring).mem_iff (a := u)
      rw [List.mem_cons, or_iff_right hut] at hmem
      rw [← hmem, h.owed_iff u hu, hold _ (key_ne (hu.trans hkind.symm) hut)]
  · have hne : u ≠ cqe.token := fun he => by simp [he, hkind] at hu
    have hmem := hpop.mem_iff (a := u)
    rw [List.mem_cons, or_iff_right hne] at hmem
    rw [← hmem, h.cancel_iff u hu]
    by_cases hk : u.key = cqe.token.key
    · rw [hk, hcell, hnew]
      unfold Occupant.finish
      split <;> simp_all [CancelOutstanding, Cell.cancelPending]
    · rw [hold _ hk]
  · by_cases hk : k = cqe.token.key
    · exact absurd (hnew.symm.trans (hk ▸ hop)) (hdead op')
    · exact h.described k op' (hold k hk ▸ hop)
  · by_cases hk : k = cqe.token.key
    · exact absurd (hnew.symm.trans (hk ▸ hop)) (hdead op')
    · exact h.built k op' (hold k hk ▸ hop) hb
  · obtain ⟨op', hop, hbacked⟩ := h.backed x hx hxk
    have hne : x.token ≠ cqe.token := by
      intro he
      have hnodup := h.nodup
      rw [IoRing.outstanding_eq] at hnodup
      refine List.disjoint_of_nodup_append hnodup (List.mem_map.mpr ⟨x, hx, he⟩) ?_
      simp [hring]
    exact ⟨op', (hold _ (key_ne (hxk.trans hkind.symm) hne)).trans hop, hbacked⟩
  · by_cases hk : x.token.key = cqe.token.key
    · exact absurd (hnew.symm.trans (hk ▸ hop)) (hdead op')
    · exact h.history_cancel x hx hxk op' (hold _ hk ▸ hop)

end Pop

theorem detach (h : Ledger slab ring pending) (t : Token ws) : Ledger (slab.detach t).1 ring pending := by
  by_cases hlive : ∃ op, slab.cell t.key = some (.live op)
  swap
  · rw [OpSlab.detach_inert (not_exists.mp hlive)]
    exact h
  obtain ⟨op, hcell⟩ := hlive
  have hcell' := OpSlab.cell_detach hcell
  have hnew : (slab.detach t).1.cell t.key = some (.live { op with observer := .detached }) := by
    rw [hcell', Function.update_self]
  have hold : ∀ k, k ≠ t.key → (slab.detach t).1.cell k = slab.cell k := by
    intro k hk
    rw [hcell', Function.update_of_ne hk]
  have hsame : ∀ {P : Option (Cell OpPayload) → Prop}, (P (some (.live op)) ↔
      P (some (.live { op with observer := .detached }))) →
      ∀ k, P (slab.cell k) ↔ P ((slab.detach t).1.cell k) := by
    intro P hP k
    by_cases hk : k = t.key
    · rw [hk, hcell, hnew, hP]
    · rw [hold k hk]
  have hlive : ∀ k op', (slab.detach t).1.cell k = some (.live op') →
      ∃ old, slab.cell k = some (.live old) ∧ op'.lifecycle = old.lifecycle ∧
        op'.cancel = old.cancel := by
    intro k op' hop
    by_cases hk : k = t.key
    · rw [hk, hnew] at hop
      cases hop
      exact ⟨op, hk ▸ hcell, rfl, rfl⟩
    · exact ⟨op', hold k hk ▸ hop, rfl, rfl⟩
  refine
    { nodup := h.nodup
      queued_iff := fun u hu => (h.queued_iff u hu).trans (hsame Iff.rfl _)
      owed_iff := fun u hu => (h.owed_iff u hu).trans (hsame Iff.rfl _)
      cancel_iff := fun u hu => (h.cancel_iff u hu).trans (hsame Iff.rfl _)
      described := fun k op' hop => ?_
      built := fun k op' hop hb => ?_
      backed := fun x hx hxk => ?_
      cancels := h.cancels
      pending := h.pending
      history_nodup := h.history_nodup
      history_issued := fun x hx => OpSlab.issued_detach.mpr (h.history_issued x hx)
      history_cancel := fun x hx hxk op' hop => ?_ }
  · obtain ⟨old, hold', hl, -⟩ := hlive k op' hop
    exact hl ▸ h.described k old hold'
  · obtain ⟨old, hold', hl, hc⟩ := hlive k op' hop
    exact hc ▸ h.built k old hold' (hl ▸ hb)
  · obtain ⟨op', hop, hbacked⟩ := h.backed x hx hxk
    by_cases hk : x.token.key = t.key
    · rw [hk, hcell] at hop
      cases hop
      exact ⟨{ op with observer := .detached }, by rw [hk, hnew], hbacked⟩
    · exact ⟨op', (hold _ hk).trans hop, hbacked⟩
  · obtain ⟨old, hold', -, hc⟩ := hlive _ op' hop
    exact hc ▸ h.history_cancel x hx hxk old hold'

end Ledger

-- ---------------------------------------------------------------------------
-- The books of the whole system
-- ---------------------------------------------------------------------------

theorem awaitingKernel_of_cell {slab slab' : OpSlab ws OpPayload} (h : slab'.cell = slab.cell)
    (hnone : slab.awaitingKernel = 0) : slab'.awaitingKernel = 0 := by
  rw [OpSlab.awaitingKernel_eq_zero] at hnone ⊢
  rw [h]
  exact hnone

theorem awaitingKernel_of_empty {slab : OpSlab ws OpPayload} (h : ∀ k, slab.cell k = none) :
    slab.awaitingKernel = 0 := by
  refine OpSlab.awaitingKernel_eq_zero.mpr fun k => ?_
  rw [h k]
  simp

/-- Detaching an operation leaves it as far as it was. -/
theorem awaitingKernel_detach {slab : OpSlab ws OpPayload} (t : Token ws)
    (hnone : slab.awaitingKernel = 0) : (slab.detach t).1.awaitingKernel = 0 := by
  rw [OpSlab.awaitingKernel_eq_zero] at hnone ⊢
  by_cases hlive : ∃ op, slab.cell t.key = some (.live op)
  swap
  · rw [OpSlab.detach_inert (not_exists.mp hlive)]
    exact hnone
  obtain ⟨op, hcell⟩ := hlive
  intro k
  rw [OpSlab.cell_detach hcell, Function.update_apply]
  split
  · refine ⟨nofun, fun op' hop => ?_⟩
    cases hop
    exact (hnone t.key).2 op hcell
  · exact hnone k

structure Books (s : Sys ws) : Prop where
  ledger : s.world.inner.ring.closed = false →
    Ledger s.world.inner.slab s.world.inner.ring s.world.inner.pendingSubmit
  closed : s.world.inner.ring.closed = true →
    s.world.inner.ring.owed = [] ∧ ∀ k, s.world.inner.slab.cell k = none
  tornDown : s.world.inner.tornDown = s.world.inner.ring.closed
  shutdown : s.world.inner.tornDown = true ∨ s.pc.draining = true →
    s.world.inner.shutdown ≠ .running
  sealed : s.pc.sealed = true → s.world.inner.slab.awaitingKernel = 0

namespace Books

variable {s s' : Sys ws}

theorem of_initial (h : s.Initial) : Books s where
  ledger _ := by
    rw [h.inner]
    exact .new
  closed hc := by
    rw [h.inner] at hc
    cases hc
  tornDown := by
    rw [h.inner]
    rfl
  shutdown hs := by
    rw [h.inner, h.pc] at hs
    rcases hs with hs | hs <;> cases hs
  sealed hs := by
    rw [h.pc] at hs
    cases hs

theorem noneDescribed (h : Books s) : NoneDescribed s.world.inner.slab := by
  cases hc : s.world.inner.ring.closed with
  | false => exact (h.ledger hc).described
  | true =>
    intro k op hop
    rw [(h.closed hc).2 k] at hop
    cases hop

/-- The books read five fields and where the code stands. -/
theorem congr (h : Books s) (hslab : s'.world.inner.slab = s.world.inner.slab)
    (hring : s'.world.inner.ring = s.world.inner.ring)
    (hpending : s'.world.inner.pendingSubmit = s.world.inner.pendingSubmit)
    (htorn : s'.world.inner.tornDown = s.world.inner.tornDown)
    (hmode : s'.world.inner.shutdown = s.world.inner.shutdown)
    (hdraining : s'.pc.draining → s.pc.draining ∨ s.world.inner.shutdown ≠ .running)
    (hsealed : s'.pc.sealed → s.pc.sealed ∨ s.world.inner.slab.awaitingKernel = 0) : Books s' where
  ledger := by
    rw [hring, hslab, hpending]
    exact h.ledger
  closed := by
    rw [hring, hslab]
    exact h.closed
  tornDown := by
    rw [htorn, hring]
    exact h.tornDown
  shutdown hs := by
    rw [htorn] at hs
    rw [hmode]
    rcases hs with hs | hs
    · exact h.shutdown (.inl hs)
    · exact (hdraining hs).elim (fun hd => h.shutdown (.inr hd)) id
  sealed hs := by
    rw [hslab]
    exact (hsealed hs).elim h.sealed id

theorem quiet (h : Books s) (hq : Quiet s s') : Books s' :=
  h.congr hq.world.inner.slab hq.world.inner.ring hq.world.inner.pendingSubmit
    hq.world.inner.tornDown hq.world.inner.shutdown hq.draining hq.sealed

theorem of_inner (h : Books s) (hinner : s'.world.inner = s.world.inner) (hpc : s'.pc = s.pc) :
    Books s' := by
  refine h.congr ?_ ?_ ?_ ?_ ?_ (fun hd => .inl (hpc ▸ hd)) (fun hs => .inl (hpc ▸ hs)) <;> rw [hinner]

/-- Nothing is left to reap from a closed ring. -/
theorem completions_of_closed (h : Books s) (hc : s.world.inner.ring.closed = true) :
    s.world.inner.ring.inflight = [] ∧ s.world.inner.ring.executed = [] ∧
      s.world.inner.ring.completions = [] := by
  have howed := (h.closed hc).1
  simp only [IoRing.owed, List.append_eq_nil_iff, List.map_eq_nil_iff] at howed
  exact ⟨howed.1.1, howed.1.2, howed.2⟩

theorem open_of_completions (h : Books s) (hring : s.world.inner.ring.completions = cqe :: rest) :
    s.world.inner.ring.closed = false := by
  cases hc : s.world.inner.ring.closed with
  | false => rfl
  | true =>
    rw [(h.completions_of_closed hc).2.2] at hring
    cases hring

/-- No cancellation is outstanding once the last drain step is behind. -/
theorem not_cancelOutstanding (h : Books s) (hsealed : s.pc.sealed = true)
    (hopen : s.world.inner.ring.closed = false) (k : Key) :
    ¬ CancelOutstanding (s.world.inner.slab.cell k) := by
  have hnone := OpSlab.awaitingKernel_eq_zero.mp (h.sealed hsealed) k
  have hledger := h.ledger hopen
  intro hout
  unfold CancelOutstanding at hout
  split at hout
  · rename_i c hcell
    cases c with
    | tombstone => exact hnone.1 hcell
    | live op =>
      have hpending : op.cancel = .pending := hout
      cases hl : op.lifecycle with
      | described => exact hledger.described _ op hcell hl
      | submitted => exact hnone.2 op hcell hl
      | built =>
        have := hledger.built _ op hcell hl
        rw [hpending] at this
        cases this
  · exact hout

/-- What a ring about to be closed is owed. -/
theorem owed_of_sealed (h : Books s) (hsealed : s.pc.sealed = true) :
    s.world.inner.ring.owed = [] := by
  have hnone := OpSlab.awaitingKernel_eq_zero.mp (h.sealed hsealed)
  cases hc : s.world.inner.ring.closed with
  | true => exact (h.closed hc).1
  | false =>
    have hledger := h.ledger hc
    refine List.eq_nil_iff_forall_not_mem.mpr fun t ht => ?_
    cases hkind : t.kind with
    | operation =>
      have hsub := (hledger.owed_iff t hkind).mp ht
      unfold IsSubmitted at hsub
      split at hsub
      · rename_i op hop
        exact (hnone _).2 op hop hsub
      · exact hsub
    | cancel =>
      have hout := (hledger.cancel_iff t hkind).mp (List.mem_append_right _ ht)
      exact h.not_cancelOutstanding hsealed hc _ hout

theorem move (h : Books s) (hm : Move b s s') : Books s' := by
  cases hm with
  | quiet hq => exact h.quiet hq
  | escalated hmode =>
    refine { h with shutdown := fun hs hrunning => ?_ }
    rename_i mode
    obtain rfl : mode = .running := hrunning
    exact Nat.not_lt_zero _ hmode
  | executed hring =>
    have hbooks := IoRing.execute_books hring
    exact
      { ledger := fun hc => (h.ledger (hbooks.closed ▸ hc)).of_books hbooks
        closed := fun hc => by
          obtain ⟨howed, hcells⟩ := h.closed (hbooks.closed ▸ hc)
          exact ⟨List.Perm.eq_nil (howed ▸ hbooks.owed), hcells⟩
        tornDown := h.tornDown.trans hbooks.closed.symm
        shutdown := h.shutdown
        sealed := h.sealed }
  | reported hring =>
    have hbooks := IoRing.report_books hring
    exact
      { ledger := fun hc => (h.ledger (hbooks.closed ▸ hc)).of_books hbooks
        closed := fun hc => by
          obtain ⟨howed, hcells⟩ := h.closed (hbooks.closed ▸ hc)
          exact ⟨List.Perm.eq_nil (howed ▸ hbooks.owed), hcells⟩
        tornDown := h.tornDown.trans hbooks.closed.symm
        shutdown := h.shutdown
        sealed := h.sealed }
  | refused hcell hissued hfiles =>
    exact
      { ledger := fun hc => (h.ledger hc).of_cell hcell hissued
        closed := fun hc => ⟨(h.closed hc).1, fun k => (congrFun hcell k).trans ((h.closed hc).2 k)⟩
        tornDown := h.tornDown
        shutdown := h.shutdown
        sealed := fun hs => awaitingKernel_of_cell hcell (h.sealed hs) }
  | @cancelled target _ _ t op htorn hopen hkind hcell hlife hcancel htarget =>
    exact
      { ledger := fun hc => (h.ledger hc).cancel hkind hcell hlife hcancel _
        closed := fun hc => absurd (hopen.symm.trans hc) nofun
        tornDown := h.tornDown
        shutdown := h.shutdown
        sealed := fun hs =>
          absurd hlife ((OpSlab.awaitingKernel_eq_zero.mp (h.sealed hs) _).2 _ hcell) }
  | retracted | faltered | deferred | recalled => exact h.congr rfl rfl rfl rfl rfl .inl .inl
  | submitted hsealed hopen hsub =>
    exact
      { ledger := fun hc => (h.ledger hopen).submit hsub
        closed := fun hc => absurd (hopen.symm.trans (hsub.closed.symm.trans hc)) nofun
        tornDown := h.tornDown.trans hsub.closed.symm
        shutdown := h.shutdown
        sealed := fun hs => absurd (hsealed.symm.trans hs) nofun }
  | waited hsealed hopen hbuilt hsub =>
    exact
      { ledger := fun hc => (h.ledger hopen).wait hsub hbuilt
        closed := fun hc => absurd (hopen.symm.trans (hsub.closed.symm.trans hc)) nofun
        tornDown := h.tornDown.trans hsub.closed.symm
        shutdown := h.shutdown
        sealed := fun hs => absurd (hsealed.symm.trans hs) nofun }
  | reapedCancel hsealed hring hkind =>
    have hopen := h.open_of_completions hring
    exact
      { ledger := fun hc => (h.ledger hopen).popCancel hring hkind
        closed := fun hc => absurd (hopen.symm.trans hc) nofun
        tornDown := h.tornDown
        shutdown := h.shutdown
        sealed := fun hs => absurd (hsealed.symm.trans hs) nofun }
  | reapedStray hsealed hring hkind hcell =>
    -- The platform reports only what it was given.
    have hledger := h.ledger (h.open_of_completions hring)
    have hsub := (hledger.owed_iff _ hkind).mp (Ledger.mem_owed_of_completions hring)
    unfold IsSubmitted at hsub
    split at hsub
    · rename_i op hop
      exact absurd hop (hcell op)
    · exact hsub.elim
  | resolved hsealed hring hkind hcell =>
    rename_i cqe rest op
    have hopen := h.open_of_completions hring
    have hpopped : Books (s.withInner { s.world.inner with
        slab := (s.world.inner.slab.complete cqe.token).1
        ring := { s.world.inner.ring with completions := rest } }) :=
      { ledger := fun hc => (h.ledger hopen).popOperation hring hkind hcell
        closed := fun hc => absurd (hopen.symm.trans hc) nofun
        tornDown := h.tornDown
        shutdown := h.shutdown
        sealed := fun hs => absurd (hsealed.symm.trans hs) nofun }
    exact hpopped.congr (World.slab_resolveCompletion ..) (World.ring_resolveCompletion ..)
      (World.pendingSubmit_resolveCompletion ..) (World.tornDown_resolveCompletion ..)
      (World.shutdown_resolveCompletion ..) .inl .inl
  | @released ring _ _ hsealed hclosed =>
    have hinner := World.release_inner (s.world.setInner { s.world.inner with ring })
    have hcells : ∀ k, s.world.inner.slab.drain.1.cell k = none := by
      intro k
      rw [OpSlab.cell_drain]
      have hnone := OpSlab.awaitingKernel_eq_zero.mp (h.sealed hsealed) k
      cases hc : s.world.inner.slab.cell k with
      | none => rfl
      | some c =>
        cases c with
        | live op => rfl
        | tombstone => exact absurd hc hnone.1
    have howed : ring.owed = [] := by
      rw [hclosed]
      exact h.owed_of_sealed hsealed
    have hring : ring.closed = true := by rw [hclosed]
    have hbooks : Books (s.withInner { s.world.inner with
        slab := s.world.inner.slab.drain.1
        ring
        tornDown := true }) :=
      { ledger := fun hc => absurd (hring.symm.trans hc) nofun
        closed := fun _ => ⟨howed, hcells⟩
        tornDown := hring.symm
        shutdown := fun _ => h.shutdown (.inr (Pc.draining_of_sealed hsealed))
        sealed := fun _ => awaitingKernel_of_empty hcells }
    refine hbooks.congr ?_ ?_ ?_ ?_ ?_ .inl .inl <;> exact (congrArg _ hinner).trans rfl
  | detached t =>
    exact
      { ledger := fun hc => (h.ledger hc).detach t
        closed := fun hc => by
          obtain ⟨howed, hcells⟩ := h.closed hc
          refine ⟨howed, fun k => ?_⟩
          have hinert := OpSlab.detach_inert (s := s.world.inner.slab) (t := t)
            fun op hop => by rw [hcells] at hop; cases hop
          exact (congrArg (fun r => r.1.cell k) hinert).trans (hcells k)
        tornDown := h.tornDown
        shutdown := h.shutdown
        sealed := fun hs => awaitingKernel_detach t (h.sealed hs) }
  | polled hfuture hempty => exact h.of_inner rfl rfl
  | delivered hfuture hfilled => exact h.of_inner (by simp) (by simp)
  | forgotten => exact h.of_inner (by simp) rfl
  | checkedOut => exact h.of_inner rfl rfl
  | filled => exact h.of_inner rfl rfl
  | handleDropped => exact h.of_inner (by simp) rfl

theorem accepted (h : Books s) (ha : Accepted s s' t p e f) : Books s' where
  ledger _ := by
    rw [ha.ring, ha.pendingSubmit]
    exact (h.ledger ha.isOpen).accept ha.kind ha.unissued ha.cell ha.issued ha.userData ha.backs
  closed hc := by
    rw [ha.ring] at hc
    exact absurd (ha.isOpen.symm.trans hc) nofun
  tornDown := by
    rw [ha.tornDown, ha.ring]
    exact h.tornDown
  shutdown := by
    rw [ha.tornDown, ha.shutdown, ha.pc]
    exact h.shutdown
  sealed hs := by
    rw [ha.pc] at hs
    exact absurd ha.admitted.running (h.shutdown (.inr (Pc.draining_of_sealed hs)))

theorem moves (h : Books s) (hm : Moves b s s') : Books s' := by
  induction hm with
  | refl => exact h
  | tail _ hlast ih => exact ih.move hlast

theorem stride (h : Books s) (hst : Stride s s' a) : Books s' := by
  cases hst with
  | moves hm _ => exact h.moves hm
  | accepted _ ha => exact h.accepted ha
  | setCursor hs => exact h.of_inner (hs ▸ rfl) (hs ▸ rfl)

end Books

variable {s s' : Sys ws} {ok : Sys ws → Action ws → Prop}

theorem books_of_reachable (h : (systemMachine ws).ReachableBy ok s) : Books s :=
  h.invariant (fun _ => Books.of_initial) fun _ _ _ _ hb _ hs =>
    hb.stride (step_stride hb.noneDescribed hs)

/-- A law every move keeps, and every accepted request and `set_cursor` that
meets the side condition. -/
structure Kept (ok : Sys ws → Action ws → Prop) (I : Sys ws → Prop) : Prop where
  initial : ∀ s, s.Initial → I s
  move : ∀ {b} s s', Books s → I s → Move b s s' → I s'
  accepted : ∀ s s' t p e f request answers, Books s → I s → ok s (.start request answers) →
    request.Made p → Accepted s s' t p e f → I s'
  setCursor : ∀ s file position, Books s → I s → ok s (.setCursor file position) →
    I (s.withWorld (s.world.setCursor file position))

theorem Kept.moves {I : Sys ws → Prop} (hk : Kept ok I) (hb : Books s) (h : I s) (hm : Moves b s s') :
    I s' := by
  suffices Books s' ∧ I s' from this.2
  induction hm with
  | refl => exact ⟨hb, h⟩
  | tail _ hlast ih => exact ⟨ih.1.move hlast, hk.move _ _ ih.1 ih.2 hlast⟩

/-- A law kept by code that may rely on another. -/
structure KeptGiven (ok : Sys ws → Action ws → Prop) (J I : Sys ws → Prop) : Prop where
  initial : ∀ s, s.Initial → I s
  move : ∀ {b} s s', Books s → J s → I s → Move b s s' → I s'
  accepted : ∀ s s' t p e f request answers, Books s → J s → I s → ok s (.start request answers) →
    request.Made p → Accepted s s' t p e f → I s'
  setCursor : ∀ s file position, Books s → J s → I s → ok s (.setCursor file position) →
    I (s.withWorld (s.world.setCursor file position))

theorem Kept.given {J I : Sys ws → Prop} (h : Kept ok I) : KeptGiven ok J I where
  initial := h.initial
  move s s' hb _ := h.move s s' hb
  accepted s s' t p e f request answers hb _ := h.accepted s s' t p e f request answers hb
  setCursor s file position hb _ := h.setCursor s file position hb

theorem Kept.and {J I : Sys ws → Prop} (hj : Kept ok J) (hi : KeptGiven ok J I) :
    Kept ok fun s => J s ∧ I s where
  initial s hs := ⟨hj.initial s hs, hi.initial s hs⟩
  move s s' hb h hm := ⟨hj.move s s' hb h.1 hm, hi.move s s' hb h.1 h.2 hm⟩
  accepted s s' t p e f request answers hb h hok hmade ha :=
    ⟨hj.accepted s s' t p e f request answers hb h.1 hok hmade ha,
      hi.accepted s s' t p e f request answers hb h.1 h.2 hok hmade ha⟩
  setCursor s file position hb h hok :=
    ⟨hj.setCursor s file position hb h.1 hok, hi.setCursor s file position hb h.1 h.2 hok⟩

theorem KeptGiven.and {J I I' : Sys ws → Prop} (h : KeptGiven ok J I) (h' : KeptGiven ok J I') :
    KeptGiven ok J fun s => I s ∧ I' s where
  initial s hs := ⟨h.initial s hs, h'.initial s hs⟩
  move s s' hb hj hi hm := ⟨h.move s s' hb hj hi.1 hm, h'.move s s' hb hj hi.2 hm⟩
  accepted s s' t p e f request answers hb hj hi hok hmade ha :=
    ⟨h.accepted s s' t p e f request answers hb hj hi.1 hok hmade ha,
      h'.accepted s s' t p e f request answers hb hj hi.2 hok hmade ha⟩
  setCursor s file position hb hj hi hok :=
    ⟨h.setCursor s file position hb hj hi.1 hok, h'.setCursor s file position hb hj hi.2 hok⟩

theorem Kept.congr {I I' : Sys ws → Prop} (h : Kept ok I) (hiff : ∀ s, I s ↔ I' s) : Kept ok I' := by
  obtain rfl : I = I' := funext fun s => propext (hiff s)
  exact h

/-- The rule for runs: what every stride keeps holds wherever a run can get. -/
theorem Kept.reachable {I : Sys ws → Prop} (hk : Kept ok I)
    (h : (systemMachine ws).ReachableBy ok s) : I s := by
  refine h.invariant hk.initial fun s a s' hr hi ha hs => ?_
  have hb := books_of_reachable hr
  cases step_stride hb.noneDescribed hs with
  | moves hm _ => exact hk.moves hb hi hm
  | accepted hmade hacc => exact hk.accepted _ _ _ _ _ _ _ _ hb hi ha hmade hacc
  | setCursor heq => exact heq ▸ hk.setCursor s _ _ hb hi ha

/-- What every stride keeps of a reachable state, every run from it keeps. -/
theorem run_keeps {P : Sys ws → Prop} (hstride : ∀ s s' a, P s → Stride s s' a → P s')
    (hr : (systemMachine ws).Reachable s) (h : P s) (hrun : (systemMachine ws).run s as = some s') :
    P s' := by
  induction as generalizing s with
  | nil =>
    obtain rfl := Option.some.inj hrun
    exact h
  | cons a as ih =>
    obtain ⟨s1, hs, hrest⟩ := Machine.run_cons.mp hrun
    exact ih (hr.next hs) (hstride _ _ _ h (step_stride (books_of_reachable hr).noneDescribed hs)) hrest

end WinIoring.Runtime
