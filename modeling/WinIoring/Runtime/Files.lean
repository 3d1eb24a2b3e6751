import WinIoring.Runtime.Safety

/-!
# Registered file indices

An index is checked against the set the driver has adopted, and means whatever
set the platform has in force when the entry runs. The two are the same set in
every run that keeps registrations apart from operations that name an index.
-/

namespace WinIoring

variable {ws : WordSize}

def HandleRef.index : HandleRef → Option Nat
  | .raw _ => none
  | .registered index => some index

/-- The registered file index an entry names. -/
def SqeOp.fileIndex : SqeOp ws → Option Nat
  | .read handle .. | .write handle .. | .flush handle | .cancel handle _ => handle.index
  | _ => none

/-- The entries that have not run. -/
def IoRing.unrun (r : IoRing ws) : List (Sqe ws) := r.queue ++ r.inflight

namespace Runtime

open Slab

variable {s s' : Sys ws}

/-- The file set a driver with this registration adopted last takes to be in
force. -/
def filesOf (registration : Option FileRegistration) : List FileId :=
  (registration.map (·.files)).getD []

/-- Registrations of files start only while no operation that names an index is
unfinished, no entry that names one is still to run, and no other registration
is unfinished; operations that name an index start only while no registration
of files is unfinished. -/
def FilesApart (s : Sys ws) : Action ws → Prop
  | .start request _ =>
    (request.newFiles ≠ none →
      (∀ k p, s.world.inner.slab.payloadAt k = some p →
        p.newFiles = none ∧ p.registeredFile = none) ∧
      ∀ e ∈ s.world.inner.ring.unrun, e.op.fileIndex = none) ∧
    (request.registeredFile ≠ none →
      ∀ k p, s.world.inner.slab.payloadAt k = some p → p.newFiles = none)
  | _ => True

/-- Every entry that ran and named an index found in force the set its
operation's index was checked against. -/
def IndicesFaithful (s : Sys ws) : Prop :=
  ∀ e outcome files buffers, .executed e outcome files buffers ∈ s.world.log →
    e.op.fileIndex ≠ none →
    (∃ p checked, .accepted e.token.toOperation p checked ∈ s.world.log) ∧
    ∀ p checked, .accepted e.token.toOperation p checked ∈ s.world.log →
      ∃ registration, checked = some registration ∧ registration.files = files

-- ---------------------------------------------------------------------------
-- The invariant
-- ---------------------------------------------------------------------------

/-- What an open ring has in force, and what the driver takes it to have. -/
structure FilesInForce (slab : OpSlab ws OpPayload) (ring : IoRing ws)
    (registration : Option FileRegistration) (trace : List (Event ws)) : Prop where
  alone : ∀ k p, slab.payloadAt k = some p → p.newFiles ≠ none →
    p.file = none ∧ p.registeredFile = none
  exclusive : ∀ k p, slab.payloadAt k = some p → p.newFiles ≠ none →
    ∀ k' p', slab.payloadAt k' = some p' → k' ≠ k →
      p'.newFiles = none ∧ p'.registeredFile = none
  quiet : ∀ k p, slab.payloadAt k = some p → p.newFiles ≠ none →
    ∀ e ∈ ring.unrun, e.op.fileIndex = none
  settled : (∀ k p, slab.payloadAt k = some p → p.newFiles = none) →
    ring.filesInForce = filesOf registration
  waiting : ∀ e ∈ ring.unrun, e.op.newFiles ≠ none → ring.filesInForce = filesOf registration
  ran : ∀ e outcome, (e, outcome) ∈ ring.executed → ∀ files, e.op.newFiles = some files →
    ring.filesInForce = if outcome.resultCode.failed then filesOf registration else files
  reported : ∀ cqe ∈ ring.completions, cqe.token.kind = .operation → ∀ p files,
    slab.payloadAt cqe.token.key = some p → p.newFiles = some files →
    ring.filesInForce = if cqe.outcome.resultCode.failed then filesOf registration else files
  validated : ∀ t p, t.kind = .operation → slab.payloadAt t.key = some p →
    p.registeredFile ≠ none → ∃ r, registration = some r ∧ .accepted t p (some r) ∈ trace
  checked : ∀ e ∈ ring.unrun, e.op.fileIndex ≠ none →
    ∃ p r, registration = some r ∧ .accepted e.token.toOperation p (some r) ∈ trace

namespace Backs

variable {p : OpPayload} {op : SqeOp ws}

theorem newFiles (h : Backs p op) (hop : op.newFiles = some files) : p.newFiles = some files := by
  cases op with
  | registerFiles files' =>
    obtain rfl := Option.some.inj hop
    have : p.pendingRegistration = some (.files files') := h
    rw [OpPayload.newFiles, this]
  | _ => cases hop

theorem BacksHandle.ne (h : BacksHandle p handle) : p.file ≠ none ∨ p.registeredFile ≠ none := by
  cases handle with
  | raw file =>
    have : p.file = some file := h
    simp [this]
  | registered index => simp [h.2]

/-- A payload that registers files backs no other entry. -/
theorem registers (h : Backs p op) (hp : p.newFiles = some files)
    (halone : p.file = none ∧ p.registeredFile = none) : op.newFiles = some files := by
  cases op with
  | read handle data len offset => exact (h.1.ne.elim (· halone.1) (· halone.2)).elim
  | write handle data len offset => exact (h.1.ne.elim (· halone.1) (· halone.2)).elim
  | flush handle => exact (BacksHandle.ne h |>.elim (· halone.1) (· halone.2)).elim
  | cancel handle u => exact h.elim
  | registerBuffers descriptors =>
    obtain ⟨_, _, _, _, hpending⟩ := h
    simp [OpPayload.newFiles, hpending] at hp
  | registerFiles files' =>
    have hpending : p.pendingRegistration = some (.files files') := h
    rw [OpPayload.newFiles, hpending] at hp
    exact hp

theorem BacksHandle.registeredFile (h : BacksHandle p handle) (hindex : handle.index ≠ none) :
    p.registeredFile ≠ none := by
  cases handle with
  | raw file => exact absurd rfl hindex
  | registered index => simp [h.2]

theorem registeredFile (h : Backs p op) (hindex : op.fileIndex ≠ none) : p.registeredFile ≠ none := by
  cases op with
  | read handle data len offset => exact h.1.registeredFile hindex
  | write handle data len offset => exact h.1.registeredFile hindex
  | flush handle => exact BacksHandle.registeredFile h hindex
  | cancel handle u => exact h.elim
  | registerBuffers buffers => exact absurd rfl hindex
  | registerFiles files => exact absurd rfl hindex

end Backs

/-- An entry in the platform's hands that cancels nothing is an operation's. -/
theorem Ledger.backing {slab : OpSlab ws OpPayload} {ring : IoRing ws} {owed : Bool}
    (h : Ledger slab ring owed) (he : e ∈ ring.entries) (hop : ∀ handle u, e.op ≠ .cancel handle u) :
    e.token.kind = .operation ∧ ∃ p, slab.payloadAt e.token.key = some p ∧ Backs p e.op := by
  have hkind : e.token.kind = .operation := by
    cases hk : e.token.kind with
    | operation => rfl
    | cancel =>
      obtain ⟨handle, hcancel⟩ := h.cancels e he hk
      exact absurd hcancel (hop _ _)
  obtain ⟨op, hcell, hbacks⟩ := h.backed e he hkind
  exact ⟨hkind, op.payload, OpSlab.payloadAt_of_cell hcell, hbacks⟩

/-- A registration of files in the platform's hands is in the slab. -/
theorem Ledger.registering {slab : OpSlab ws OpPayload} {ring : IoRing ws} {owed : Bool}
    (h : Ledger slab ring owed) (he : e ∈ ring.entries) (hop : e.op.newFiles = some files) :
    e.token.kind = .operation ∧
      ∃ p, slab.payloadAt e.token.key = some p ∧ p.newFiles = some files := by
  obtain ⟨hkind, p, hp, hbacks⟩ := h.backing he fun handle u hcancel => by
    rw [hcancel] at hop
    cases hop
  exact ⟨hkind, p, hp, hbacks.newFiles hop⟩

end Runtime

namespace IoRing

variable {r r' : IoRing ws}

theorem mem_entries_of_unrun (h : e ∈ r.unrun) : e ∈ r.entries := List.mem_append_left _ h

theorem mem_entries_of_executed (h : (e, outcome) ∈ r.executed) : e ∈ r.entries :=
  List.mem_append_right _ (List.mem_map.mpr ⟨(e, outcome), h, rfl⟩)

theorem Executed.unrun (h : Executed r r' e outcome) : ∀ x ∈ r'.unrun, x ∈ r.unrun := by
  simp only [IoRing.unrun, h.queue, h.inflight, List.mem_append]
  exact fun x hx => hx.imp_right List.mem_of_mem_erase

theorem Reported.unrun (h : Reported r r' e outcome) : r'.unrun = r.unrun := by
  simp only [IoRing.unrun, h.queue, h.inflight]

theorem Submitted.unrun (h : Submitted r r' taken) : ∀ x ∈ r'.unrun, x ∈ r.unrun := by
  simp only [IoRing.unrun, h.queue, h.inflight, List.mem_append, List.mem_filter]
  tauto

/-- Nothing else the platform holds has the token of the entry it runs. -/
theorem Executed.fresh (h : Executed r r' e outcome) (hnodup : (r.queued ++ r.owed).Nodup) :
    (∀ x ∈ r'.unrun, x.token ≠ e.token) ∧ (∀ y ∈ r.executed, y.1.token ≠ e.token) ∧
      ∀ cqe ∈ r.completions, cqe.token ≠ e.token := by
  have hperm : (r.queued ++ r.owed).Perm (e.token :: (r'.unrun.map Sqe.token ++
      r.executed.map (·.1.token) ++ r.completions.map Cqe.token)) := by
    have hinflight : (r.queue ++ r.inflight).Perm (e :: r'.unrun) := by
      rw [IoRing.unrun, h.queue, h.inflight]
      exact ((List.perm_cons_erase h.mem).append_left _).trans List.perm_middle
    simpa [queued, owed, List.append_assoc] using
      (hinflight.map Sqe.token).append_right
        (r.executed.map (·.1.token) ++ r.completions.map Cqe.token)
  have hnot := (List.nodup_cons.mp (hperm.nodup_iff.mp hnodup)).1
  simp only [List.mem_append, List.mem_map, not_or, not_exists, not_and] at hnot
  exact ⟨hnot.1.1, hnot.1.2, hnot.2⟩

end IoRing

namespace Runtime.FilesInForce

open Slab

variable {slab slab' : OpSlab ws OpPayload} {ring ring' : IoRing ws}
  {registration : Option FileRegistration} {trace trace' : List (Event ws)} {pending : Bool}

theorem new : FilesInForce (.new : OpSlab ws OpPayload) .create none trace where
  alone := by simp [OpSlab.payloadAt]
  exclusive := by simp [OpSlab.payloadAt]
  quiet := by simp [OpSlab.payloadAt]
  settled _ := rfl
  waiting := by simp [IoRing.unrun, IoRing.create]
  ran := by simp [IoRing.create]
  reported := by simp [IoRing.create]
  validated := by simp [OpSlab.payloadAt]
  checked := by simp [IoRing.unrun, IoRing.create]

/-- At most one payload registers files. -/
theorem sole (h : FilesInForce slab ring registration trace) (hk : slab.payloadAt k = some p)
    (hp : p.newFiles ≠ none) (hk' : slab.payloadAt k' = some p') (hp' : p'.newFiles ≠ none) :
    k' = k :=
  Decidable.byContradiction fun hne => hp' (h.exclusive k p hk hp k' p' hk' hne).1

/-- Code that leaves the payloads, the sets and the platform's progress alone. -/
theorem of_same (h : FilesInForce slab ring registration trace)
    (hslab : slab'.payloadAt = slab.payloadAt) (hunrun : ∀ e ∈ ring'.unrun, e ∈ ring.unrun)
    (hexecuted : ring'.executed = ring.executed)
    (hcompletions : ∀ cqe ∈ ring'.completions, cqe ∈ ring.completions)
    (hforce : ring'.filesInForce = ring.filesInForce)
    (htrace : ∀ e ∈ trace, e ∈ trace') : FilesInForce slab' ring' registration trace' where
  alone := hslab ▸ h.alone
  exclusive := hslab ▸ h.exclusive
  quiet k p hp hnew e he := h.quiet k p (hslab ▸ hp) hnew e (hunrun e he)
  settled := by
    rw [hslab, hforce]
    exact h.settled
  waiting e he hop := hforce.trans (h.waiting e (hunrun e he) hop)
  ran := by
    rw [hexecuted, hforce]
    exact h.ran
  reported cqe hcqe hkind p files hp hnew :=
    hforce.trans (h.reported cqe (hcompletions cqe hcqe) hkind p files (hslab ▸ hp) hnew)
  validated t p hkind hp hindex := by
    obtain ⟨r, hr, hacc⟩ := h.validated t p hkind (hslab ▸ hp) hindex
    exact ⟨r, hr, htrace _ hacc⟩
  checked e he hindex := by
    obtain ⟨p, r, hr, hacc⟩ := h.checked e (hunrun e he) hindex
    exact ⟨p, r, hr, htrace _ hacc⟩

/-- The platform runs an entry. -/
theorem execute (h : FilesInForce slab ring registration trace) (hl : Ledger slab ring pending)
    (hran : IoRing.Executed ring ring' e outcome) (htrace : ∀ e ∈ trace, e ∈ trace') :
    FilesInForce slab ring' registration trace' := by
  obtain ⟨hunrun, hexecuted, hcompletions⟩ := hran.fresh hl.nodup
  have hin : e ∈ ring.unrun := List.mem_append_right _ hran.mem
  -- What another registration expects to find is there still: there is no other.
  have hother : ∀ {t p}, t.kind = .operation → slab.payloadAt t.key = some p → p.newFiles ≠ none →
      t ≠ e.token → ring'.filesInForce = ring.filesInForce := by
    intro t p hkind hp hnew hne
    rw [hran.filesInForce]
    cases hop : e.op.newFiles with
    | none => simp
    | some files =>
      obtain ⟨hkind', p', hp', hnew'⟩ := hl.registering (IoRing.mem_entries_of_unrun hin) hop
      refine absurd (Token.ext_key (hkind.trans hkind'.symm) ?_) hne
      exact h.sole hp' (by simp [hnew']) hp hnew
  refine
    { alone := h.alone
      exclusive := h.exclusive
      quiet := fun k p hp hnew x hx => h.quiet k p hp hnew x (hran.unrun x hx)
      settled := fun hnone => ?_
      waiting := fun x hx hop => ?_
      ran := fun x o hx files hop => ?_
      reported := fun cqe hcqe hkind p files hp hnew => ?_
      validated := fun t p hkind hp hindex => ?_
      checked := fun x hx hindex => ?_ }
  · rw [hran.filesInForce, h.settled hnone]
    cases hop : e.op.newFiles with
    | none => simp
    | some files =>
      obtain ⟨-, p, hp, hnew⟩ := hl.registering (IoRing.mem_entries_of_unrun hin) hop
      rw [hnone _ p hp] at hnew
      cases hnew
  · obtain ⟨files, hfiles⟩ := Option.ne_none_iff_exists'.mp hop
    have hold := hran.unrun x hx
    obtain ⟨hkind, p, hp, hnew⟩ := hl.registering (IoRing.mem_entries_of_unrun hold) hfiles
    rw [hother hkind hp (by simp [hnew]) (hunrun x hx)]
    exact h.waiting x hold hop
  · rw [hran.executed, List.mem_append, List.mem_singleton] at hx
    rcases hx with hx | heq
    · obtain ⟨hkind, p, hp, hnew⟩ := hl.registering (IoRing.mem_entries_of_executed hx) hop
      rw [hother hkind hp (by simp [hnew]) (hexecuted _ hx)]
      exact h.ran x o hx files hop
    · obtain ⟨rfl, rfl⟩ := Prod.mk.inj heq
      rw [hran.filesInForce, h.waiting x hin (by simp [hop]), hop]
      rfl
  · rw [hran.completions] at hcqe
    rw [hother hkind hp (by simp [hnew]) (hcompletions cqe hcqe)]
    exact h.reported cqe hcqe hkind p files hp hnew
  · obtain ⟨r, hr, hacc⟩ := h.validated t p hkind hp hindex
    exact ⟨r, hr, htrace _ hacc⟩
  · obtain ⟨p, r, hr, hacc⟩ := h.checked x (hran.unrun x hx) hindex
    exact ⟨p, r, hr, htrace _ hacc⟩

/-- The platform reports an entry. -/
theorem report (h : FilesInForce slab ring registration trace) (hl : Ledger slab ring pending)
    (hran : IoRing.Reported ring ring' e outcome) (htrace : ∀ e ∈ trace, e ∈ trace') :
    FilesInForce slab ring' registration trace' := by
  have hforce := hran.filesInForce
  have hunrun := hran.unrun
  refine
    { alone := h.alone
      exclusive := h.exclusive
      quiet := hunrun ▸ h.quiet
      settled := hforce ▸ h.settled
      waiting := by
        rw [hunrun, hforce]
        exact h.waiting
      ran := fun x o hx files hop => ?_
      reported := fun cqe hcqe hkind p files hp hnew => ?_
      validated := fun t p hkind hp hindex => ?_
      checked := fun x hx hindex => ?_ }
  · rw [hran.executed] at hx
    exact hforce.trans (h.ran x o (List.mem_of_mem_erase hx) files hop)
  · rw [hran.completions, List.mem_append, List.mem_singleton] at hcqe
    rcases hcqe with hcqe | rfl
    · exact hforce.trans (h.reported cqe hcqe hkind p files hp hnew)
    · obtain ⟨op, hcell, hbacks⟩ := hl.backed e (IoRing.mem_entries_of_executed hran.mem) hkind
      obtain rfl := Option.some.inj ((OpSlab.payloadAt_of_cell hcell).symm.trans hp)
      have halone := h.alone _ _ hp (by simp [hnew])
      exact hforce.trans (h.ran e outcome hran.mem files (hbacks.registers hnew halone))
  · obtain ⟨r, hr, hacc⟩ := h.validated t p hkind hp hindex
    exact ⟨r, hr, htrace _ hacc⟩
  · obtain ⟨p, r, hr, hacc⟩ := h.checked x (hunrun ▸ hx) hindex
    exact ⟨p, r, hr, htrace _ hacc⟩

/-- An entry joins the queue. -/
theorem push (h : FilesInForce slab ring registration trace)
    (hquiet : e.op.fileIndex ≠ none → ∀ k p, slab.payloadAt k = some p → p.newFiles = none)
    (hwaiting : e.op.newFiles ≠ none → ring.filesInForce = filesOf registration)
    (hchecked : e.op.fileIndex ≠ none →
      ∃ p r, registration = some r ∧ .accepted e.token.toOperation p (some r) ∈ trace) :
    FilesInForce slab (ring.push e) registration trace := by
  have hunrun : ∀ x ∈ (ring.push e).unrun, x ∈ ring.unrun ∨ x = e := by
    simp only [IoRing.unrun, IoRing.push, List.mem_append, List.mem_singleton]
    tauto
  refine { h with
    quiet := fun k p hp hnew x hx => ?_
    waiting := fun x hx hop => ?_
    checked := fun x hx hindex => ?_ }
  · rcases hunrun x hx with hx | rfl
    · exact h.quiet k p hp hnew x hx
    · exact Decidable.byContradiction fun hindex => hnew (hquiet hindex k p hp)
  · rcases hunrun x hx with hx | rfl
    · exact h.waiting x hx hop
    · exact hwaiting hop
  · rcases hunrun x hx with hx | rfl
    · exact h.checked x hx hindex
    · exact hchecked hindex

/-- A payload joins the slab. -/
theorem place (h : FilesInForce slab ring registration trace) (hkind : t.kind = .operation)
    (hslab : slab'.payloadAt = Function.update slab.payloadAt t.key (some p))
    (hvacant : slab.payloadAt t.key = none)
    (hfresh : ∀ cqe ∈ ring.completions, cqe.token ≠ t)
    (hfiles : p.newFiles ≠ none → (p.file = none ∧ p.registeredFile = none) ∧
      (∀ k p, slab.payloadAt k = some p → p.newFiles = none ∧ p.registeredFile = none) ∧
      ∀ e ∈ ring.unrun, e.op.fileIndex = none)
    (hindex : p.registeredFile ≠ none →
      (∀ k p, slab.payloadAt k = some p → p.newFiles = none) ∧
      ∃ r, registration = some r ∧ .accepted t p (some r) ∈ trace')
    (htrace : ∀ e ∈ trace, e ∈ trace') : FilesInForce slab' ring registration trace' := by
  have hcases : ∀ {k q}, slab'.payloadAt k = some q →
      (k = t.key ∧ q = p) ∨ (k ≠ t.key ∧ slab.payloadAt k = some q) := by
    intro k q hq
    rw [hslab, Function.update_apply] at hq
    split at hq
    · exact .inl ⟨‹_›, (Option.some.inj hq).symm⟩
    · exact .inr ⟨‹_›, hq⟩
  have hold : ∀ {k q}, slab.payloadAt k = some q → slab'.payloadAt k = some q := by
    intro k q hq
    rw [hslab, Function.update_of_ne, hq]
    rintro rfl
    rw [hvacant] at hq
    cases hq
  refine
    { alone := fun k q hq hnew => ?_
      exclusive := fun k q hq hnew k' q' hq' hne => ?_
      quiet := fun k q hq hnew => ?_
      settled := fun hnone => h.settled fun k q hq => hnone k q (hold hq)
      waiting := h.waiting
      ran := h.ran
      reported := fun cqe hcqe hk q files hq hnew => ?_
      validated := fun u q hu hq hqi => ?_
      checked := fun x hx hxi => ?_ }
  · rcases hcases hq with ⟨rfl, rfl⟩ | ⟨-, hq⟩
    · exact (hfiles hnew).1
    · exact h.alone k q hq hnew
  · rcases hcases hq with ⟨rfl, rfl⟩ | ⟨-, hq⟩
    · rcases hcases hq' with ⟨rfl, -⟩ | ⟨-, hq'⟩
      · exact absurd rfl hne
      · exact (hfiles hnew).2.1 k' q' hq'
    · rcases hcases hq' with ⟨rfl, rfl⟩ | ⟨-, hq'⟩
      · constructor
        · exact Decidable.byContradiction fun hnew' => hnew ((hfiles hnew').2.1 k q hq).1
        · exact Decidable.byContradiction fun hqi => hnew ((hindex hqi).1 k q hq)
      · exact h.exclusive k q hq hnew k' q' hq' hne
  · rcases hcases hq with ⟨rfl, rfl⟩ | ⟨-, hq⟩
    · exact (hfiles hnew).2.2
    · exact h.quiet k q hq hnew
  · rcases hcases hq with ⟨hkey, -⟩ | ⟨-, hq⟩
    · exact absurd (Token.ext_key (hk.trans hkind.symm) hkey) (hfresh cqe hcqe)
    · exact h.reported cqe hcqe hk q files hq hnew
  · rcases hcases hq with ⟨hkey, rfl⟩ | ⟨-, hq⟩
    · obtain rfl := Token.ext_key (hu.trans hkind.symm) hkey
      exact (hindex hqi).2
    · obtain ⟨r, hr, hacc⟩ := h.validated u q hu hq hqi
      exact ⟨r, hr, htrace _ hacc⟩
  · obtain ⟨q, r, hr, hacc⟩ := h.checked x hx hxi
    exact ⟨q, r, hr, htrace _ hacc⟩

/-- An operation's completion is reaped. A registration of files that succeeded
is adopted. -/
theorem resolve (h : FilesInForce slab ring registration trace)
    (hl : Ledger slab' { ring with completions := rest } pending)
    (hring : ring.completions = cqe :: rest) (hkind : cqe.token.kind = .operation)
    (hp : slab.payloadAt cqe.token.key = some p)
    (hslab : slab'.payloadAt = Function.update slab.payloadAt cqe.token.key none)
    (htrace : ∀ e ∈ trace, e ∈ trace') :
    FilesInForce slab' { ring with completions := rest }
      (if cqe.outcome.resultCode.failed then registration else
        (p.newFiles.map fun files => { files, count := files.length }).or registration) trace' := by
  have hcases : ∀ {k q}, slab'.payloadAt k = some q →
      k ≠ cqe.token.key ∧ slab.payloadAt k = some q := by
    intro k q hq
    rw [hslab, Function.update_apply] at hq
    split at hq
    · cases hq
    · exact ⟨‹_›, hq⟩
  cases hnew : p.newFiles with
  | none =>
    have hsettled : (∀ k q, slab'.payloadAt k = some q → q.newFiles = none) →
        ring.filesInForce = filesOf registration := by
      refine fun hnone => h.settled fun k q hq => ?_
      by_cases hk : k = cqe.token.key
      · rw [hk, hp] at hq
        exact Option.some.inj hq ▸ hnew
      · exact hnone k q (by rw [hslab, Function.update_of_ne hk, hq])
    simp only [Option.map_none, Option.none_or, ite_self]
    exact
      { alone := fun k q hq => h.alone k q (hcases hq).2
        exclusive := fun k q hq hn k' q' hq' => h.exclusive k q (hcases hq).2 hn k' q' (hcases hq').2
        quiet := fun k q hq => h.quiet k q (hcases hq).2
        settled := hsettled
        waiting := h.waiting
        ran := h.ran
        reported := fun c hc hk q files hq =>
          h.reported c (hring ▸ List.mem_cons_of_mem _ hc) hk q files (hcases hq).2
        validated := fun t q hk hq hi => by
          obtain ⟨r, hr, hacc⟩ := h.validated t q hk (hcases hq).2 hi
          exact ⟨r, hr, htrace _ hacc⟩
        checked := fun e he hi => by
          obtain ⟨q, r, hr, hacc⟩ := h.checked e he hi
          exact ⟨q, r, hr, htrace _ hacc⟩ }
  | some files =>
    have hnone : ∀ {k q}, slab'.payloadAt k = some q → q.newFiles = none ∧ q.registeredFile = none :=
      fun hq => h.exclusive _ p hp (by simp [hnew]) _ _ (hcases hq).2 (hcases hq).1
    -- The platform has no other registration of files in its hands.
    have hentries : ∀ {e files},
        e ∈ ({ ring with completions := rest } : IoRing ws).entries → e.op.newFiles ≠ some files := by
      intro e files he hop
      obtain ⟨-, q, hq, hqn⟩ := hl.registering he hop
      rw [(hnone hq).1] at hqn
      cases hqn
    exact
      { alone := fun k q hq hn => absurd (hnone hq).1 hn
        exclusive := fun k q hq hn => absurd (hnone hq).1 hn
        quiet := fun k q hq hn => absurd (hnone hq).1 hn
        settled := fun _ => by
          have hforce := h.reported cqe (hring ▸ List.mem_cons_self) hkind p files hp hnew
          refine hforce.trans ?_
          split <;> rfl
        waiting := fun e he hop => by
          obtain ⟨files, hfiles⟩ := Option.ne_none_iff_exists'.mp hop
          exact absurd hfiles (hentries (IoRing.mem_entries_of_unrun he))
        ran := fun e o he files hop =>
          absurd hop (hentries (IoRing.mem_entries_of_executed he))
        reported := fun c hc hk q files hq hqn => by
          rw [(hnone hq).1] at hqn
          cases hqn
        validated := fun t q hk hq hi => absurd (hnone hq).2 hi
        checked := fun e he hi => absurd (h.quiet _ p hp (by simp [hnew]) e he) hi }

end Runtime.FilesInForce

namespace Runtime

open Slab

variable {s s' : Sys ws}

/-- What the driver takes to be in force once an operation has completed. -/
theorem World.fileRegistration_resolveCompletion (w : World ws) (p : OpPayload) (cqe : Cqe ws) :
    (w.resolveCompletion p cqe).1.inner.fileRegistration =
      if cqe.outcome.resultCode.failed then w.inner.fileRegistration else
        (p.newFiles.map fun files => { files, count := files.length }).or w.inner.fileRegistration := by
  rw [resolveCompletion_inner]
  unfold settleRegistration OpPayload.newFiles completionResult
  cases p.pendingRegistration with
  | none => simp
  | some pending =>
    cases pending <;> cases cqe.outcome.resultCode.failed <;> rfl

/-- The file sets of a whole system. -/
def FilesKnown (s : Sys ws) : Prop :=
  s.world.inner.ring.closed = false → FilesInForce s.world.inner.slab s.world.inner.ring
    s.world.inner.fileRegistration s.world.trace

theorem FilesKnown.of_inner (h : FilesKnown s) (hinner : s'.world.inner = s.world.inner)
    (htrace : ∀ e ∈ s.world.trace, e ∈ s'.world.trace) : FilesKnown s' := by
  unfold FilesKnown
  rw [hinner]
  exact fun hc => (h hc).of_same rfl (fun _ => id) rfl (fun _ => id) rfl htrace

theorem FilesKnown.move (hb : Books s) (h : FilesKnown s) (hm : Move b s s') : FilesKnown s' := by
  have htrace := hm.suffix.subset
  have hb' := hb.move hm
  cases hm with
  | quiet hq =>
    unfold FilesKnown
    rw [hq.world.inner.slab, hq.world.inner.ring, hq.world.inner.fileRegistration]
    exact fun hc => (h hc).of_same rfl (fun _ => id) rfl (fun _ => id) rfl htrace
  | escalated | retracted | faltered | deferred | recalled => exact h
  | executed hring =>
    have hran := IoRing.execute_some hring
    intro hc
    have hopen : s.world.inner.ring.closed = false := hran.closed.symm.trans hc
    exact (h hopen).execute (hb.ledger hopen) hran htrace
  | reported hring =>
    have hran := IoRing.report_some hring
    intro hc
    have hopen : s.world.inner.ring.closed = false := hran.closed.symm.trans hc
    exact (h hopen).report (hb.ledger hopen) hran htrace
  | refused hcell =>
    have hslab := funext fun k => congrArg (fun c => (c k).bind Cell.payload?) hcell
    exact fun hc => (h hc).of_same hslab (fun _ => id) rfl (fun _ => id) rfl htrace
  | @cancelled target _ _ t op htorn hopen hkind hcell hlife hcancel htarget =>
    intro _
    have hp := OpSlab.payloadAt_of_cell hcell
    -- A cancellation names an index if its operation does.
    have hindex : target.handle.index ≠ none → op.payload.registeredFile ≠ none := by
      unfold OpPayload.cancelTarget at htarget
      split at htarget <;> cases htarget <;> simp_all [CancelTarget.handle, HandleRef.index]
    refine FilesInForce.push ((h hopen).of_same (OpSlab.payloadAt_registerCancel ..) (fun _ => id) rfl
      (fun _ => id) rfl htrace) (fun hi k q hq => ?_) (fun hn => absurd rfl hn) fun hi => ?_
    · have hq : s.world.inner.slab.payloadAt k = some q :=
        (congrFun (OpSlab.payloadAt_registerCancel ..) k).symm.trans hq
      refine Decidable.byContradiction fun hnew => hindex hi ?_
      by_cases hk : t.key = k
      · subst hk
        obtain rfl := Option.some.inj (hp.symm.trans hq)
        exact ((h hopen).alone _ _ hp hnew).2
      · exact ((h hopen).exclusive k q hq hnew _ _ hp hk).2
    · obtain ⟨r, hr, hacc⟩ := (h hopen).validated t _ hkind hp (hindex hi)
      have htoken : (Token.fromUserData t.toCancel.asUserData).toOperation = t := by
        rw [Token.fromUserData_asUserData, Token.toOperation_toCancel, Token.toOperation_of_kind hkind]
      exact ⟨_, r, hr, htoken.symm ▸ hacc⟩
  | submitted _ hopen hsub =>
    exact fun _ => (h hopen).of_same (OpSlab.payloadAt_promote _) hsub.unrun hsub.executed
      (fun _ hc => hsub.completions ▸ hc) hsub.filesInForce htrace
  | waited _ hopen _ hsub =>
    exact fun _ => (h hopen).of_same rfl hsub.unrun hsub.executed
      (fun _ hc => hsub.completions ▸ hc) hsub.filesInForce htrace
  | reapedCancel _ hring =>
    exact fun hc => (h hc).of_same (OpSlab.payloadAt_completeCancel ..) (fun _ => id) rfl
      (fun _ hmem => hring ▸ List.mem_cons_of_mem _ hmem) rfl htrace
  | reapedStray _ hring =>
    exact fun hc => (h hc).of_same rfl (fun _ => id) rfl
      (fun _ hmem => hring ▸ List.mem_cons_of_mem _ hmem) rfl htrace
  | @resolved cqe rest _ op _ hring hkind hcell =>
    intro hc
    have hl := hb'.ledger hc
    have hopen := hb.open_of_completions hring
    simp only [Sys.withWorld, World.slab_resolveCompletion, World.ring_resolveCompletion,
      World.fileRegistration_resolveCompletion] at hl htrace ⊢
    exact (h hopen).resolve hl hring hkind (OpSlab.payloadAt_of_cell hcell)
      (OpSlab.payloadAt_complete hkind hcell) htrace
  | released _ hclosed =>
    intro hc
    rw [Sys.withWorld, World.release_inner, hclosed] at hc
    cases hc
  | detached =>
    exact fun hc => (h hc).of_same (OpSlab.payloadAt_detach ..) (fun _ => id) rfl (fun _ => id) rfl
      htrace
  | polled => exact h.of_inner rfl htrace
  | delivered => exact h.of_inner (by simp) htrace
  | forgotten => exact h.of_inner (by simp) htrace
  | checkedOut => exact h.of_inner rfl htrace
  | filled => exact h.of_inner rfl htrace
  | handleDropped => exact h.of_inner (by simp) htrace

theorem FilesKnown.accepted (hb : Books s) (h : FilesKnown s) (hok : FilesApart s (.start request answers))
    (hmade : request.Made p) (ha : Accepted s s' t p e f) : FilesKnown s' := by
  intro _
  have hopen := ha.isOpen
  have hl := hb.ledger hopen
  have hknown := h hopen
  have htoken : e.token = t := by rw [Sqe.token, ha.userData, Token.fromUserData_asUserData]
  have hcell : s.world.inner.slab.cell t.key = none := by
    cases hc : s.world.inner.slab.cell t.key with
    | none => rfl
    | some c => exact absurd (OpSlab.issued_of_cell hc) ha.unissued
  have hvacant : s.world.inner.slab.payloadAt t.key = none := by rw [OpSlab.payloadAt, hcell]; rfl
  have hfresh : ∀ cqe ∈ s.world.inner.ring.completions, cqe.token ≠ t := by
    rintro cqe hcqe rfl
    have howed : cqe.token ∈ s.world.inner.ring.owed :=
      List.mem_append_right _ (List.mem_map.mpr ⟨cqe, hcqe, rfl⟩)
    have := (hl.owed_iff _ ha.kind).mp howed
    rw [hcell] at this
    exact this
  rw [ha.ring, ha.fileRegistration]
  have hchecked : p.registeredFile ≠ none →
      ∃ r, s.world.inner.fileRegistration = some r ∧ .accepted t p (some r) ∈ s'.world.trace := by
    intro hindex
    obtain ⟨i, hi⟩ := Option.ne_none_iff_exists'.mp hindex
    have hcheck := (ha.admitted.registeredFile i hi).2
    unfold DriverInner.checkRegisteredFile at hcheck
    split at hcheck
    · cases hcheck
    · rename_i r hr
      exact ⟨r, hr, ha.mem_accepted.mpr (.inl ⟨rfl, rfl, hr.symm⟩)⟩
  have hfiles : p.newFiles ≠ none → (p.file = none ∧ p.registeredFile = none) ∧
      (∀ k p, s.world.inner.slab.payloadAt k = some p → p.newFiles = none ∧ p.registeredFile = none) ∧
      ∀ e ∈ s.world.inner.ring.unrun, e.op.fileIndex = none := by
    intro hnew
    have hpending : p.pendingRegistration ≠ none := by
      intro hnone
      rw [OpPayload.newFiles, hnone] at hnew
      exact hnew rfl
    obtain ⟨pending, hpending⟩ := Option.ne_none_iff_exists'.mp hpending
    obtain ⟨-, hfile, -, hindex, -⟩ := ha.admitted.registration pending hpending
    exact ⟨⟨hfile, hindex⟩, hok.1 (hmade.newFiles ▸ hnew)⟩
  have hindex : p.registeredFile ≠ none →
      ∀ k p, s.world.inner.slab.payloadAt k = some p → p.newFiles = none :=
    fun hi => hok.2 (hmade.registeredFile ▸ hi)
  have hplaced : FilesInForce s'.world.inner.slab s.world.inner.ring _ s'.world.trace :=
    hknown.place ha.kind ha.payloadAt hvacant hfresh hfiles
      (fun hi => ⟨hindex hi, hchecked hi⟩)
      (fun ev hev => by rw [ha.trace]; exact List.mem_append_right _ (List.mem_cons_of_mem _ hev))
  refine hplaced.push (fun hi k q hq => ?_) (fun hn => ?_) fun hi => ?_
  · have hp := ha.backs.registeredFile hi
    rw [ha.payloadAt, Function.update_apply] at hq
    split at hq
    · obtain rfl := Option.some.inj hq
      exact Decidable.byContradiction fun hnew => hp (hfiles hnew).1.2
    · exact hindex hp k q hq
  · obtain ⟨files, hop⟩ := Option.ne_none_iff_exists'.mp hn
    have hnew := ha.backs.newFiles hop
    exact hknown.settled fun k q hq => ((hfiles (by simp [hnew])).2.1 k q hq).1
  · obtain ⟨r, hr, hacc⟩ := hchecked (ha.backs.registeredFile hi)
    rw [htoken, Token.toOperation_of_kind ha.kind]
    exact ⟨p, r, hr, hacc⟩

-- ---------------------------------------------------------------------------
-- Indices mean what they were checked against
-- ---------------------------------------------------------------------------

/-- Every entry that ran and named an index was checked against the set it found
in force. -/
def RanChecked (s : Sys ws) : Prop :=
  ∀ e outcome files buffers, .executed e outcome files buffers ∈ s.world.trace →
    e.op.fileIndex ≠ none → ∃ p r, .accepted e.token.toOperation p (some r) ∈ s.world.trace ∧
      r.files = files

/-- An entry about to run finds in force the set it was checked against. -/
theorem FilesInForce.checked_in_force {slab : OpSlab ws OpPayload} {ring : IoRing ws}
    {trace : List (Event ws)} (h : FilesInForce slab ring registration trace)
    (he : e ∈ ring.unrun) (hindex : e.op.fileIndex ≠ none) :
    ∃ p r, .accepted e.token.toOperation p (some r) ∈ trace ∧ r.files = ring.filesInForce := by
  obtain ⟨p, r, hr, hacc⟩ := h.checked e he hindex
  have hnone : ∀ k q, slab.payloadAt k = some q → q.newFiles = none :=
    fun k q hq => Decidable.byContradiction fun hnew => hindex (h.quiet k q hq hnew e he)
  refine ⟨p, r, hacc, ?_⟩
  rw [h.settled hnone, hr]
  rfl

theorem kept_ranChecked : @Kept ws FilesApart fun s => FilesKnown s ∧ RanChecked s where
  initial s hs := by
    refine ⟨fun _ => ?_, ?_⟩
    · rw [hs.inner]
      exact .new
    · intro e outcome files buffers hrun
      rw [World.trace, hs.log] at hrun
      cases hrun
  move s s' hb h hm := by
    refine ⟨h.1.move hb hm, fun e outcome files buffers hrun hindex => ?_⟩
    rcases hm.mem_of_trace hrun with hrun | ⟨⟨ring, hring⟩, hfiles, -⟩
    · obtain ⟨p, r, hacc, hr⟩ := h.2 e outcome files buffers hrun hindex
      exact ⟨p, r, hm.suffix.subset hacc, hr⟩
    · have hmem := (IoRing.execute_some hring).mem
      have hopen : s.world.inner.ring.closed = false := by
        cases hc : s.world.inner.ring.closed with
        | false => rfl
        | true =>
          rw [(hb.completions_of_closed hc).1] at hmem
          cases hmem
      obtain ⟨p, r, hacc, hr⟩ :=
        (h.1 hopen).checked_in_force (List.mem_append_right _ hmem) hindex
      exact ⟨p, r, hm.suffix.subset hacc, hr.trans hfiles.symm⟩
  accepted s s' t p e f request answers hb h hok hmade ha := by
    refine ⟨h.1.accepted hb hok hmade ha, fun x outcome files buffers hrun hindex => ?_⟩
    have hsuffix : ∀ ev ∈ s.world.trace, ev ∈ s'.world.trace := by
      rw [ha.trace]
      exact fun ev hev => List.mem_append_right _ (List.mem_cons_of_mem _ hev)
    have hold : .executed x outcome files buffers ∈ s.world.trace := by
      simpa [ha.trace] using hrun
    obtain ⟨q, r, hacc, hr⟩ := h.2 x outcome files buffers hold hindex
    exact ⟨q, r, hsuffix _ hacc, hr⟩
  setCursor s file position _ h _ := by
    refine ⟨h.1.of_inner rfl fun _ => List.mem_cons_of_mem _, ?_⟩
    intro e outcome files buffers hrun hindex
    rcases List.mem_cons.mp hrun with heq | hrun
    · cases heq
    · obtain ⟨p, r, hacc, hr⟩ := h.2 e outcome files buffers hrun hindex
      exact ⟨p, r, List.mem_cons_of_mem _ hacc, hr⟩

/-- In every run that keeps registrations of files apart from operations that
name an index, each index means what it was checked against. -/
theorem indices_faithful (hr : (systemMachine ws).ReachableBy FilesApart s) : IndicesFaithful s := by
  intro e outcome files buffers hrun hindex
  have honce := (kept_acceptedOnce FilesApart).reachable hr
  obtain ⟨p, r, hacc, hfiles⟩ := (kept_ranChecked.reachable hr).2 e outcome files buffers
    (List.mem_filter.mpr ⟨hrun, rfl⟩) hindex
  refine ⟨⟨p, some r, World.mem_log hacc⟩, fun q checked hacc' => ⟨r, ?_, hfiles⟩⟩
  exact (honce.unique _ _ _ _ _ hacc (List.mem_filter.mpr ⟨hacc', rfl⟩)).2.symm

/-- A request that keeps registrations of files apart from operations that name
an index, as far as a glance at the driver tells: with nothing unfinished
anything may start. -/
def filesApart (s : Sys ws) : Action ws → Bool
  | .start request _ => (request.newFiles = none ∧ request.registeredFile = none) ∨
    s.world.inner.slab.outstanding = 0 ∧ s.world.inner.ring.unrun = []
  | _ => true

theorem FilesApart.of_check (s : Sys ws) (a : Action ws) (h : filesApart s a) : FilesApart s a := by
  cases a with
  | start request answers =>
    rcases of_decide_eq_true h with ⟨hnew, hindex⟩ | ⟨hslab, hunrun⟩
    · exact ⟨absurd hnew, absurd hindex⟩
    · have hnone : ∀ k p, s.world.inner.slab.payloadAt k ≠ some p := by
        intro k p hp
        rw [OpSlab.payloadAt, OpSlab.outstanding_eq_zero.mp hslab k] at hp
        cases hp
      refine ⟨fun _ => ⟨fun k p hp => absurd hp (hnone k p), ?_⟩, fun _ k p hp => absurd hp (hnone k p)⟩
      simp [hunrun]
  | _ => trivial

/-- How the platform runs a registration that succeeds. -/
def registeredOk : Outcome := { resultCode := 0, information := 0 }

def registerFilesEntry : Sqe .w64 := ⟨.registerFiles [10], 2 ^ 17⟩

def registerBuffersEntry : Sqe .w64 := ⟨.registerBuffers [⟨4096, 512⟩], 2 ^ 17 + 2⟩

def registeredReadEntry : Sqe .w64 := ⟨.read (.registered 0) (.registered 0 0) 16 0, 2 ^ 18 + 2⟩

/-- A file and a buffer are registered, and a read that names both is built. -/
def registeredRead : List (Action .w64) :=
  [.start (.registerFiles [10]) .willing,
    .start (.registerBuffers [{ address := 4096, capacity := 512, len := 512 }]) .willing,
    .pollDrive 7 .willing,
    .execute registerFilesEntry registeredOk,
    .execute registerBuffersEntry registeredOk,
    .report registerFilesEntry registeredOk,
    .report registerBuffersEntry registeredOk,
    .advance .willing, .advance .willing, .advance .willing,
    .poll 1 8,
    .checkOut 0 0,
    .start (.registeredOp (.registered 0) 0 0 16 0 false) .willing]

/-- A read through an index, run once the registration it was checked against
had been adopted. -/
theorem indices_faithful_read : ∃ s : Sys .w64, ∃ e outcome buffers,
    .executed e outcome [10] buffers ∈ s.world.log ∧ e.op.fileIndex = some 0 ∧
    IndicesFaithful s := by
  obtain ⟨s, hrun, hlog⟩ : ∃ s, ((systemMachine .w64).guarded filesApart).run .new
      (registeredRead ++
        [.advance .willing, .advance .willing, .execute registeredReadEntry registeredOk]) = some s ∧
      s.world.log.head? = some (.executed registeredReadEntry registeredOk [10] [⟨4096, 512⟩]) :=
    ⟨_, rfl, rfl⟩
  have hr := Machine.Reachable.run (.init Sys.new_initial) hrun
  exact ⟨s, _, _, _, List.mem_of_mem_head? hlog, rfl,
    indices_faithful (hr.of_guarded FilesApart.of_check)⟩

/-- A request that carries a registration was accepted against these files. -/
def Event.checkedAgainst (files : List Nat) : Event ws → Bool
  | .accepted _ _ (some r) => r.files == files
  | _ => true

/-- A registration built after the read runs before it: the index is checked
against one set and means another. -/
theorem indices_unfaithful :
    ¬ ∀ s : Sys .w64, (systemMachine .w64).Reachable s → IndicesFaithful s := by
  intro h
  obtain ⟨s, hrun, hlog, hchecked⟩ : ∃ s, (systemMachine .w64).run .new
      (registeredRead ++
        [.start (.registerFiles [20]) .willing, .advance .willing, .advance .willing,
          .execute ⟨.registerFiles [20], 2 ^ 18⟩ registeredOk,
          .execute registeredReadEntry registeredOk]) = some s ∧
      s.world.log.head? = some (.executed registeredReadEntry registeredOk [20] [⟨4096, 512⟩]) ∧
      s.world.log.all (Event.checkedAgainst [10]) = true :=
    ⟨_, rfl, rfl, rfl⟩
  obtain ⟨⟨p, checked, hacc⟩, hall⟩ := h s (reachable_of_run hrun) _ _ _ _
    (List.mem_of_mem_head? hlog) (by rintro ⟨⟩)
  obtain ⟨r, rfl, hr⟩ := hall p checked hacc
  have := eq_of_beq (List.all_eq_true.mp hchecked _ hacc)
  cases hr.symm.trans this

end Runtime

end WinIoring
