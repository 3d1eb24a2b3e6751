import WinIoring.Runtime.Driver

/-!
# The ledger

What the slab believes of the platform is what the platform holds: a built slot
is an entry in the submission queue, a submitted one is an entry the platform
owes a completion for, and a pending cancellation is a cancel entry in one or
the other. Every function of the driver keeps these books.
-/

namespace WinIoring

open Slab

variable {ws : WordSize}

def Sqe.token (e : Sqe ws) : Token ws := .fromUserData e.userData

def Cqe.token (c : Cqe ws) : Token ws := .fromUserData c.userData

/-- The set a registration of files puts in force. -/
def SqeOp.newFiles : SqeOp ws → Option (List FileId)
  | .registerFiles files => some files
  | _ => none

/-- The set a registration of buffers puts in force. -/
def SqeOp.newBuffers : SqeOp ws → Option (List BufferInfo)
  | .registerBuffers descriptors => some descriptors
  | _ => none

namespace IoRing

/-- The tokens of the entries the platform has not accepted. -/
def queued (r : IoRing ws) : List (Token ws) := r.queue.map Sqe.token

/-- The tokens of the completions the driver has yet to reap. -/
def owed (r : IoRing ws) : List (Token ws) :=
  r.inflight.map Sqe.token ++ r.executed.map (·.1.token) ++ r.completions.map Cqe.token

/-- The entries the platform can still act on or has not reported. -/
def entries (r : IoRing ws) : List (Sqe ws) := r.queue ++ r.inflight ++ r.executed.map (·.1)

@[simp] theorem queued_create : (create : IoRing ws).queued = [] := rfl

@[simp] theorem owed_create : (create : IoRing ws).owed = [] := rfl

theorem outstanding_eq (r : IoRing ws) :
    r.queued ++ r.owed = r.entries.map Sqe.token ++ r.completions.map Cqe.token := by
  simp [queued, owed, entries, Function.comp_def]

-- ---------------------------------------------------------------------------
-- What the calls do to the books
-- ---------------------------------------------------------------------------

/-- The ring with one more entry queued. -/
def push (r : IoRing ws) (e : Sqe ws) : IoRing ws :=
  { r with queue := r.queue ++ [e], history := e :: r.history }

theorem ensureOpen_ok {r : IoRing ws} : r.ensureOpen = .ok u ↔ r.closed = false := by
  unfold ensureOpen
  cases r.closed <;> simp

theorem build_cases (r : IoRing ws) (e : Sqe ws) (refusal : Option HResult) :
    (∃ err, r.build e refusal = (r, .error err)) ∨
      refusal = none ∧ r.closed = false ∧ r.build e refusal = (r.push e, .ok ()) := by
  unfold build
  split
  · exact .inl ⟨_, rfl⟩
  · rename_i hopen
    cases refusal with
    | some hr => exact .inl ⟨_, rfl⟩
    | none => exact .inr ⟨rfl, ensureOpen_ok.mp hopen, rfl⟩

theorem pop_some {r r' : IoRing ws} {failure : Option HResult}
    (h : r.popCompletion failure = (r', .ok (some cqe))) :
    ∃ rest, r.completions = cqe :: rest ∧ r' = { r with completions := rest } := by
  unfold popCompletion at h
  split at h
  · simp at h
  split at h
  · simp at h
  split at h
  · simp at h
  · rename_i cqe' rest hcompletions
    simp only [Prod.mk.injEq, Except.ok.injEq, Option.some.injEq] at h
    obtain ⟨rfl, rfl⟩ := h
    exact ⟨rest, hcompletions, rfl⟩

/-- What a submission moves: the entries it takes go from the queue to the
platform. -/
structure Submitted (r r' : IoRing ws) (taken : Sqe ws → Bool) : Prop where
  queue : r'.queue = r.queue.filter fun e => !taken e
  inflight : r'.inflight = r.inflight ++ r.queue.filter taken
  executed : r'.executed = r.executed
  completions : r'.completions = r.completions
  history : r'.history = r.history
  closed : r'.closed = r.closed
  buffersInForce : r'.buffersInForce = r.buffersInForce
  filesInForce : r'.filesInForce = r.filesInForce

variable {r r' : IoRing ws} {a : SubmitAnswer ws}

theorem submit_ok (h : (r.submit 0 a).2 = .ok count) :
    r.closed = false ∧ Submitted r (r.submit 0 a).1 fun _ => true := by
  unfold submit at h ⊢
  split at h
  · cases h
  · rename_i hopen
    cases hf : a.failure with
    | some hr => simp [hf] at h
    | none => exact ⟨ensureOpen_ok.mp hopen, by constructor <;> simp⟩

theorem submit_error (h : (r.submit 0 a).2 = .error e) : (r.submit 0 a).1 = r := by
  unfold submit at h ⊢
  split at h
  · rfl
  · cases hf : a.failure with
    | some hr => simp
    | none => simp [hf] at h

theorem submit_waiting (r : IoRing ws) (n : Nat) (a : SubmitAnswer ws) :
    (r.submit n a).1 = r ∨ r.closed = false ∧ ∃ taken, Submitted r (r.submit n a).1 taken := by
  unfold submit
  split
  · exact .inl rfl
  · rename_i hopen
    refine .inr ⟨ensureOpen_ok.mp hopen,
      if n = 0 then fun _ => a.failure.isNone else a.taken, ?_⟩
    cases a.failure <;> constructor <;> rfl

theorem Submitted.entries_perm (h : Submitted r r' taken) : r'.entries.Perm r.entries := by
  have hsplit : (r.queue.filter (fun e => !taken e) ++ (r.inflight ++ r.queue.filter taken)).Perm
      (r.queue ++ r.inflight) :=
    calc r.queue.filter (fun e => !taken e) ++ (r.inflight ++ r.queue.filter taken)
      _ |>.Perm (r.queue.filter (fun e => !taken e) ++ (r.queue.filter taken ++ r.inflight)) :=
          List.perm_append_comm.append_left _
      _ |>.Perm ((r.queue.filter taken ++ r.queue.filter fun e => !taken e) ++ r.inflight) := by
          rw [← List.append_assoc]
          exact List.perm_append_comm.append_right _
      _ |>.Perm (r.queue ++ r.inflight) := (List.filter_append_perm taken r.queue).append_right _
  simp only [entries, h.queue, h.inflight, h.executed]
  exact hsplit.append_right _

theorem Submitted.perm (h : Submitted r r' taken) :
    (r'.queued ++ r'.owed).Perm (r.queued ++ r.owed) := by
  rw [outstanding_eq, outstanding_eq, h.completions]
  exact (h.entries_perm.map _).append_right _

/-- Running or reporting an entry leaves the driver's books alone. -/
structure SameBooks (r r' : IoRing ws) : Prop where
  queue : r'.queue = r.queue
  owed : r'.owed.Perm r.owed
  entries : ∀ e ∈ r'.entries, e ∈ r.entries
  history : r'.history = r.history
  closed : r'.closed = r.closed

/-- What running an entry does: it is no longer waiting, and a registration that
succeeds is in force. -/
structure Executed (r r' : IoRing ws) (e : Sqe ws) (outcome : Outcome) : Prop where
  mem : e ∈ r.inflight
  queue : r'.queue = r.queue
  inflight : r'.inflight = r.inflight.erase e
  executed : r'.executed = r.executed ++ [(e, outcome)]
  completions : r'.completions = r.completions
  history : r'.history = r.history
  closed : r'.closed = r.closed
  buffersInForce : r'.buffersInForce =
    if outcome.resultCode.failed then r.buffersInForce else e.op.newBuffers.getD r.buffersInForce
  filesInForce : r'.filesInForce =
    if outcome.resultCode.failed then r.filesInForce else e.op.newFiles.getD r.filesInForce

theorem execute_some (h : r.execute e outcome = some r') : Executed r r' e outcome := by
  unfold execute at h
  split at h
  · rename_i hmem
    split at h
    · rename_i hfailed
      obtain rfl := Option.some.inj h
      constructor <;> simp [hmem, hfailed]
    · rename_i hok
      split at h <;> obtain rfl := Option.some.inj h <;> rename_i hop
      · constructor <;> simp [hmem, hok, hop, SqeOp.newBuffers, SqeOp.newFiles]
      · constructor <;> simp [hmem, hok, hop, SqeOp.newBuffers, SqeOp.newFiles]
      · rename_i hbuffers
        have hnone : e.op.newBuffers = none ∧ e.op.newFiles = none := by
          cases h : e.op with
          | registerBuffers buffers => exact absurd h (hbuffers buffers)
          | registerFiles files => exact absurd h (hop files)
          | _ => exact ⟨rfl, rfl⟩
        constructor <;> simp [hmem, hok, hnone]
  · cases h

theorem execute_books (h : r.execute e outcome = some r') : SameBooks r r' := by
  have hran := execute_some h
  have hperm := List.perm_cons_erase hran.mem
  refine ⟨hran.queue, ?_, ?_, hran.history, hran.closed⟩
  · simp only [owed, hran.inflight, hran.executed, hran.completions, List.map_append, List.map_cons,
      List.map_nil]
    refine List.Perm.append_right _ ?_
    calc (r.inflight.erase e).map Sqe.token ++ (r.executed.map (·.1.token) ++ [e.token])
      _ |>.Perm (((e :: r.inflight.erase e).map Sqe.token) ++ r.executed.map (·.1.token)) := by
          rw [List.map_cons, ← List.append_assoc]
          exact List.perm_append_singleton _ _
      _ |>.Perm (r.inflight.map Sqe.token ++ r.executed.map (·.1.token)) :=
          (hperm.symm.map _).append_right _
  · intro x hx
    simp only [entries, hran.queue, hran.inflight, hran.executed, List.map_append, List.map_cons,
      List.map_nil, List.mem_append, List.mem_singleton] at hx ⊢
    rcases hx with (hx | hx) | hx | rfl
    · exact .inl (.inl hx)
    · exact .inl (.inr (List.mem_of_mem_erase hx))
    · exact .inr hx
    · exact .inl (.inr hran.mem)

/-- What reporting an entry does. -/
structure Reported (r r' : IoRing ws) (e : Sqe ws) (outcome : Outcome) : Prop where
  mem : (e, outcome) ∈ r.executed
  queue : r'.queue = r.queue
  inflight : r'.inflight = r.inflight
  executed : r'.executed = r.executed.erase (e, outcome)
  completions : r'.completions = r.completions ++ [{ userData := e.userData, outcome }]
  history : r'.history = r.history
  closed : r'.closed = r.closed
  buffersInForce : r'.buffersInForce = r.buffersInForce
  filesInForce : r'.filesInForce = r.filesInForce

theorem report_some (h : r.report e outcome = some r') : Reported r r' e outcome := by
  unfold report at h
  split at h
  · rename_i hmem
    obtain rfl := Option.some.inj h
    constructor <;> first | exact hmem | rfl
  · cases h

theorem report_books (h : r.report e outcome = some r') : SameBooks r r' := by
  have hran := report_some h
  have hperm := List.perm_cons_erase hran.mem
  refine ⟨hran.queue, ?_, ?_, hran.history, hran.closed⟩
  · simp only [owed, hran.inflight, hran.executed, hran.completions, List.map_append, List.map_cons,
      List.map_nil, List.append_assoc]
    refine List.Perm.append_left _ ?_
    calc (r.executed.erase (e, outcome)).map (·.1.token) ++ (r.completions.map Cqe.token ++ [e.token])
      _ |>.Perm ((((e, outcome) :: r.executed.erase (e, outcome)).map (·.1.token)) ++
            r.completions.map Cqe.token) := by
          rw [List.map_cons, ← List.append_assoc]
          exact List.perm_append_singleton _ _
      _ |>.Perm (r.executed.map (·.1.token) ++ r.completions.map Cqe.token) :=
          (hperm.symm.map _).append_right _
  · intro x hx
    simp only [entries, hran.queue, hran.inflight, hran.executed, List.mem_append, List.mem_map] at hx ⊢
    rcases hx with hx | ⟨y, hy, rfl⟩
    · exact .inl hx
    · exact .inr ⟨y, List.mem_of_mem_erase hy, rfl⟩

end IoRing

end WinIoring

namespace WinIoring.Runtime

open Slab

variable {ws : WordSize}

-- ---------------------------------------------------------------------------
-- The books
-- ---------------------------------------------------------------------------

def IsBuilt : Option (Cell OpPayload) → Prop
  | some (.live op) => op.lifecycle = .built
  | _ => False

def IsSubmitted : Option (Cell OpPayload) → Prop
  | some (.live op) => op.lifecycle = .submitted
  | _ => False

def CancelOutstanding : Option (Cell OpPayload) → Prop
  | some c => c.cancelPending
  | none => False

/-- No slot is left described once the code that filled it has returned. -/
def NoneDescribed (slab : OpSlab ws OpPayload) : Prop :=
  ∀ k op, slab.cell k = some (.live op) → op.lifecycle ≠ .described

theorem described_eq_nil {slab : OpSlab ws OpPayload} (h : NoneDescribed slab) :
    slab.described = [] :=
  OpSlab.tokensWhere_eq_nil.mpr fun k op hcell => by simpa using h k op hcell

/-- The payload keeps alive everything an entry refers to. -/
def Backs (p : OpPayload) : SqeOp ws → Prop
  | .read handle data _ _ | .write handle data _ _ => BacksHandle handle ∧ BacksData data
  | .flush handle => BacksHandle handle
  | .registerBuffers descriptors => ∃ buffers pointers extents watermarks,
      p.pendingRegistration = some (.buffers buffers pointers extents watermarks descriptors)
  | .registerFiles files => p.pendingRegistration = some (.files files)
  | .cancel .. => False
where
  BacksHandle : HandleRef → Prop
    | .raw file => p.file = some file
    | .registered index => p.file = none ∧ p.registeredFile = some index
  BacksData : DataRef → Prop
    | .raw address => ∃ b, p.buffer = some b ∧ b.ptr = address
    | .registered index offset => ∃ h, p.buffer = some (.handle h) ∧ h.index = index ∧
        p.registeredBuffer = some (index, offset)

/-- The slab's account of an open ring. -/
structure Ledger (slab : OpSlab ws OpPayload) (ring : IoRing ws) (pendingSubmit : Bool) : Prop where
  nodup : (ring.queued ++ ring.owed).Nodup
  queued_iff : ∀ t, t.kind = .operation → (t ∈ ring.queued ↔ IsBuilt (slab.cell t.key))
  owed_iff : ∀ t, t.kind = .operation → (t ∈ ring.owed ↔ IsSubmitted (slab.cell t.key))
  cancel_iff : ∀ t, t.kind = .cancel →
    (t ∈ ring.queued ++ ring.owed ↔ CancelOutstanding (slab.cell t.key))
  described : NoneDescribed slab
  built : ∀ k op, slab.cell k = some (.live op) → op.lifecycle = .built →
    op.cancel = .neverRequested
  backed : ∀ e ∈ ring.entries, e.token.kind = .operation →
    ∃ op, slab.cell e.token.key = some (.live op) ∧ Backs op.payload e.op
  cancels : ∀ e ∈ ring.entries, e.token.kind = .cancel →
    ∃ handle, e.op = .cancel handle e.token.toOperation.asUserData
  pending : ring.queue ≠ [] → pendingSubmit = true
  history_nodup : (ring.history.map Sqe.token).Nodup
  history_issued : ∀ e ∈ ring.history, slab.Issued e.token.key
  history_cancel : ∀ e ∈ ring.history, e.token.kind = .cancel →
    ∀ op, slab.cell e.token.key = some (.live op) → op.cancel ≠ .neverRequested

namespace Ledger

variable {slab slab' : OpSlab ws OpPayload} {ring ring' : IoRing ws} {pending : Bool}

theorem new : Ledger (.new : OpSlab ws OpPayload) .create false where
  nodup := List.nodup_nil
  queued_iff := by simp [IsBuilt]
  owed_iff := by simp [IsSubmitted]
  cancel_iff := by simp [CancelOutstanding]
  described := by simp [NoneDescribed]
  built := by simp
  backed := by simp [IoRing.create, IoRing.entries]
  cancels := by simp [IoRing.create, IoRing.entries]
  pending := by simp [IoRing.create]
  history_nodup := List.nodup_nil
  history_issued := by simp [IoRing.create]
  history_cancel := by simp [IoRing.create]

/-- A slab that tracks the same cells. -/
theorem of_cell (h : Ledger slab ring pending) (hcell : slab'.cell = slab.cell)
    (hissued : ∀ k, slab.Issued k → slab'.Issued k) : Ledger slab' ring pending where
  nodup := h.nodup
  queued_iff := hcell ▸ h.queued_iff
  owed_iff := hcell ▸ h.owed_iff
  cancel_iff := hcell ▸ h.cancel_iff
  described := fun k => hcell ▸ h.described k
  built := hcell ▸ h.built
  backed := hcell ▸ h.backed
  cancels := h.cancels
  pending := h.pending
  history_nodup := h.history_nodup
  history_issued := fun e he => hissued _ (h.history_issued e he)
  history_cancel := hcell ▸ h.history_cancel

/-- The platform runs or reports an entry. -/
theorem of_books (h : Ledger slab ring pending) (hb : IoRing.SameBooks ring ring') :
    Ledger slab ring' pending := by
  have hqueued : ring'.queued = ring.queued := by rw [IoRing.queued, hb.queue]; rfl
  have howed : ∀ t, t ∈ ring'.owed ↔ t ∈ ring.owed := fun t => hb.owed.mem_iff
  refine { h with
    nodup := ?_
    queued_iff := ?_
    owed_iff := ?_
    cancel_iff := ?_
    backed := fun e he => h.backed e (hb.entries e he)
    cancels := fun e he => h.cancels e (hb.entries e he)
    pending := by rw [hb.queue]; exact h.pending
    history_nodup := by rw [hb.history]; exact h.history_nodup
    history_issued := by rw [hb.history]; exact h.history_issued
    history_cancel := by rw [hb.history]; exact h.history_cancel }
  · rw [hqueued]
    exact (hb.owed.append_left _).nodup_iff.mpr h.nodup
  · rw [hqueued]
    exact h.queued_iff
  · intro t ht
    rw [howed t, h.owed_iff t ht]
  · intro t ht
    rw [hqueued, List.mem_append, howed t, ← List.mem_append, h.cancel_iff t ht]

theorem disjoint (h : Ledger slab ring pending) (hq : t ∈ ring.queued) : t ∉ ring.owed :=
  fun ho => List.disjoint_of_nodup_append h.nodup hq ho

end Ledger

end WinIoring.Runtime
