import WinIoring.Machine.Run

/-!
# Pools

Something that hands things out one at a time and takes them back. A pool is lawful
if what it hands out leaves it, what is put back enters it, and a refusal changes
nothing; over any run it then holds, with what is out, exactly what it held first.
-/

namespace WinIoring.Machine

/-- A pool as its users see it. `key` says which thing is which, whatever else about
it changes while it is out. -/
structure Pool (σ : Type u) (ι : Type v) (ε : Type w) (β : Type x) (κ : Type y) where
  free : σ → List κ
  key : β → κ
  take : σ → ι → σ × Except ε β
  put : σ → β → σ

namespace Pool

variable {σ : Type u} {ι : Type v} {ε : Type w} {β : Type x} {κ : Type y}

/-- A pool with what is out. -/
structure Lending (σ : Type u) (β : Type x) where
  pool : σ
  out : List β

/-- A take, or a put of the thing at a place among those out, as it is by then. -/
inductive Action (ι : Type v) (β : Type x) where
  | take (i : ι)
  | put (n : Nat) (b : β)

def machine [DecidableEq κ] (p : Pool σ ι ε β κ) (start : σ) : Machine (Lending σ β) (Action ι β) where
  init s := s = { pool := start, out := [] }
  step s
    | .take i =>
      match p.take s.pool i with
      | (pool, .ok b) => some { pool, out := b :: s.out }
      | (pool, .error _) => some { s with pool }
    | .put n b =>
      match s.out[n]? with
      | some taken =>
        if p.key b = p.key taken then some { pool := p.put s.pool b, out := s.out.eraseIdx n } else none
      | none => none

/-- What a pool that conserves does, for the takes that meet `sound` and in the states
that meet `inv`. -/
structure Lawful (p : Pool σ ι ε β κ) (inv : σ → Prop) (sound : σ → ι → Prop) : Prop where
  take_ok : ∀ {s i s' b}, p.take s i = (s', .ok b) → (p.free s).Perm (p.key b :: p.free s')
  take_error : ∀ {s i s' e}, sound s i → p.take s i = (s', .error e) → s' = s
  put : ∀ {s b}, inv s → (p.free (p.put s b)).Perm (p.key b :: p.free s)
  inv_take : ∀ {s i}, inv s → inv (p.take s i).1
  inv_put : ∀ {s b}, inv s → inv (p.put s b)

/-- A pool every refusal of which changes nothing. -/
theorem Lawful.of_cases {p : Pool σ ι ε β κ} {inv : σ → Prop}
    (htake : ∀ s i, (∃ e, p.take s i = (s, .error e)) ∨
      ∃ s' b, p.take s i = (s', .ok b) ∧ (p.free s).Perm (p.key b :: p.free s'))
    (hput : ∀ s b, inv s → (p.free (p.put s b)).Perm (p.key b :: p.free s))
    (hinv_take : ∀ s i, inv s → inv (p.take s i).1) (hinv_put : ∀ s b, inv s → inv (p.put s b)) :
    p.Lawful inv fun _ _ => True where
  take_ok := by
    intro s i s' b h
    rcases htake s i with ⟨e, he⟩ | ⟨s'', b', hb, hperm⟩
    · rw [he] at h
      cases h
    · rw [hb] at h
      cases h
      exact hperm
  take_error := by
    intro s i s' e _ h
    rcases htake s i with ⟨e, he⟩ | ⟨s'', b', hb, -⟩
    · rw [he] at h
      cases h
      rfl
    · rw [hb] at h
      cases h
  put := hput _ _
  inv_take := hinv_take _ _
  inv_put := hinv_put _ _

/-- The side condition on a run: every take meets `sound`. -/
def Sound (sound : σ → ι → Prop) (s : Lending σ β) : Action ι β → Prop
  | .take i => sound s.pool i
  | .put _ _ => True

/-- What the pool holds and what is out are what the pool held first. -/
def Balanced (p : Pool σ ι ε β κ) (start : σ) (s : Lending σ β) : Prop :=
  (s.out.map p.key ++ p.free s.pool).Perm (p.free start)

theorem Balanced.length {p : Pool σ ι ε β κ} {start : σ} {s : Lending σ β} (h : p.Balanced start s) :
    (p.free s.pool).length + s.out.length = (p.free start).length := by
  have := h.length_eq
  rw [List.length_append, List.length_map] at this
  omega

theorem Balanced.nodup {p : Pool σ ι ε β κ} {start : σ} {s : Lending σ β} (h : p.Balanced start s)
    (hstart : (p.free start).Nodup) : (s.out.map p.key).Nodup :=
  (List.nodup_append.mp (h.nodup_iff.mpr hstart)).1

/-- A refusal of this take leaves the pool as it was. -/
def Intact (p : Pool σ ι ε β κ) (s : σ) (i : ι) : Prop := ∀ s' e, p.take s i = (s', .error e) → s' = s

variable [DecidableEq κ]

/-- What is wanted of a pool: over every run of sound takes nothing is lost and nothing
is out twice, where the sound takes are those whose refusal changes nothing. -/
structure Conserves (p : Pool σ ι ε β κ) (start : σ) (sound : σ → ι → Prop) : Prop where
  count : ∀ s, (p.machine start).ReachableBy (Sound sound) s →
    (p.free s.pool).length + s.out.length = (p.free start).length
  once : ∀ s, (p.machine start).ReachableBy (Sound sound) s → (s.out.map p.key).Nodup
  sound_iff : ∀ s i, sound s i ↔ p.Intact s i

theorem Lawful.step {p : Pool σ ι ε β κ} {inv : σ → Prop} {sound : σ → ι → Prop} (hp : p.Lawful inv sound)
    {start : σ} {s s' : Lending σ β} {a : Action ι β} (h : p.Balanced start s ∧ inv s.pool)
    (ha : Sound sound s a) (hs : (p.machine start).step s a = some s') :
    p.Balanced start s' ∧ inv s'.pool := by
  obtain ⟨hbal, hinv⟩ := h
  cases a with
  | take i =>
    have hinv' := hp.inv_take (i := i) hinv
    simp only [machine] at hs
    split at hs
    · rename_i pool b htake
      obtain rfl := Option.some.inj hs
      rw [htake] at hinv'
      refine ⟨?_, hinv'⟩
      -- What was on top of the pool is on top of what is out.
      have hfree := hp.take_ok htake
      refine .trans ?_ (.trans (hfree.symm.append_left (s.out.map p.key)) hbal)
      exact List.perm_middle.symm
    · rename_i pool e htake
      obtain rfl := Option.some.inj hs
      obtain rfl := hp.take_error ha htake
      exact ⟨hbal, hinv⟩
  | put n b =>
    simp only [machine] at hs
    split at hs
    · rename_i taken htaken
      split at hs
      · rename_i hkey
        obtain rfl := Option.some.inj hs
        refine ⟨?_, hp.inv_put hinv⟩
        obtain ⟨hlt, rfl⟩ := List.getElem?_eq_some_iff.mp htaken
        have hout := (List.getElem_cons_eraseIdx_perm hlt).symm.map p.key
        rw [List.map_cons, ← hkey] at hout
        refine .trans ((hp.put hinv).append_left _) (.trans ?_ hbal)
        exact List.perm_middle.trans (hout.symm.append_right (p.free s.pool))
      · cases hs
    · cases hs

/-- Over every run of sound takes a lawful pool stays balanced. -/
theorem Lawful.balanced {p : Pool σ ι ε β κ} {inv : σ → Prop} {sound : σ → ι → Prop} (hp : p.Lawful inv sound)
    {start : σ} (hstart : inv start) {s : Lending σ β}
    (hr : (p.machine start).ReachableBy (Sound sound) s) : p.Balanced start s ∧ inv s.pool := by
  refine hr.invariant ?_ fun s a s' _ h ha hs => hp.step h ha hs
  rintro s rfl
  exact ⟨.refl _, hstart⟩

theorem Lawful.conserves {p : Pool σ ι ε β κ} {inv : σ → Prop} {sound : σ → ι → Prop}
    (hp : p.Lawful inv sound) {start : σ} (hstart : inv start) (hnodup : (p.free start).Nodup)
    (hsound : ∀ s i, p.Intact s i → sound s i) : p.Conserves start sound where
  count _ hr := (hp.balanced hstart hr).1.length
  once _ hr := (hp.balanced hstart hr).1.nodup hnodup
  sound_iff s i := ⟨fun hi _ _ htake => hp.take_error hi htake, hsound s i⟩

end Pool

end WinIoring.Machine
