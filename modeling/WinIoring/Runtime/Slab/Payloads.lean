import WinIoring.Runtime.Slab.Tracked

/-!
# The payloads in the slab

The live payloads as one list, in no order that matters: each operation of the
slab adds one, removes one, or leaves them all.
-/

namespace WinIoring.Slab.OpSlab

variable {ws : WordSize} {α : Type u} {s s' : OpSlab ws α} {t : Token ws} {p : α}

/-- The tokens of the live slots. -/
def live (s : OpSlab ws α) : List (Token ws) := s.tokensWhere fun _ => true

def payloads (s : OpSlab ws α) : List α := s.live.filterMap s.payload

theorem drain_eq_payloads (s : OpSlab ws α) : s.drain.2 = s.payloads := s.drain_payloads

theorem payload_eq_payloadAt (s : OpSlab ws α) (t : Token ws) : s.payload t = s.payloadAt t.key := by
  refine Option.ext fun p => ?_
  exact payload_eq_some.trans payloadAt_eq_some.symm

theorem live_nodup (s : OpSlab ws α) : s.live.Nodup := s.tokensWhere_nodup _

theorem mem_live : t ∈ s.live ↔ t.kind = .operation ∧ (s.payloadAt t.key).isSome := by
  rw [live, mem_tokensWhere, Option.isSome_iff_exists]
  refine and_congr_right fun _ => ⟨?_, ?_⟩
  · rintro ⟨op, hop, -⟩
    exact ⟨_, payloadAt_of_cell hop⟩
  · rintro ⟨p, hp⟩
    obtain ⟨op, hop, -⟩ := payloadAt_eq_some.mp hp
    exact ⟨op, hop, rfl⟩

theorem mem_payloads : p ∈ s.payloads ↔ ∃ k, s.payloadAt k = some p := by
  simp only [payloads, List.mem_filterMap, payload_eq_payloadAt]
  constructor
  · rintro ⟨t, -, hp⟩
    exact ⟨t.key, hp⟩
  · rintro ⟨k, hp⟩
    obtain ⟨op, hop, -⟩ := payloadAt_eq_some.mp hp
    obtain ⟨t, hkind, rfl⟩ := exists_token hop
    exact ⟨t, mem_live.mpr ⟨hkind, by rw [hp]; rfl⟩, hp⟩

theorem payloads_new : (new : OpSlab ws α).payloads = [] := rfl

theorem payloadAt_congr (h : s'.cell = s.cell) : s'.payloadAt = s.payloadAt := by
  funext k
  rw [payloadAt, payloadAt, h]

/-- A slab with the same payloads in the same slots. -/
theorem payloads_same (h : s'.payloadAt = s.payloadAt) : s'.payloads.Perm s.payloads := by
  have hlive : s'.live.Perm s.live := by
    refine (List.perm_ext_iff_of_nodup s'.live_nodup s.live_nodup).mpr fun u => ?_
    exact mem_live.trans ((by rw [h] : _ ↔ _).trans mem_live.symm)
  have hpayload : s'.payload = s.payload := by
    funext u
    rw [payload_eq_payloadAt, payload_eq_payloadAt, h]
  rw [payloads, payloads, hpayload]
  exact hlive.filterMap _

/-- A slab with one more payload. -/
theorem payloads_insert (hkind : t.kind = .operation) (hvacant : s.payloadAt t.key = none)
    (h : s'.payloadAt = Function.update s.payloadAt t.key (some p)) :
    s'.payloads.Perm (p :: s.payloads) := by
  have hnot : t ∉ s.live := by simp [mem_live, hvacant]
  have hlive : s'.live.Perm (t :: s.live) := by
    refine (List.perm_ext_iff_of_nodup s'.live_nodup
      (List.nodup_cons.mpr ⟨hnot, s.live_nodup⟩)).mpr fun u => ?_
    refine mem_live.trans ?_
    rw [List.mem_cons, mem_live, h]
    by_cases hut : u = t
    · subst hut
      simp [hkind]
    · rw [or_iff_right hut]
      refine and_congr_right fun hu => ?_
      rw [Function.update_of_ne fun hkey => hut (Token.ext_key (hu.trans hkind.symm) hkey)]
  have hself : s'.payload t = some p := by rw [payload_eq_payloadAt, h, Function.update_self]
  have hothers : s.live.filterMap s'.payload = s.live.filterMap s.payload := by
    refine List.filterMap_congr fun u hu => ?_
    obtain ⟨huk, -⟩ := mem_live.mp hu
    rw [payload_eq_payloadAt, payload_eq_payloadAt, h, Function.update_of_ne]
    intro hkey
    obtain rfl := Token.ext_key (huk.trans hkind.symm) hkey
    exact hnot hu
  have hperm := hlive.filterMap s'.payload
  rw [List.filterMap_cons_some hself, hothers] at hperm
  exact hperm

/-- A slab with one payload fewer. -/
theorem payloads_remove (hkind : t.kind = .operation) (hp : s.payloadAt t.key = some p)
    (h : s'.payloadAt = Function.update s.payloadAt t.key none) :
    s.payloads.Perm (p :: s'.payloads) := by
  refine payloads_insert hkind (by rw [h, Function.update_self]) ?_
  rw [h, Function.update_idem, ← hp, Function.update_eq_self]

theorem payloads_drain (s : OpSlab ws α) : s.drain.1.payloads = [] := by
  refine List.eq_nil_iff_forall_not_mem.mpr fun p hp => ?_
  obtain ⟨k, hk⟩ := mem_payloads.mp hp
  rw [payloadAt_drain] at hk
  cases hk

end WinIoring.Slab.OpSlab
