import Mathlib.Data.List.Nodup
import Enrollment.Proofs.Nonce.Form

/-! # Pools of nonces

What the operations on a pool do to the nonces in it. A pool is kept well: it holds no more than it
has room for, no value twice, and only what is read as a nonce.
-/

namespace Enrollment

namespace ReplayNonce

variable {nonce : ReplayNonce} {headers : Http.Headers}

theorem parse_of_ofHeaders (h : ofHeaders headers = .ok (some nonce)) :
    ∃ text, parse text = .ok nonce := by
  unfold ofHeaders at h
  split at h
  · cases h
  · split at h
    · cases h
    · next text _ =>
      cases hParse : parse text with
      | error e =>
        rw [hParse] at h
        cases h
      | ok parsed =>
        rw [hParse] at h
        cases h
        exact ⟨text, hParse⟩

end ReplayNonce

namespace NoncePool

variable {pool rest : NoncePool} {nonce : ReplayNonce}

theorem take?_of_nil (h : pool.nonces = []) : pool.take? = none := by rw [take?, h]

theorem take?_of_cons {others : List ReplayNonce} (h : pool.nonces = nonce :: others) :
    pool.take? = some (nonce, { pool with nonces := others }) := by rw [take?, h]

theorem take?_eq_some_iff : pool.take? = some (nonce, rest) ↔
    pool.nonces = nonce :: rest.nonces ∧ rest.capacity = pool.capacity := by
  obtain ⟨capacity, nonces⟩ := pool
  obtain ⟨capacity', nonces'⟩ := rest
  cases nonces with
  | nil => simp [take?]
  | cons first others =>
    simp only [take?, Option.some.injEq, Prod.mk.injEq, mk.injEq, List.cons.injEq]
    grind

theorem put_of_mem (h : nonce ∈ pool.nonces) : pool.put nonce = pool := if_pos h

theorem put_of_room (h : nonce ∉ pool.nonces) (hRoom : pool.size < pool.capacity) :
    pool.put nonce = { pool with nonces := pool.nonces ++ [nonce] } := by
  rw [put, if_neg h, if_neg (Nat.ne_of_lt hRoom)]

theorem put_of_full (h : nonce ∉ pool.nonces) (hFull : pool.size = pool.capacity) :
    pool.put nonce = { pool with nonces := pool.nonces.tail ++ [nonce] } := by
  rw [put, if_neg h, if_pos hFull, List.drop_one]

/-- A pool as it should be. -/
structure WellKept (capacity : Nat) (pool : NoncePool) : Prop where
  capacity_eq : pool.capacity = capacity
  size_le : pool.size ≤ capacity
  nodup : pool.nonces.Nodup
  accepted : ∀ nonce ∈ pool.nonces, ReplayNonce.parse nonce.text = .ok nonce

namespace WellKept

variable {capacity : Nat}

theorem new (h : withCapacity capacity = .ok pool) : WellKept capacity pool := by
  unfold withCapacity at h
  split at h
  · cases h
  · cases h
    exact ⟨rfl, Nat.zero_le _, List.nodup_nil, fun _ hMem => absurd hMem List.not_mem_nil⟩

theorem take (h : WellKept capacity pool) (hTake : pool.take? = some (nonce, rest)) :
    WellKept capacity rest := by
  obtain ⟨hNonces, hCapacity⟩ := take?_eq_some_iff.mp hTake
  have hSize : pool.size = rest.size + 1 := congrArg List.length hNonces
  have hNodup := h.nodup
  rw [hNonces] at hNodup
  refine ⟨hCapacity.trans h.capacity_eq, ?_, hNodup.of_cons, fun other hMem => ?_⟩
  · have hLe := h.size_le
    omega
  · exact h.accepted other (hNonces ▸ List.mem_cons_of_mem nonce hMem)

/-- A new nonce goes behind those that are kept. -/
theorem append (h : WellKept capacity pool) {kept : List ReplayNonce}
    (hKept : kept.Sublist pool.nonces) (hRoom : kept.length < capacity)
    (hNew : nonce ∉ pool.nonces) (hNonce : ReplayNonce.parse nonce.text = .ok nonce) :
    WellKept capacity { pool with nonces := kept ++ [nonce] } where
  capacity_eq := h.capacity_eq
  size_le := by
    rw [size, List.length_append, List.length_singleton]
    exact hRoom
  nodup := by
    rw [← List.concat_eq_append]
    exact (h.nodup.sublist hKept).concat fun hMem => hNew (hKept.subset hMem)
  accepted other hMem := by
    rcases List.mem_append.mp hMem with hOld | hLast
    · exact h.accepted other (hKept.subset hOld)
    · exact List.mem_singleton.mp hLast ▸ hNonce

theorem put (h : WellKept capacity pool) (hPos : 0 < capacity)
    (hNonce : ReplayNonce.parse nonce.text = .ok nonce) :
    WellKept capacity (pool.put nonce) := by
  have hLe := h.size_le
  have hCapacity := h.capacity_eq
  by_cases hMem : nonce ∈ pool.nonces
  · rwa [put_of_mem hMem]
  by_cases hFull : pool.size = pool.capacity
  · rw [put_of_full hMem hFull]
    refine h.append (List.tail_sublist _) ?_ hMem hNonce
    rw [List.length_tail, ← size]
    omega
  · rw [put_of_room hMem (by omega)]
    exact h.append (.refl _) (by rw [← size]; omega) hMem hNonce

end WellKept

end NoncePool

end Enrollment
