/-! # Keyed collections

A collection of things, one for each key that it has.
-/

namespace Enrollment

structure Keyed (κ α : Type) where
  entries : List (κ × α)
  keys_nodup : (entries.map Prod.fst).Nodup
  deriving DecidableEq, Repr

namespace Keyed

variable {κ α : Type} [DecidableEq κ]

omit [DecidableEq κ] in
theorem nodup_filter {entries : List (κ × α)} (h : (entries.map Prod.fst).Nodup)
    (p : κ × α → Bool) : ((entries.filter p).map Prod.fst).Nodup :=
  h.sublist (List.filter_sublist.map _)

def empty : Keyed κ α := ⟨[], .nil⟩

def size (m : Keyed κ α) : Nat := m.entries.length

def keys (m : Keyed κ α) : List κ := m.entries.map Prod.fst

def get? (m : Keyed κ α) (k : κ) : Option α := (m.entries.find? (·.1 = k)).map Prod.snd

def contains (m : Keyed κ α) (k : κ) : Bool := (m.get? k).isSome

def erase (m : Keyed κ α) (k : κ) : Keyed κ α :=
  ⟨m.entries.filter (·.1 ≠ k), nodup_filter m.keys_nodup _⟩

/-- Adds a thing in the place of what was there for the key. -/
def put (m : Keyed κ α) (k : κ) (a : α) : Keyed κ α where
  entries := (k, a) :: (m.erase k).entries
  keys_nodup := by
    refine List.nodup_cons.mpr ⟨?_, (m.erase k).keys_nodup⟩
    simp [erase]

def ofList (entries : List (κ × α)) : Keyed κ α :=
  entries.foldl (fun m entry => m.put entry.1 entry.2) empty

@[simp] theorem get?_empty (k : κ) : (empty : Keyed κ α).get? k = none := rfl

@[simp] theorem get?_put_self (m : Keyed κ α) (k : κ) (a : α) : (m.put k a).get? k = some a := by
  simp [get?, put]

@[simp] theorem get?_erase_self (m : Keyed κ α) (k : κ) : (m.erase k).get? k = none := by
  simp [get?, erase]

theorem get?_erase_of_ne (m : Keyed κ α) {j k : κ} (h : j ≠ k) :
    (m.erase k).get? j = m.get? j := by
  simp only [get?, erase, List.find?_filter]
  congr 2
  funext entry
  by_cases e : entry.1 = j <;> simp [e, h]

theorem get?_put_of_ne (m : Keyed κ α) {j k : κ} (a : α) (h : j ≠ k) :
    (m.put k a).get? j = m.get? j := by
  rw [← get?_erase_of_ne m h]
  simp [get?, put, Ne.symm h]

theorem mem_keys_iff (m : Keyed κ α) (k : κ) : k ∈ m.keys ↔ ∃ a, m.get? k = some a := by
  simp only [keys, get?, List.mem_map, Option.map_eq_some_iff]
  constructor
  · rintro ⟨entry, hMem, rfl⟩
    have hFound : (m.entries.find? (·.1 = entry.1)).isSome := by
      rw [List.find?_isSome]
      exact ⟨entry, hMem, decide_eq_true rfl⟩
    obtain ⟨found, hFound⟩ := Option.isSome_iff_exists.mp hFound
    exact ⟨found.2, found, hFound, rfl⟩
  · rintro ⟨a, entry, hFound, -⟩
    exact ⟨entry, List.mem_of_find?_eq_some hFound, by simpa using List.find?_some hFound⟩

theorem keys_put (m : Keyed κ α) {k : κ} (a : α) (h : k ∉ m.keys) :
    (m.put k a).keys = k :: m.keys := by
  have hErased : m.entries.filter (·.1 ≠ k) = m.entries := by
    refine List.filter_eq_self.mpr fun entry hMem => decide_eq_true ?_
    rintro rfl
    exact h (List.mem_map_of_mem hMem)
  simp only [keys, put, erase, hErased, List.map_cons]

end Keyed

end Enrollment
