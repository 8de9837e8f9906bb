/-! # Looking entries up

What is at a place of a list that one entry was changed in or put at the end of.
-/

namespace Enrollment

theorem getElem?_set_cases {α : Type} {entries : List α} {i j : Nat} {c c' d : α}
    (found : entries[i]? = some c) (h : (entries.set i c')[j]? = some d) :
    j = i ∧ d = c' ∨ j ≠ i ∧ entries[j]? = some d := by
  by_cases hij : i = j
  · subst hij
    have hlt : i < entries.length := (List.getElem?_eq_some_iff.mp found).1
    rw [List.getElem?_set_self hlt] at h
    exact .inl ⟨rfl, (Option.some.inj h).symm⟩
  · rw [List.getElem?_set_ne hij] at h
    exact .inr ⟨Ne.symm hij, h⟩

theorem getElem?_set_of_found {α : Type} {entries : List α} {i : Nat} {c : α}
    (found : entries[i]? = some c) (c' : α) : (entries.set i c')[i]? = some c' :=
  List.getElem?_set_self (List.getElem?_eq_some_iff.mp found).1

theorem getElem?_append_of_some {α : Type} {front : List α} {i : Nat} {a : α} (back : List α)
    (h : front[i]? = some a) : (front ++ back)[i]? = some a :=
  (List.getElem?_append_left (List.getElem?_eq_some_iff.mp h).1).trans h

theorem getElem?_concat_cases {α : Type} {front : List α} {i : Nat} {last a : α}
    (h : (front ++ [last])[i]? = some a) : a = last ∨ front[i]? = some a := by
  by_cases hi : i < front.length
  · rw [List.getElem?_append_left hi] at h
    exact .inr h
  · rw [List.getElem?_append_right (Nat.le_of_not_lt hi), List.getElem?_singleton] at h
    split at h
    · exact .inl (Option.some.inj h).symm
    · cases h

end Enrollment
