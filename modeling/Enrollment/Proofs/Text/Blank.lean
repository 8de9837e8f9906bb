import Mathlib.Data.List.DropRight
import Enrollment.Text.Blank

/-! # Trimming

What has been trimmed has nothing left to trim, and a start that was put before a text is stripped
off it.
-/

namespace Enrollment.Text

variable (p : Char → Bool) (cs : List Char)

theorem trimEndBy_eq : trimEndBy p cs = cs.rdropWhile p := rfl

/-- Trimming at the end leaves the front as it is. -/
theorem dropWhile_rdropWhile (h : cs.dropWhile p = cs) :
    (cs.rdropWhile p).dropWhile p = cs.rdropWhile p := by
  rw [List.dropWhile_eq_self_iff] at h ⊢
  intro hLength
  have hPrefix : cs.rdropWhile p <+: cs := List.rdropWhile_prefix p cs
  have hFirst := hPrefix.getElem hLength
  rw [hFirst]
  exact h (Nat.lt_of_lt_of_le hLength hPrefix.length_le)

theorem trimBy_trimBy : trimBy p (trimBy p cs) = trimBy p cs := by
  rw [trimBy, trimBy, trimEndBy_eq, trimEndBy_eq,
    dropWhile_rdropWhile p _ (List.dropWhile_idempotent p cs), List.rdropWhile_idempotent]

@[simp] theorem trim_trim (s : String) : trim (trim s) = trim s := by
  rw [trim, trim, String.toList_ofList, trimBy_trimBy]

section

variable {p : Char → Bool} {cs front back : List Char}

theorem trimEndBy_eq_self (h : ∀ c ∈ cs.getLast?, p c = false) : trimEndBy p cs = cs := by
  rw [trimEndBy_eq, List.rdropWhile_eq_self_iff]
  intro hCs
  rw [h _ (List.getLast_mem_getLast? hCs)]
  exact Bool.false_ne_true

theorem trimEndBy_append (front : List Char) (hBack : back ≠ [])
    (h : ∀ c ∈ back, p c = false) : trimEndBy p (front ++ back) = front ++ back := by
  refine trimEndBy_eq_self fun c hc => ?_
  rw [List.getLast?_append_of_ne_nil front hBack] at hc
  exact h c (List.mem_of_mem_getLast? hc)

theorem trimEndBy_append_all (h : ∀ c ∈ back, p c = true) :
    trimEndBy p (cs ++ back) = trimEndBy p cs := by
  rw [trimEndBy, List.reverse_append, List.dropWhile_append_of_pos (by simpa using h), trimEndBy]

theorem trimBy_eq_self (hFirst : ∀ c ∈ cs.head?, p c = false)
    (hLast : ∀ c ∈ cs.getLast?, p c = false) : trimBy p cs = cs := by
  have hFront : cs.dropWhile p = cs := by
    cases cs with
    | nil => rfl
    | cons c cs => rw [List.dropWhile_cons_of_neg (by simp [hFirst c rfl])]
  rw [trimBy, hFront, trimEndBy_eq_self hLast]

theorem trim_eq_self {s : String} (h : ∀ c ∈ s.toList, isBlank c = false) : trim s = s := by
  rw [trim, trimBy_eq_self, String.ofList_toList]
  · intro c hc
    exact h c (List.mem_of_mem_head? hc)
  · intro c hc
    exact h c (List.mem_of_mem_getLast? hc)

theorem trimBy_append_all (hFront : ∀ c ∈ front, p c = true) (hBack : ∀ c ∈ back, p c = true) :
    trimBy p (front ++ cs ++ back) = trimBy p cs := by
  rw [trimBy, List.append_assoc, List.dropWhile_append_of_pos hFront, List.dropWhile_append, trimBy]
  split
  · next hEmpty =>
    rw [List.isEmpty_iff.mp hEmpty, ← List.nil_append (back.dropWhile p)]
    exact trimEndBy_append_all fun c hc => hBack c ((List.dropWhile_sublist p).subset hc)
  · exact trimEndBy_append_all hBack

/-- What is trimmed at the end, and what is left. -/
theorem exists_trimEndBy (p : Char → Bool) (cs : List Char) : ∃ back, cs = trimEndBy p cs ++ back ∧
    (∀ c ∈ back, p c = true) ∧ ∀ c ∈ (trimEndBy p cs).getLast?, p c = false := by
  refine ⟨(cs.reverse.takeWhile p).reverse, ?_, ?_, ?_⟩
  · rw [trimEndBy, ← List.reverse_append, List.takeWhile_append_dropWhile, List.reverse_reverse]
  · intro c hc
    exact List.mem_takeWhile_imp (List.mem_reverse.mp hc)
  · intro c hc
    rw [trimEndBy, List.getLast?_reverse] at hc
    have hNot := List.head?_dropWhile_not p cs.reverse
    rwa [hc] at hNot

theorem exists_trimBy (p : Char → Bool) (cs : List Char) : ∃ front back,
    cs = front ++ trimBy p cs ++ back ∧ (∀ c ∈ front, p c = true) ∧ (∀ c ∈ back, p c = true) ∧
      (∀ c ∈ (trimBy p cs).head?, p c = false) ∧ ∀ c ∈ (trimBy p cs).getLast?, p c = false := by
  obtain ⟨back, hBack, hAll, hLast⟩ := exists_trimEndBy p (cs.dropWhile p)
  refine ⟨cs.takeWhile p, back, ?_, fun c hc => List.mem_takeWhile_imp hc, hAll, ?_, hLast⟩
  · rw [trimBy, List.append_assoc, ← hBack, List.takeWhile_append_dropWhile]
  · intro c hc
    have hNot := List.head?_dropWhile_not p cs
    have hHead : (cs.dropWhile p).head? = some c := by
      rw [hBack, List.head?_append_of_ne_nil]
      · exact hc
      · intro hNil
        rw [trimBy, hNil] at hc
        cases hc
    rwa [hHead] at hNot

theorem trimEndBy_map {f : Char → Char} (h : ∀ c, p (f c) = p c) :
    trimEndBy p (cs.map f) = (trimEndBy p cs).map f := by
  have hPred : p ∘ f = p := funext h
  rw [trimEndBy, ← List.map_reverse, List.dropWhile_map, hPred, ← List.map_reverse, trimEndBy]

theorem trimBy_map {f : Char → Char} (h : ∀ c, p (f c) = p c) :
    trimBy p (cs.map f) = (trimBy p cs).map f := by
  have hPred : p ∘ f = p := funext h
  rw [trimBy, List.dropWhile_map, hPred, trimEndBy_map h, trimBy]

end

theorem stripStart?_eq_some_iff {start s rest : String} :
    stripStart? start s = some rest ↔ s = start ++ rest := by
  unfold stripStart? startsWith
  constructor
  · intro h
    split at h
    · next hStart =>
      obtain ⟨tail, hTail⟩ := List.isPrefixOf_iff_prefix.mp hStart
      cases h
      rw [← String.toList_inj, String.toList_append, String.toList_ofList, ← hTail, List.drop_left]
    · cases h
  · rintro rfl
    rw [String.toList_append, if_pos (List.isPrefixOf_iff_prefix.mpr (List.prefix_append _ _)),
      List.drop_left, String.ofList_toList]

end Enrollment.Text
