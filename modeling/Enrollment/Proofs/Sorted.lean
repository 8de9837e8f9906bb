/-! # Lists in the order of a key

A list in the order of a key is told by the elements of each key; sorting by a key leaves those in
the order they had.
-/

namespace Enrollment

variable {α : Type} (key : α → Int) {l m : List α}

theorem filter_key_cons_of_eq {a : α} (n : Int) (h : key a = n) :
    (a :: l).filter (fun b => key b = n) = a :: l.filter (fun b => key b = n) :=
  List.filter_cons_of_pos (by simpa using h)

theorem filter_key_cons_of_ne {a : α} {n : Int} (h : key a ≠ n) :
    (a :: l).filter (fun b => key b = n) = l.filter (fun b => key b = n) :=
  List.filter_cons_of_neg (by simpa using h)

theorem mem_of_filter_key_eq {a : α}
    (h : ∀ n, l.filter (fun b => key b = n) = m.filter (fun b => key b = n)) (ha : a ∈ l) :
    a ∈ m := by
  have hMem : a ∈ l.filter fun b => key b = key a := List.mem_filter.mpr ⟨ha, by simp⟩
  rw [h] at hMem
  exact (List.mem_filter.mp hMem).1

/-- Lists in order are equal when they have the same elements of each key, in the same order. -/
theorem eq_of_filter_key_eq (hl : l.Pairwise fun a b => key a ≤ key b)
    (hm : m.Pairwise fun a b => key a ≤ key b)
    (h : ∀ n, l.filter (fun b => key b = n) = m.filter (fun b => key b = n)) : l = m := by
  induction l generalizing m with
  | nil =>
    refine (List.eq_nil_iff_forall_not_mem.mpr fun a ha => ?_).symm
    exact absurd (mem_of_filter_key_eq key (fun n => (h n).symm) ha) List.not_mem_nil
  | cons a l ih =>
    cases m with
    | nil => exact absurd (mem_of_filter_key_eq key h List.mem_cons_self) List.not_mem_nil
    | cons b m =>
      obtain ⟨hFirst, hTail⟩ := List.pairwise_cons.mp hl
      obtain ⟨hOther, hOtherTail⟩ := List.pairwise_cons.mp hm
      have hKey : key b = key a := by
        -- each of the two heads occurs in the other list, whose head is least
        have hUp : key a ≤ key b := by
          rcases List.mem_cons.mp (mem_of_filter_key_eq key (fun n => (h n).symm) List.mem_cons_self)
            with rfl | hb
          · exact Int.le_refl _
          · exact hFirst b hb
        have hDown : key b ≤ key a := by
          rcases List.mem_cons.mp (mem_of_filter_key_eq key h List.mem_cons_self) with rfl | ha
          · exact Int.le_refl _
          · exact hOther a ha
        exact Int.le_antisymm hDown hUp
      have hHeads := h (key a)
      rw [filter_key_cons_of_eq key _ rfl, filter_key_cons_of_eq key _ hKey] at hHeads
      obtain ⟨rfl, hRest⟩ := List.cons.inj hHeads
      refine congrArg (a :: ·) (ih hTail hOtherTail fun n => ?_)
      by_cases hn : key a = n
      · rw [← hn, hRest]
      · have hTails := h n
        rwa [filter_key_cons_of_ne key hn, filter_key_cons_of_ne key hn] at hTails

def byKey (a b : α) : Bool := key a ≤ key b

theorem byKey_trans (a b c : α) (hFirst : byKey key a b = true) (hSecond : byKey key b c = true) :
    byKey key a c = true := by
  simp only [byKey, decide_eq_true_eq] at hFirst hSecond ⊢
  omega

theorem byKey_total (a b : α) : (byKey key a b || byKey key b a) = true := by
  simp only [byKey, Bool.or_eq_true, decide_eq_true_eq]
  omega

theorem pairwise_mergeSort_byKey (l : List α) :
    (l.mergeSort (byKey key)).Pairwise fun a b => key a ≤ key b :=
  (List.pairwise_mergeSort (byKey_trans key) (byKey_total key) l).imp of_decide_eq_true

/-- Sorting by a key leaves elements of one key in their order. -/
theorem filter_key_mergeSort (n : Int) : (l.mergeSort (byKey key)).filter (fun b => key b = n) =
    l.filter (fun b => key b = n) := by
  have hEqual : (l.filter fun b => key b = n).Pairwise fun a b => byKey key a b = true := by
    refine List.pairwise_of_forall_mem_list fun a ha b hb => ?_
    have hFirst := of_decide_eq_true (List.mem_filter.mp ha).2
    have hSecond := of_decide_eq_true (List.mem_filter.mp hb).2
    simp only [byKey, decide_eq_true_eq]
    omega
  have hSub : List.Sublist (l.filter fun b => key b = n) (l.mergeSort (byKey key)) :=
    List.sublist_mergeSort (byKey_trans key) (byKey_total key) hEqual List.filter_sublist
  have hKept := hSub.filter fun b => key b = n
  rw [List.filter_filter] at hKept
  simp only [Bool.and_self] at hKept
  have hPerm := (List.mergeSort_perm l (byKey key)).filter fun b => key b = n
  exact (hKept.eq_of_length hPerm.length_eq.symm).symm

theorem filter_key_filter_le {n last : Int} (h : n ≤ last) :
    (l.filter fun b => key b ≤ last).filter (fun b => key b = n) =
      l.filter (fun b => key b = n) := by
  have hBoth (b : α) : (decide (key b = n) && decide (key b ≤ last)) = decide (key b = n) := by
    rw [← Bool.decide_and, decide_eq_decide]
    omega
  rw [List.filter_filter]
  simp only [hBoth]

theorem count_filter_le [DecidableEq α] (last : Int) (a : α) :
    (l.filter fun b => key b ≤ last).count a = if key a ≤ last then l.count a else 0 := by
  split
  · next hDue => exact List.count_filter (by simpa using hDue)
  · next hLate =>
    refine List.count_eq_zero.mpr fun hMem => ?_
    exact hLate (of_decide_eq_true (List.mem_filter.mp hMem).2)

/-- Of a list in order, what has a key up to a bound stands at the start. -/
theorem filter_key_prefix (hl : l.Pairwise fun a b => key a ≤ key b) (n : Int) :
    l.filter (fun b => key b ≤ n) <+: l := by
  induction l with
  | nil => exact List.nil_prefix
  | cons a l ih =>
    obtain ⟨hFirst, hl⟩ := List.pairwise_cons.mp hl
    by_cases ha : key a ≤ n
    · rw [List.filter_cons_of_pos (by simpa using ha)]
      exact List.cons_prefix_cons.mpr ⟨rfl, ih hl⟩
    · have hNone : (a :: l).filter (fun b => key b ≤ n) = [] := by
        refine List.filter_eq_nil_iff.mpr fun b hb => ?_
        rw [decide_eq_true_eq]
        rcases List.mem_cons.mp hb with rfl | hb
        · exact ha
        · have hLater := hFirst b hb
          omega
      rw [hNone]
      exact List.nil_prefix

end Enrollment
