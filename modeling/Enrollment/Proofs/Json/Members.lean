import Enrollment.Json.Value

/-! # Members in the order of their names

Members that are put into their places one after the other stand in the order of their names. Two
that have different names may be put there in either order.
-/

namespace Enrollment.Json.Value

variable {α : Type} {name : String} {a : α} {member : String × α}
  {members sorted more : List (String × α)}

/-- Members in the order of their names, each name once. -/
def InOrder (members : List (String × α)) : Prop := members.Pairwise fun a b => a.1 < b.1

/-- Puts members into their places one after the other. -/
def insertAll (members sorted : List (String × α)) : List (String × α) :=
  members.foldl (fun sorted member => insert member.1 member.2 sorted) sorted

theorem mem_of_mem_insert (h : member ∈ insert name a members) :
    member = (name, a) ∨ member ∈ members := by
  induction members with
  | nil => exact .inl (List.mem_singleton.mp h)
  | cons first members ih =>
    obtain ⟨other, b⟩ := first
    rw [insert] at h
    split at h
    · exact List.mem_cons.mp h
    split at h
    · exact (List.mem_cons.mp h).imp_right (List.mem_cons_of_mem _)
    · rcases List.mem_cons.mp h with hFirst | hLater
      · exact .inr (hFirst ▸ List.mem_cons_self)
      · exact (ih hLater).imp_right (List.mem_cons_of_mem _)

theorem InOrder.insert (h : InOrder members) : InOrder (insert name a members) := by
  induction members with
  | nil => exact List.pairwise_singleton _ _
  | cons first members ih =>
    obtain ⟨other, b⟩ := first
    obtain ⟨hFirst, hRest⟩ := List.pairwise_cons.mp h
    rw [Value.insert]
    split
    · next hBefore =>
      refine List.pairwise_cons.mpr ⟨fun later hLater => ?_, h⟩
      rcases List.mem_cons.mp hLater with rfl | hLater
      · exact hBefore
      · exact String.lt_trans hBefore (hFirst later hLater)
    split
    · next hSame =>
      subst hSame
      exact List.pairwise_cons.mpr ⟨hFirst, hRest⟩
    · next hBefore hSame =>
      refine List.pairwise_cons.mpr ⟨fun later hLater => ?_, ih hRest⟩
      rcases mem_of_mem_insert hLater with rfl | hLater
      · exact Std.lt_of_le_of_ne (String.not_lt.mp hBefore) (Ne.symm hSame)
      · exact hFirst later hLater

theorem insert_comm {other : String} {b : α} (h : name ≠ other) (members : List (String × α)) :
    insert name a (insert other b members) = insert other b (insert name a members) := by
  induction members with
  | nil => grind [insert]
  | cons first members ih => grind [insert]

/-- What comes after all others stays at the end. -/
theorem insert_of_forall_lt (h : ∀ member ∈ members, member.1 < name) :
    insert name a members = members ++ [(name, a)] := by
  induction members with
  | nil => rfl
  | cons first members ih =>
    obtain ⟨other, b⟩ := first
    obtain ⟨hFirst, hRest⟩ := List.forall_mem_cons.mp h
    rw [insert, if_neg (String.lt_asymm hFirst), if_neg (Std.ne_of_lt hFirst).symm, ih hRest]
    rfl

theorem perm_insert (h : ∀ member ∈ members, member.1 ≠ name) :
    (insert name a members).Perm ((name, a) :: members) := by
  induction members with
  | nil => exact .refl _
  | cons first members ih =>
    obtain ⟨other, b⟩ := first
    obtain ⟨hFirst, hRest⟩ := List.forall_mem_cons.mp h
    rw [insert]
    split
    · exact .refl _
    · rw [if_neg hFirst.symm]
      exact ((ih hRest).cons _).trans (.swap _ _ _)

theorem InOrder.insertAll (h : InOrder sorted) : InOrder (insertAll members sorted) := by
  induction members generalizing sorted with
  | nil => exact h
  | cons member members ih => exact ih h.insert

theorem mem_of_mem_insertAll (h : member ∈ insertAll members sorted) :
    member ∈ members ∨ member ∈ sorted := by
  induction members generalizing sorted with
  | nil => exact .inr h
  | cons first members ih =>
    rcases ih h with hLater | hSorted
    · exact .inl (List.mem_cons_of_mem _ hLater)
    · rcases mem_of_mem_insert hSorted with rfl | hSorted
      · exact .inl List.mem_cons_self
      · exact .inr hSorted

theorem insertAll_of_inOrder (h : InOrder (sorted ++ members)) :
    Value.insertAll members sorted = sorted ++ members := by
  induction members generalizing sorted with
  | nil => exact (List.append_nil sorted).symm
  | cons member members ih =>
    have hLast : ∀ other ∈ sorted, other.1 < member.1 := fun other hOther =>
      (List.pairwise_append.mp h).2.2 other hOther member List.mem_cons_self
    have hInsert : Value.insert member.1 member.2 sorted = sorted ++ [member] :=
      insert_of_forall_lt hLast
    rw [List.append_cons] at h
    rw [Value.insertAll, List.foldl_cons, hInsert]
    exact (ih h).trans (List.append_cons _ _ _).symm

theorem inOrder_insertAll_nil (members : List (String × α)) : InOrder (insertAll members []) :=
  InOrder.insertAll List.Pairwise.nil

end Enrollment.Json.Value
