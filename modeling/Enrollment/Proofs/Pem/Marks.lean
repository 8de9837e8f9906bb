import Enrollment.Codec.Pem

/-! # The search for a mark

Where a text is cut at a mark. The search gives up a match at the first character that does not go
on with it and begins anew after that character, so what stands before the mark is made up of broken
matches.
-/

namespace Enrollment.Pem

/-- A text in which the search for a mark gives up again and again, up to its end. -/
inductive Missed (mark : List Char) : List Char → Prop where
  | nil : Missed mark []
  | broken {front tail after : List Char} {due c : Char} (hMark : mark = front ++ due :: tail)
    (hc : c ≠ due) (h : Missed mark after) : Missed mark (front ++ c :: after)

variable {mark due seen cs before after later : List Char} {text : String}

/-- Two lists first differ in one place. -/
theorem append_cons_inj_of_ne {α : Type} {front front' rest rest' tail tail' : List α}
    {a a' b b' : α} (h : front ++ a :: rest = front' ++ a' :: rest')
    (hOther : front ++ b :: tail = front' ++ b' :: tail') (hne : a ≠ b) (hne' : a' ≠ b') :
    front = front' ∧ a = a' ∧ rest = rest' := by
  induction front generalizing front' with
  | nil =>
    cases front' with
    | nil =>
      cases h
      exact ⟨rfl, rfl, rfl⟩
    | cons x front' =>
      cases h
      cases hOther
      exact absurd rfl hne
  | cons x front ih =>
    cases front' with
    | nil =>
      cases h
      cases hOther
      exact absurd rfl hne'
    | cons y front' =>
      rw [List.cons_append, List.cons_append, List.cons.injEq] at h hOther
      obtain ⟨hFront, hRest⟩ := ih h.2 hOther.2
      exact ⟨by rw [h.1, hFront], hRest⟩

theorem Missed.eq_nil (h : Missed mark before) (hMark : mark ++ cs = before ++ mark ++ after) :
    before = [] := by
  cases h with
  | nil => rfl
  | @broken front tail rest due c hFront hc h =>
    rw [hFront] at hMark
    simp only [List.append_assoc, List.cons_append, List.append_cancel_left_eq,
      List.cons.injEq] at hMark
    exact absurd hMark.1.symm hc

/-- The search goes on from what it has seen of the mark as it would from the start. -/
theorem cut_eq_some_iff (hMark : mark = seen.reverse ++ due) :
    cut mark due seen cs = some (before, after) ↔
      seen.reverse ++ cs = before ++ mark ++ after ∧ Missed mark before := by
  fun_induction cut mark due seen cs generalizing before after with
  | case1 seen cs =>
    rw [List.append_nil] at hMark
    subst hMark
    constructor
    · intro h
      cases h
      exact ⟨rfl, .nil⟩
    · rintro ⟨hText, hBefore⟩
      obtain rfl := hBefore.eq_nil hText
      rw [List.append_cancel_left hText]
  | case2 d dues seen =>
    refine iff_of_false (by simp) ?_
    rintro ⟨hText, -⟩
    have hLength := congrArg List.length hText
    simp only [hMark, List.length_append, List.length_cons, List.length_nil] at hLength
    omega
  | case3 dues seen d cs ih =>
    have hStart : (d :: seen).reverse ++ cs = seen.reverse ++ d :: cs := by simp
    rw [← hStart]
    exact ih (by simp [hMark])
  | case4 d dues seen c cs hc ih =>
    constructor
    · intro h
      obtain ⟨⟨rest, after'⟩, hCut, hPair⟩ := Option.map_eq_some_iff.mp h
      cases hPair
      obtain ⟨rfl, hRest⟩ := (ih rfl).mp hCut
      exact ⟨by simp, .broken hMark hc hRest⟩
    · rintro ⟨hText, hBefore⟩
      cases hBefore with
      | nil =>
        rw [hMark] at hText
        simp only [List.nil_append, List.append_assoc, List.append_cancel_left_eq,
          List.cons_append, List.cons.injEq] at hText
        exact absurd hText.1 hc
      | @broken front tail rest due c' hFront hc' hRest =>
        simp only [List.append_assoc, List.cons_append] at hText
        obtain ⟨rfl, rfl, hCs⟩ := append_cons_inj_of_ne hText (hMark.symm.trans hFront) hc hc'
        exact Option.map_eq_some_iff.mpr ⟨(rest, after), (ih rfl).mpr ⟨by simp [hCs], hRest⟩, rfl⟩

theorem cutAt_eq_some_iff : cutAt text cs = some (before, after) ↔
    cs = before ++ text.toList ++ after ∧ Missed text.toList before :=
  cut_eq_some_iff rfl

/-- Where nothing begins like the mark there is nothing to find. -/
theorem missed_of_not_mem {c : Char} (h : c ∉ cs) : Missed (c :: mark) cs := by
  induction cs with
  | nil => exact .nil
  | cons d cs ih =>
    rw [List.mem_cons, not_or] at h
    have hBroken : c :: mark = [] ++ c :: mark := rfl
    exact .broken hBroken (Ne.symm h.1) (ih h.2)

/-- Whether what follows a text stands at the start of a line. -/
def EndsLine (cs : List Char) : Prop := ∀ c ∈ cs.getLast?, c = '\n'

theorem EndsLine.eq_nil (h : EndsLine cs) (hFeed : '\n' ∉ cs) : cs = [] := by
  cases hLast : cs.getLast? with
  | none => exact List.getLast?_eq_none_iff.mp hLast
  | some c => exact absurd (h c hLast ▸ List.mem_of_getLast? hLast) hFeed

theorem EndsLine.of_append {front back : List Char} (h : EndsLine (front ++ back)) :
    EndsLine back := by
  intro c hc
  refine h c ?_
  rw [List.getLast?_append, hc]
  rfl

/-- A mark at the start of a line is not missed: a line feed is no part of it, so the search has
begun anew there. -/
theorem Missed.length_le {front back : List Char} (h : Missed mark before) (hFeed : '\n' ∉ mark)
    (hText : before ++ after = front ++ back) (hLine : EndsLine front) (hMark : mark <+: back) :
    before.length ≤ front.length := by
  induction h generalizing front with
  | nil => exact Nat.zero_le _
  | @broken seen tail rest due c hSplit hc h ih =>
    subst hSplit
    rw [List.mem_append, not_or] at hFeed
    have hInside : ¬front <+: seen := by
      -- what is matched so far has no line end, so that only its start begins a line
      rintro ⟨later, rfl⟩
      rw [List.mem_append, not_or] at hFeed
      obtain rfl := hLine.eq_nil hFeed.1.1
      obtain ⟨last, rfl⟩ := hMark
      simp only [List.nil_append, List.append_assoc, List.cons_append, List.append_cancel_left_eq,
        List.cons.injEq] at hText
      exact hc hText.1
    rw [List.append_assoc, List.append_eq_append_iff] at hText
    rcases hText with ⟨_ | ⟨d, later⟩, rfl, hLater⟩ | ⟨later, rfl, -⟩
    · exact absurd ⟨[], List.append_nil _⟩ (List.append_nil seen ▸ hInside)
    · obtain ⟨rfl, hTail⟩ := List.cons.inj hLater
      have hLine : EndsLine ([c] ++ later) := hLine.of_append
      have hRest := ih hTail hLine.of_append
      simp only [List.length_append, List.length_cons]
      omega
    · exact absurd (List.prefix_append _ _) hInside

end Enrollment.Pem
