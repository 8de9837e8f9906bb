import Enrollment.Proofs.Pem.Blocks

/-! # Text after the blocks

What is put after a text is read on its own if what was left of the text and it hold no whole block
together. A block that is cut off holds none, so it is passed over and nothing tells of it.
-/

namespace Enrollment.Pem

variable {cs start rest last later gap kept missing : List Char} {frame : Frame}
  {found : List (List Char × Pem)} {pems : List Pem}

/-- A block still stands when its text goes on; it takes the blanks that follow it. -/
theorem Stands.append {after : List Char} (h : Stands start frame rest)
    (hText : rest ++ later = gap ++ after) (hGap : AllBlank gap) (hAfter : Unindented after) :
    Stands (start ++ later) frame after := by
  cases h with
  | @intro opening lead payload headers data closing trail _ hOpening hLead hStart hPayload hParts
      hClosing hTrail hRest =>
    have hBlank : AllBlank (trail ++ gap) := by
      intro c hc
      exact (List.mem_append.mp hc).elim (hTrail c) (hGap c)
    have hStands :=
      Stands.intro hOpening hLead hStart hPayload hParts hClosing hBlank hAfter
    simpa only [List.append_assoc, hText] using hStands

/-- The search for a block passes over blanks. -/
theorem nextFrame_blanks (hGap : AllBlank gap) (cs : List Char) :
    nextFrame (gap ++ cs) = nextFrame cs := by
  induction gap with
  | nil => rfl
  | cons c gap ih =>
    obtain ⟨hBlank, hGap⟩ := List.forall_mem_cons.mp hGap
    have hc : c ≠ '-' := by
      rintro rfl
      cases hBlank
    have hCut : cutAt "-----BEGIN " (c :: (gap ++ cs)) =
        (cutAt "-----BEGIN " (gap ++ cs)).map fun found => (c :: found.1, found.2) :=
      if_neg hc
    rw [← ih hGap, List.cons_append, nextFrame, nextFrame, hCut]
    cases cutAt "-----BEGIN " (gap ++ cs) <;> rfl

theorem parseAllFrom_congr {other : List Char} (h : nextFrame cs = nextFrame other) :
    parseAllFrom cs = parseAllFrom other := by
  cases hOther : nextFrame other with
  | none => rw [parseAllFrom_of_none (h.trans hOther), parseAllFrom_of_none hOther]
  | some found => rw [parseAllFrom_of_some (h.trans hOther), parseAllFrom_of_some hOther]

/-- With nothing whole in what is left and what follows, the blocks stay the same. -/
theorem Reads.append (h : Reads cs found last) (hNone : ¬HasBlock (last ++ later)) :
    Blocks (cs ++ later) (found.map Prod.snd) := by
  induction h with
  | done cs => exact ⟨[], _, .done _, hNone, rfl⟩
  | @block before start rest last frame pem found hBefore stands carries _ ih =>
    obtain ⟨gap, hText, hGap, hAfter⟩ := exists_gap (rest ++ later)
    have hRest : Blocks ((rest ++ later).dropWhile isFramingBlank) (found.map Prod.snd) := by
      rw [← parseAllFrom_eq_ok_iff, ← parseAllFrom_congr (nextFrame_blanks hGap _), ← hText]
      exact parseAllFrom_eq_ok_iff.mpr (ih hNone)
    obtain ⟨others, left, reads, hLeft, hOthers⟩ := hRest
    have hReads := Reads.block hBefore (stands.append hText hGap hAfter) carries reads
    rw [← List.append_assoc] at hReads
    exact ⟨_, left, hReads, hLeft, by rw [List.map_cons, List.map_cons, hOthers]⟩

/-- A block that lacks more than the blanks after it is no whole block, nor is one inside it. -/
theorem not_hasBlock_of_cut (h : Stands (kept ++ missing) frame []) (hCut : ¬AllBlank missing) :
    ¬HasBlock kept := by
  rintro ⟨before, start, inner, rest, rfl, hBefore, stands⟩
  obtain ⟨gap, hText, hGap, hAfter⟩ := exists_gap (rest ++ missing)
  have hWhole : nextFrame (before ++ start ++ missing) = some (frame, []) :=
    nextFrame_eq_some_iff.mpr ⟨[], _, rfl, .nil, h⟩
  have hInner : nextFrame (before ++ start ++ missing) = some (inner, _) :=
    nextFrame_eq_some_iff.mpr ⟨before, start ++ missing, List.append_assoc _ _ _, hBefore,
      stands.append hText hGap hAfter⟩
  have hNothing : (rest ++ missing).dropWhile isFramingBlank = [] := by
    rw [hWhole, Option.some.injEq, Prod.mk.injEq] at hInner
    exact hInner.2.symm
  apply hCut
  intro c hc
  rw [hNothing, List.append_nil] at hText
  exact hGap c (hText ▸ List.mem_append_right rest hc)

end Enrollment.Pem
