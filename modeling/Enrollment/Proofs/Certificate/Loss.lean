import Mathlib.Data.List.Infix
import Enrollment.Proofs.Certificate.Chain
import Enrollment.Proofs.Pem.Continuation

/-! # Certificates that are passed over

A chain holds one certificate for each whole block of the text that it was read from. Where a text
has more boundaries than whole blocks, as when a download breaks off inside a block, the shorter
chain is taken without a fault.
-/

namespace Enrollment.CertificateChain

def boundary : String := "-----BEGIN CERTIFICATE-----"

/-- The rest of a text from each boundary on, in the order of the boundaries. -/
def beginnings (cs : List Char) : List (List Char) :=
  cs.tails.filter (boundary.toList.isPrefixOf ·)

/-- How often the boundary of a certificate stands in a text. -/
def boundaries (text : String) : Nat := (beginnings text.toList).length

variable {cs start rest last : List Char} {frame : Pem.Frame} {pem : Pem} {text : String}
  {chain : CertificateChain} {found : List (List Char × Pem)}

theorem beginnings_cons_sublist (c : Char) (cs : List Char) :
    (beginnings cs).Sublist (beginnings (c :: cs)) := by
  rw [beginnings, beginnings, List.tails_cons]
  exact (List.sublist_cons_self _ _).filter _

theorem beginnings_sublist (before cs : List Char) :
    (beginnings cs).Sublist (beginnings (before ++ cs)) := by
  induction before with
  | nil => exact .refl _
  | cons c before ih => exact ih.trans (beginnings_cons_sublist c (before ++ cs))

theorem beginnings_of_boundary {c : Char} (h : boundary.toList <+: c :: cs) :
    beginnings (c :: cs) = (c :: cs) :: beginnings cs := by
  rw [beginnings, List.tails_cons, List.filter_cons_of_pos (List.isPrefixOf_iff_prefix.mpr h)]
  rfl

/-- Boundaries of two texts are boundaries of the one that they make up. -/
theorem length_beginnings_append (cs later : List Char) :
    (beginnings cs).length + (beginnings later).length ≤ (beginnings (cs ++ later)).length := by
  induction cs with
  | nil => exact Nat.le_of_eq (Nat.zero_add _)
  | cons c cs ih =>
    by_cases h : boundary.toList <+: c :: cs
    · have hBoth : boundary.toList <+: c :: (cs ++ later) := h.trans (List.prefix_append _ _)
      rw [List.cons_append, beginnings_of_boundary h, beginnings_of_boundary hBoth,
        List.length_cons, List.length_cons]
      omega
    · have hHere : beginnings (c :: cs) = beginnings cs := by
        rw [beginnings, List.tails_cons,
          List.filter_cons_of_neg (mt List.isPrefixOf_iff_prefix.mp h)]
        rfl
      rw [hHere]
      exact ih.trans (beginnings_cons_sublist c (cs ++ later)).length_le

theorem boundary_prefix (stands : Pem.Stands start frame rest) (carries : Pem.Carries frame pem)
    (hTag : pem.tag = tag) : boundary.toList <+: start := by
  cases stands with
  | @intro opening gap payload headers data closing trail _ =>
    have hOpening : opening = tag.toList := hTag ▸ carries.opening_eq
    have hBoundary : boundary.toList = "-----BEGIN ".toList ++ tag.toList ++ "-----".toList := by
      decide
    rw [hBoundary, hOpening]
    simp only [List.append_assoc, List.prefix_append_right_inj]
    exact List.prefix_append _ _

/-- Nothing of a block is read again. -/
theorem exists_tail (stands : Pem.Stands start frame rest) :
    ∃ c taken, start = c :: (taken ++ rest) := by
  cases stands with
  | intro => exact ⟨'-', _, rfl⟩

/-- The blocks that are found begin at boundaries, in their order. -/
theorem found_sublist (h : Pem.Reads cs found last) (hTags : ∀ block ∈ found, block.2.tag = tag) :
    (found.map Prod.fst).Sublist (beginnings cs) := by
  induction h with
  | done cs => exact List.nil_sublist _
  | block hBefore stands carries _ ih =>
    obtain ⟨hTag, hOthers⟩ := List.forall_mem_cons.mp hTags
    have hBoundary := boundary_prefix stands carries hTag
    obtain ⟨c, taken, rfl⟩ := exists_tail stands
    refine .trans ?_ (beginnings_sublist _ _)
    rw [List.map_cons, beginnings_of_boundary hBoundary]
    exact ((ih hOthers).trans (beginnings_sublist _ _)).cons_cons _

theorem boundaries_lt {kept : String} (h : boundary.toList <+: kept.toList) :
    boundaries text < boundaries (text ++ kept) := by
  have hCounted := length_beginnings_append text.toList kept.toList
  have hOne : 0 < (beginnings kept.toList).length := by
    cases hChars : kept.toList with
    | nil =>
      rw [hChars] at h
      exact absurd (List.prefix_nil.mp h) (by decide)
    | cons c cs =>
      rw [beginnings_of_boundary (hChars ▸ h), List.length_cons]
      exact Nat.succ_pos _
  rw [boundaries, boundaries, String.toList_append]
  omega

/-- A block that is cut off adds nothing to the blocks before it. -/
theorem parse_append_cut {kept missing : String} {cut : Pem.Frame} (h : parse text = .ok chain)
    (reads : Pem.Reads text.toList found []) (stands : Pem.Stands (kept ++ missing).toList cut [])
    (hCut : ¬Pem.AllBlank missing.toList) : parse (text ++ kept) = .ok chain := by
  obtain ⟨pems, hBlocks, hTags, hKept⟩ := parse_eq_ok_iff.mp h
  obtain rfl := hBlocks.unique ⟨found, [], reads, Pem.not_hasBlock_nil, rfl⟩
  rw [String.toList_append] at stands
  have hNone : ¬Pem.HasBlock ([] ++ kept.toList) := Pem.not_hasBlock_of_cut stands hCut
  have hLonger := reads.append hNone
  rw [← String.toList_append] at hLonger
  exact parse_eq_ok_iff.mpr ⟨_, hLonger, hTags, hKept⟩

/-- A chain has as many certificates as its text has boundaries exactly if each boundary begins a
whole block, and never more. A block cut off after whole blocks goes unnoticed. -/
theorem parse_passes_over (h : parse text = .ok chain) :
    (∃ found last, Pem.Reads text.toList found last ∧ ¬Pem.HasBlock last ∧
      chain.certificates = found.map (fun block => Pem.print block.2) ∧
      (found.map Prod.fst).Sublist (beginnings text.toList) ∧
      (chain.certificates.length = boundaries text ↔
        found.map Prod.fst = beginnings text.toList)) ∧
    chain.certificates.length ≤ boundaries text ∧
    ∀ (found : List (List Char × Pem)) (kept missing : String) (cut : Pem.Frame),
      Pem.Reads text.toList found [] → Pem.Stands (kept ++ missing).toList cut [] →
      ¬Pem.AllBlank missing.toList →
      parse (text ++ kept) = .ok chain ∧ (boundary.toList <+: kept.toList →
        chain.certificates.length < boundaries (text ++ kept)) := by
  obtain ⟨pems, ⟨found, last, reads, hLast, rfl⟩, hTags, hKept⟩ := parse_eq_ok_iff.mp h
  have hSublist := found_sublist reads (List.forall_mem_map.mp hTags)
  have hLength : chain.certificates.length = (found.map Prod.fst).length := by
    rw [hKept, List.length_map, List.length_map, List.length_map]
  have hMost : chain.certificates.length ≤ boundaries text := hLength ▸ hSublist.length_le
  refine ⟨⟨found, last, reads, hLast, by rw [hKept, List.map_map]; rfl, hSublist, ?_⟩, hMost, ?_⟩
  · rw [hLength]
    exact ⟨hSublist.eq_of_length, fun hEq => congrArg List.length hEq⟩
  · intro whole kept missing cut hWhole stands hCut
    refine ⟨parse_append_cut h hWhole stands hCut, fun hBoundary => ?_⟩
    exact Nat.lt_of_le_of_lt hMost (boundaries_lt hBoundary)

def leafBlock : String := Pem.print ⟨tag, [108, 101, 97, 102]⟩

def leafOnly : CertificateChain := ⟨[leafBlock], List.cons_ne_nil _ _⟩

/-- The block of the issuer as far as it came. -/
def brokenIssuer : String := "-----BEGIN CERTIFICATE-----\r\naXNzdWVy\r\n"

theorem parse_passes_over_brokenIssuer : parse leafBlock = .ok leafOnly ∧
    parse (leafBlock ++ brokenIssuer) = .ok leafOnly ∧
    leafOnly.certificates.length < boundaries (leafBlock ++ brokenIssuer) := by
  have hParsed : parse leafBlock = .ok leafOnly := by decide +kernel
  have hReads : Pem.Reads leafBlock.toList [(leafBlock.toList, ⟨tag, [108, 101, 97, 102]⟩)] [] :=
    .block .nil (Pem.stands_print_last sound_tag.2) (Pem.carries_print sound_tag.1) (.done [])
  have hWhole : brokenIssuer ++ "-----END CERTIFICATE-----\r\n" =
      Pem.print ⟨tag, [105, 115, 115, 117, 101, 114]⟩ := by decide +kernel
  have hStands : Pem.Stands (Pem.print ⟨tag, [105, 115, 115, 117, 101, 114]⟩).toList _ [] :=
    Pem.stands_print_last sound_tag.2
  rw [← hWhole] at hStands
  have hCut : ¬Pem.AllBlank "-----END CERTIFICATE-----\r\n".toList := by
    intro hBlank
    have hDash := hBlank '-' (by simp)
    exact absurd hDash (by decide)
  obtain ⟨-, -, hCutShort⟩ := parse_passes_over hParsed
  obtain ⟨hBroken, hLess⟩ := hCutShort [(leafBlock.toList, ⟨tag, [108, 101, 97, 102]⟩)]
    brokenIssuer "-----END CERTIFICATE-----\r\n" _ hReads hStands hCut
  exact ⟨hParsed, hBroken, hLess (by decide)⟩

/-- A download that breaks off in its second block. -/
theorem lost_of_broken_download :
    ¬∀ text chain, parse text = .ok chain → chain.certificates.length = boundaries text := by
  intro hKept
  have hParsed : parse (leafBlock ++ brokenIssuer) = .ok leafOnly := by decide +kernel
  have hCount : boundaries (leafBlock ++ brokenIssuer) = 2 := by decide +kernel
  have hLost := hKept _ _ hParsed
  rw [hCount] at hLost
  cases hLost

end Enrollment.CertificateChain
