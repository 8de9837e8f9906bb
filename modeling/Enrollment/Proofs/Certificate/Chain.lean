import Enrollment.Certificate
import Enrollment.Proofs.Pem.Layout

/-! # Chains in one form

A chain keeps what its certificates hold and not how their text was laid out: every text with the
same contents gives the same chain, and the text of a chain gives the chain back.
-/

namespace Enrollment.CertificateChain

variable {text : String} {chain : CertificateChain} {certificates : List String} {pem : Pem}
  {pems : List Pem}

theorem block_eq_ok_iff {certificate : String} :
    block pem = .ok certificate ↔ pem.tag = tag ∧ certificate = Pem.print pem := by
  unfold block
  constructor
  · intro h
    split at h
    · next hTag =>
      cases h
      exact ⟨hTag, by rw [← hTag]⟩
    · cases h
  · rintro ⟨hTag, rfl⟩
    rw [if_pos hTag, ← hTag]

theorem mapM_block_eq_ok_iff : pems.mapM block = .ok certificates ↔
    (∀ pem ∈ pems, pem.tag = tag) ∧ certificates = pems.map Pem.print := by
  induction pems generalizing certificates with
  | nil =>
    simp only [List.mapM_nil, pure, Except.pure, Except.ok.injEq, List.not_mem_nil,
      false_imp_iff, implies_true, true_and, List.map_nil]
    exact eq_comm
  | cons pem pems ih =>
    rw [List.mapM_cons, List.forall_mem_cons, List.map_cons]
    constructor
    · intro h
      cases hFirst : block pem with
      | error e =>
        rw [hFirst] at h
        cases h
      | ok certificate =>
        cases hRest : pems.mapM block with
        | error e =>
          rw [hFirst, hRest] at h
          cases h
        | ok others =>
          rw [hFirst, hRest] at h
          cases h
          obtain ⟨hTag, rfl⟩ := block_eq_ok_iff.mp hFirst
          obtain ⟨hTags, rfl⟩ := ih.mp hRest
          exact ⟨⟨hTag, hTags⟩, rfl⟩
    · rintro ⟨⟨hTag, hTags⟩, rfl⟩
      rw [block_eq_ok_iff.mpr ⟨hTag, rfl⟩, ih.mpr ⟨hTags, rfl⟩]
      rfl

/-- A text is taken as a chain exactly if it has blocks, all of them sound certificates. They are
kept as they would be printed. -/
theorem parse_eq_ok_iff : parse text = .ok chain ↔ ∃ pems, Pem.Blocks text.toList pems ∧
    (∀ pem ∈ pems, pem.tag = tag) ∧ chain.certificates = pems.map Pem.print := by
  unfold parse Pem.parseAll
  constructor
  · intro h
    cases hPems : Pem.parseAllFrom text.toList with
    | error e =>
      rw [hPems] at h
      cases h
    | ok pems =>
      cases hBlocks : pems.mapM block with
      | error e =>
        simp only [hPems, hBlocks] at h
        cases h
      | ok certificates =>
        simp only [hPems, hBlocks, ofBlocks] at h
        split at h
        · cases h
        · cases h
          exact ⟨pems, Pem.parseAllFrom_eq_ok_iff.mp hPems, mapM_block_eq_ok_iff.mp hBlocks⟩
  · rintro ⟨pems, hBlocks, hKept⟩
    simp only [Pem.parseAllFrom_eq_ok_iff.mpr hBlocks, mapM_block_eq_ok_iff.mpr hKept, ofBlocks,
      dif_neg chain.ne_nil]

theorem eq_of_certificates {other : CertificateChain}
    (h : chain.certificates = other.certificates) : chain = other := by
  cases chain
  cases other
  cases h
  rfl

theorem sound_tag : tag ≠ "" ∧ '-' ∉ tag.toList := by decide

theorem parse_print_of_tag (h : pem.tag = tag) : Pem.parse (Pem.print pem) = .ok pem :=
  Pem.parse_print (h ▸ sound_tag.1) (h ▸ sound_tag.2)

theorem parse_toPem (hTags : ∀ pem ∈ pems, pem.tag = tag)
    (h : chain.certificates = pems.map Pem.print) : parse chain.toPem = .ok chain := by
  have hBlocks : Pem.Blocks (pems.flatMap fun pem => (Pem.print pem).toList) pems := by
    apply Pem.blocks_print
    intro pem hPem
    rw [hTags pem hPem]
    exact sound_tag
  refine parse_eq_ok_iff.mpr ⟨pems, ?_, hTags, h⟩
  rwa [toPem, String.toList_join, h, List.flatMap_map]

/-- Blocks with one tag are told by what they hold. -/
theorem map_contents (hTags : ∀ pem ∈ pems, pem.tag = tag) :
    (pems.map Pem.contents).map (Pem.mk tag) = pems := by
  have hSame : ∀ pem ∈ pems, Pem.mk tag pem.contents = id pem := fun pem hPem => by
    rw [← hTags pem hPem, id]
  rw [List.map_map]
  exact (List.map_congr_left hSame).trans (List.map_id pems)

/-- Whatever is taken as a chain has its blocks in it in their order, each with its bytes, and is
the chain of its own text and of every text whose blocks hold the same. -/
theorem parse_canonical (h : parse text = .ok chain) : ∃ pems, Pem.Blocks text.toList pems ∧
    chain.certificates ≠ [] ∧
    List.Forall₂ (fun certificate pem => Pem.parse certificate = .ok pem) chain.certificates pems ∧
    parse chain.toPem = .ok chain ∧
    ∀ other otherChain otherPems, parse other = .ok otherChain →
      Pem.Blocks other.toList otherPems →
      otherPems.map Pem.contents = pems.map Pem.contents → otherChain = chain := by
  obtain ⟨pems, hBlocks, hTags, hKept⟩ := parse_eq_ok_iff.mp h
  refine ⟨pems, hBlocks, chain.ne_nil, ?_, parse_toPem hTags hKept, ?_⟩
  · rw [hKept, List.forall₂_map_left_iff, List.forall₂_same]
    intro pem hPem
    exact parse_print_of_tag (hTags pem hPem)
  · intro other otherChain otherPems hOther hOtherBlocks hContents
    obtain ⟨others, hOthers, hOtherTags, hOtherKept⟩ := parse_eq_ok_iff.mp hOther
    obtain rfl := hOtherBlocks.unique hOthers
    apply eq_of_certificates
    rw [hOtherKept, hKept, ← map_contents hOtherTags, hContents, map_contents hTags]

/-- Two blocks in short lines, the first with a header, and text between them. -/
def leafAndIssuer : String :=
  "-----BEGIN CERTIFICATE-----\nkey: value\n\nbGVh\nZg==\n-----END CERTIFICATE-----\n" ++
    "issuer:\n-----BEGIN CERTIFICATE-----\naXNz\ndWVy\n-----END CERTIFICATE-----\n"

def leafThenIssuer : CertificateChain :=
  ⟨["-----BEGIN CERTIFICATE-----\r\nbGVhZg==\r\n-----END CERTIFICATE-----\r\n",
    "-----BEGIN CERTIFICATE-----\r\naXNzdWVy\r\n-----END CERTIFICATE-----\r\n"],
    List.cons_ne_nil _ _⟩

theorem parse_canonical_leafAndIssuer : parse leafAndIssuer = .ok leafThenIssuer ∧
    ∃ pems, Pem.Blocks leafAndIssuer.toList pems ∧
      List.Forall₂ (fun certificate pem => Pem.parse certificate = .ok pem)
        leafThenIssuer.certificates pems ∧
      parse leafThenIssuer.toPem = .ok leafThenIssuer := by
  have hParsed : parse leafAndIssuer = .ok leafThenIssuer := by decide +kernel
  obtain ⟨pems, hBlocks, -, hKept, hText, -⟩ := parse_canonical hParsed
  exact ⟨hParsed, pems, hBlocks, hKept, hText⟩

end Enrollment.CertificateChain
