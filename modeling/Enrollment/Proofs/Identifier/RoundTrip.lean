import Enrollment.Proofs.Identifier.Name
import Enrollment.Proofs.Json.Value
import Enrollment.Proofs.Network.Address

/-! # Identifiers there and back

An identifier is read from the document and from the text that are written for it.
-/

namespace Enrollment

namespace Network

/-- The characters that addresses are written with. -/
def isAddressChar (c : Char) : Bool := isHexDigit c || c = '.' || c = ':'

theorem isBlank_of_isAddressChar {c : Char} (h : isAddressChar c = true) :
    Text.isBlank c = false := by
  have hLt : c.toNat < 128 := by
    by_contra hLarge
    have hNone : Hex.value? c = none := by
      rw [Hex.value?, if_neg (by omega), if_neg (by omega), if_neg (by omega)]
    have hDot : c ≠ '.' := fun hSame => hLarge (hSame ▸ by decide)
    have hColon : c ≠ ':' := fun hSame => hLarge (hSame ▸ by decide)
    simp [isAddressChar, isHexDigit, hNone, hDot, hColon] at h
  exact Text.of_ascii (P := fun c => isAddressChar c = true → Text.isBlank c = false) (by decide)
    hLt h

theorem isAddressChar_toDigits {radix n : Nat} (hRadix : 1 < radix) (hHex : radix ≤ 16) :
    ∀ c ∈ Nat.toDigits radix n, isAddressChar c = true := by
  intro c hc
  simp [isAddressChar, isHexDigit_of_mem_toDigits hRadix hHex hc]

theorem V4.isAddressChar_print (v : V4) : ∀ c ∈ v.print.toList, isAddressChar c = true := by
  rw [v.toList_print, chars]
  simp only [List.forall_mem_append, List.forall_mem_cons]
  have hDigits (n : UInt8) : ∀ c ∈ Nat.toDigits 10 n.toNat, isAddressChar c = true :=
    isAddressChar_toDigits (by decide) (by decide)
  have hDot : isAddressChar '.' = true := rfl
  exact ⟨hDigits v.a, hDot, hDigits v.b, hDot, hDigits v.c, hDot, hDigits v.d⟩

theorem isAddressChar_joinedGroups (groups : List UInt16) :
    ∀ c ∈ joinedGroups groups, isAddressChar c = true := by
  have hDigits (g : UInt16) : ∀ c ∈ Nat.toDigits 16 g.toNat, isAddressChar c = true :=
    isAddressChar_toDigits (by decide) (by decide)
  have hColon : isAddressChar ':' = true := rfl
  cases groups with
  | nil => exact List.forall_mem_nil _
  | cons g groups =>
    rw [joinedGroups, List.forall_mem_append]
    refine ⟨hDigits g, ?_⟩
    induction groups with
    | nil => exact List.forall_mem_nil _
    | cons g groups ih =>
      rw [colonGroups, List.flatMap_cons, List.cons_append, List.forall_mem_cons,
        List.forall_mem_append]
      exact ⟨hColon, hDigits g, ih⟩

theorem V6.isAddressChar_print (v : V6) : ∀ c ∈ v.print.toList, isAddressChar c = true := by
  have hMapped : "::ffff:".toList.all isAddressChar = true := by decide
  have hGap : "::".toList.all isAddressChar = true := by decide
  unfold print
  split
  · next v4 _ =>
    rw [String.toList_append, List.forall_mem_append]
    exact ⟨List.all_eq_true.mp hMapped, v4.isAddressChar_print⟩
  · unfold compressed
    split
    split
    · simp only [String.toList_append, toList_groupsText, List.forall_mem_append]
      exact ⟨⟨isAddressChar_joinedGroups _, List.all_eq_true.mp hGap⟩, isAddressChar_joinedGroups _⟩
    · rw [toList_groupsText]
      exact isAddressChar_joinedGroups _

namespace Address

theorem isAddressChar_print (address : Address) :
    ∀ c ∈ address.print.toList, isAddressChar c = true := by
  cases address with
  | v4 v => exact v.isAddressChar_print
  | v6 v => exact v.isAddressChar_print

theorem trim_print (address : Address) : Text.trim address.print = address.print := by
  apply Text.trim_eq_self
  intro c hc
  exact isBlank_of_isAddressChar (address.isAddressChar_print c hc)

end Address

end Network

namespace Identifier

theorem ofAddress_of_parse {text : String} {address : Network.Address}
    (h : Network.Address.parse? (Text.trim text) = some address) :
    ofAddress text = .ok (.ip address) := by
  -- the equation of the definition is dear: its proof reduces the parser
  delta ofAddress
  rw [h]

theorem ofAddress_print (address : Network.Address) :
    ofAddress address.print = .ok (.ip address) := by
  refine ofAddress_of_parse ?_
  rw [address.trim_print, address.parse?_print]

theorem ofTyped_value {text : String} {identifier : Identifier}
    (h : ofName text = .ok identifier ∨ ofAddress text = .ok identifier) :
    ofTyped identifier.type identifier.value = .ok identifier := by
  cases identifier with
  | ip address =>
    simpa [ofTyped, type, value] using ofAddress_print address
  | dns name =>
    rcases h with h | h
    · simpa [ofTyped, type] using ofName_value h
    · delta ofAddress at h
      split at h <;> cases h

/-- Reading what is written for an identifier is to read its type and its value. -/
theorem run_toJson (identifier : Identifier) :
    reader.run (Utf8.encode identifier.toJson.print) =
      match ofTyped identifier.type identifier.value with
      | .ok identifier => .ok identifier
      | .error e => Json.unfit (.refused e.message) := by
  have hFits : identifier.toJson.Fits Json.maxDepth := ⟨by decide, trivial, trivial, trivial⟩
  have hDraft : record.read Json.maxDepth identifier.toJson.outline =
      .ok ⟨some identifier.type, some identifier.value⟩ := by
    simp [record, Json.Record.read, Json.Value.outline, Json.Value.outline.memberOutlines, toJson,
      Json.enter, Json.maxDepth, Json.Record.readMembers, Json.Quoted.read_of, Json.Record.field?,
      Json.Field.of, Json.Reader.text, Json.Ending.check, Except.map, bind, Except.bind, pure,
      Except.pure]
  rw [Json.Reader.run, Json.Value.outline_print hFits]
  simp only [reader, hDraft, Json.required, bind, Except.bind]
  cases ofTyped identifier.type identifier.value with
  | ok other => rfl
  | error e => rfl

/-- A text has one normal form as a name, and the identifier that it names, or that any address has,
is read from what is written for it. -/
theorem normal_form (text : String) :
    (∀ identifier, ofName text = .ok identifier ↔
      ∃ name, Stripped text name ∧ name ≠ [] ∧ (name.flatMap Utf8.encodeChar).length ≤ 253 ∧
        IsDomain name ∧ identifier = .dns (String.ofList (name.map Char.toLower))) ∧
      (∀ identifier, ofName text = .ok identifier → ofName identifier.value = .ok identifier) ∧
      (∀ other : String, other.toList.map Char.toLower = text.toList.map Char.toLower →
        ∀ identifier, ofName other = .ok identifier ↔ ofName text = .ok identifier) ∧
      (∀ front back : String, (∀ c ∈ front.toList, Text.isBlank c = true) →
        (∀ c ∈ back.toList, Text.isBlank c = true) →
        ∀ identifier, ofName (front ++ text ++ back) = .ok identifier ↔
          ofName text = .ok identifier) ∧
      (∀ identifier, ofName (Text.trim text ++ ".") = .ok identifier ↔
        ofName text = .ok identifier) ∧
      (∀ identifier, ofName text = .ok identifier ∨ ofAddress text = .ok identifier →
        reader.run (Utf8.encode identifier.toJson.print) = .ok identifier) ∧
      ∀ address, ofAddress (value (.ip address)) = .ok (.ip address) := by
  refine ⟨?_, ?_, ?_, ?_, ?_, ?_, ?_⟩
  · intro identifier
    obtain ⟨name, hName⟩ := exists_stripped text
    constructor
    · intro h
      obtain ⟨hNil, hValid, hIdentifier⟩ := (ofName_eq_ok_iff hName).mp h
      obtain ⟨hLength, hDomain⟩ := (isName_iff name).mp hValid
      exact ⟨name, hName, hNil, hLength, hDomain, hIdentifier⟩
    · rintro ⟨other, hOther, hNil, hLength, hDomain, hIdentifier⟩
      exact (ofName_eq_ok_iff hOther).mpr
        ⟨hNil, (isName_iff other).mpr ⟨hLength, hDomain⟩, hIdentifier⟩
  · intro identifier h
    exact ofName_value h
  · intro other h identifier
    exact ofName_case h
  · intro front back hFront hBack identifier
    exact ofName_blank hFront hBack
  · intro identifier
    exact ofName_dot
  · intro identifier h
    rw [run_toJson, ofTyped_value h]
  · intro address
    exact ofAddress_print address

/-- The address `::ffff:1.2.3.4`. -/
def mappedAddress : Identifier := .ip (.v6 ⟨[0, 0, 0, 0, 0, 0xFFFF, 0x102, 0x304], rfl⟩)

theorem normal_form_www_mapped :
    ofName " WWW.Example.COM. " = .ok (.dns "www.example.com") ∧
      ofName (value (.dns "www.example.com")) = .ok (.dns "www.example.com") ∧
      ofName " www.EXAMPLE.com. " = .ok (.dns "www.example.com") ∧
      ofName ("\t" ++ "www.example.com" ++ "\u3000") = .ok (.dns "www.example.com") ∧
      ofName (Text.trim " WWW.Example.COM. " ++ ".") = .ok (.dns "www.example.com") ∧
      ofAddress "0:0:0:0:0:FFFF:102:304" = .ok mappedAddress ∧
      reader.run (Utf8.encode mappedAddress.toJson.print) = .ok mappedAddress := by
  obtain ⟨-, hFixed, hCase, -, hDot, -, -⟩ := normal_form " WWW.Example.COM. "
  obtain ⟨-, -, -, hBlank, -, -, -⟩ := normal_form "www.example.com"
  obtain ⟨-, -, -, -, -, hRead, -⟩ := normal_form "0:0:0:0:0:FFFF:102:304"
  have hName : ofName " WWW.Example.COM. " = .ok (.dns "www.example.com") := by decide +kernel
  have hNormal : ofName (value (.dns "www.example.com")) = .ok (.dns "www.example.com") :=
    hFixed (.dns "www.example.com") hName
  have hAddress : ofAddress "0:0:0:0:0:FFFF:102:304" = .ok mappedAddress := by decide +kernel
  refine ⟨hName, hNormal, ?_, ?_, ?_, hAddress, ?_⟩
  · exact (hCase " www.EXAMPLE.com. " (by decide +kernel) _).mpr hName
  · exact (hBlank "\t" "\u3000" (by simp [Text.isBlank]) (by simp [Text.isBlank]) _).mpr hNormal
  · exact (hDot _).mpr hName
  · exact hRead _ (.inr hAddress)

end Identifier

end Enrollment
