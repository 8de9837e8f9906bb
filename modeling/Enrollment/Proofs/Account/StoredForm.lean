import Enrollment.Account.StoredKey
import Enrollment.Proofs.Codec.Der

/-! # How stored keys are laid out

The elements that a stored key is made of, one by one. Reading accepts exactly what is laid out so,
and gives what it was made from.
-/

namespace Enrollment

open Der (Element row naturalBytes)

namespace ObjectId

def element (oid : ObjectId) : Element := ⟨tag, oid.contents⟩

theorem eq_of_contents {oid oid' : ObjectId} (h : oid.contents = oid'.contents) : oid = oid' := by
  obtain ⟨contents, arcs, reads⟩ := oid
  obtain ⟨contents', arcs', reads'⟩ := oid'
  obtain rfl : contents = contents' := h
  obtain rfl := Option.some.inj (reads.symm.trans reads')
  rfl

theorem element_injective {oid oid' : ObjectId} (h : oid.element = oid'.element) : oid = oid' :=
  eq_of_contents (congrArg Element.contents h)

theorem ofContents?_eq_some_iff {contents : Bytes} {oid : ObjectId} :
    ofContents? contents = some oid ↔ contents = oid.contents := by
  unfold ofContents?
  split
  · next arcs reads =>
    rw [Option.some.injEq]
    constructor
    · rintro rfl
      rfl
    · exact fun h => eq_of_contents h
  · next hNone =>
    refine iff_of_false nofun ?_
    rintro rfl
    cases hNone.symm.trans oid.reads

theorem length_contents_le (oid : ObjectId) : oid.contents.length ≤ maxSize := by
  have hReads := oid.reads
  cases hContents : oid.contents with
  | nil => exact Nat.zero_le _
  | cons first rest =>
    rw [hContents, arcs?] at hReads
    split at hReads
    · cases hReads
    · next hSize =>
      rw [List.length_cons]
      omega

theorem sound_element (oid : ObjectId) : oid.element.Sound :=
  ⟨(by decide : Der.isTag tag = true), oid.length_contents_le.trans (by decide)⟩

theorem reader_eq_some_iff {bytes rest : Bytes} {oid : ObjectId} :
    reader bytes = some (oid, rest) ↔ bytes = oid.element.bytes ++ rest := by
  simp only [reader, Der.bind_eq_some_iff, Der.contents_eq_some_iff]
  constructor
  · rintro ⟨contents, mid, ⟨-, rfl⟩, hRead⟩
    cases hContents : ofContents? contents with
    | none =>
      rw [hContents] at hRead
      cases hRead
    | some oid' =>
      rw [hContents] at hRead
      obtain ⟨rfl, rfl⟩ := Der.pure_eq_some_iff.mp hRead
      rw [ofContents?_eq_some_iff.mp hContents]
      rfl
  · rintro rfl
    refine ⟨oid.contents, rest, ⟨oid.sound_element, rfl⟩, ?_⟩
    simp only [ofContents?_eq_some_iff.mpr rfl]
    rfl

end ObjectId

namespace StoredKey

def IsAttributes (e : Element) : Prop := e.Sound ∧ Der.contextNumber? e.tag = some 0

/-- The field of a public key has the number one and holds whole bytes. -/
def IsPublicKey (e : Element) : Prop :=
  e.Sound ∧ Der.contextNumber? e.tag = some 1 ∧ Der.isConstructed e.tag = false ∧
    ∃ key, e.contents = 0 :: key

/-- A stored key with all that stands around it. -/
structure Layout where
  stored : StoredKey
  attributes : List Element
  publicKey : Option Element
  extensions : List Element

namespace Layout

def version (layout : Layout) : Nat := if layout.publicKey.isSome then 1 else 0

def algorithmElements (layout : Layout) : List Element :=
  layout.stored.algorithm.element :: layout.stored.parameters.toList

def elements (layout : Layout) : List Element :=
  ⟨0x02, naturalBytes layout.version⟩ :: ⟨0x30, row layout.algorithmElements⟩ ::
    ⟨0x04, layout.stored.key⟩ ::
    (layout.attributes ++ (layout.publicKey.toList ++ layout.extensions))

def bytes (layout : Layout) : Bytes := Element.bytes ⟨0x30, row layout.elements⟩

/-- What may stand around a stored key. Without a public key the first of the extensions has a
higher number than one, or it would stand in its place. -/
structure Sound (layout : Layout) : Prop where
  length : (row layout.elements).length ≤ Der.maxLength
  parameters : ∀ e ∈ layout.stored.parameters, e.Sound
  attributes : ∀ e ∈ layout.attributes, IsAttributes e
  publicKey : ∀ e ∈ layout.publicKey, IsPublicKey e
  extensions : ∀ e ∈ layout.extensions, Der.Holds e
  order : layout.publicKey = none → ∀ e ∈ layout.extensions.head?,
    ∀ n ∈ Der.contextNumber? e.tag, 1 < n

theorem version_eq_one_iff (layout : Layout) :
    layout.version = 1 ↔ layout.publicKey.isSome = true := by
  rw [version]
  split <;> simp [*]

theorem version_le_one (layout : Layout) : layout.version ≤ 1 := by
  rw [version]
  split <;> decide

theorem eq_version {layout : Layout} {n : Nat} (hLess : n ≤ 1)
    (h : n = 1 ↔ layout.publicKey.isSome = true) : n = layout.version := by
  have hVersion := layout.version_le_one
  rw [← version_eq_one_iff] at h
  omega

theorem row_elements (layout : Layout) : row layout.elements =
    Element.bytes ⟨0x02, naturalBytes layout.version⟩ ++
      (Element.bytes ⟨0x30, row layout.algorithmElements⟩ ++
        (Element.bytes ⟨0x04, layout.stored.key⟩ ++
          (row layout.attributes ++ (row layout.publicKey.toList ++ row layout.extensions)))) := by
  simp only [elements, Der.row_cons, Der.row_append]

theorem Sound.element {layout : Layout} (h : layout.Sound) {e : Element}
    (hMem : e ∈ layout.elements) (hTag : Der.isTag e.tag = true) : e.Sound :=
  ⟨hTag, (Der.length_contents_le_of_mem hMem).trans h.length⟩

end Layout

def WellFormed (der : Bytes) (stored : StoredKey) : Prop :=
  ∃ layout : Layout, layout.Sound ∧ layout.stored = stored ∧ der = layout.bytes

variable {bytes rest : Bytes}

theorem algorithmReader_eq_some_iff {oid : ObjectId}
    {parameters : Option Element} : algorithmReader bytes = some ((oid, parameters), rest) ↔
      (∀ e ∈ parameters, e.Sound) ∧ bytes = row (oid.element :: parameters.toList) ++ rest ∧
        (parameters = none → rest = []) := by
  simp only [algorithmReader, Der.bind_eq_some_iff, ObjectId.reader_eq_some_iff,
    Der.optionalElement_eq_some_iff, Der.pure_eq_some_iff, Prod.mk.injEq]
  constructor
  · rintro ⟨_, _, rfl, _, _, ⟨hSound, rfl, hEnd⟩, ⟨rfl, rfl⟩, rfl⟩
    exact ⟨hSound, by rw [Der.row_cons, List.append_assoc], hEnd⟩
  · rintro ⟨hSound, rfl, hEnd⟩
    exact ⟨oid, row parameters.toList ++ rest, by rw [Der.row_cons, List.append_assoc],
      parameters, rest, ⟨hSound, rfl, hEnd⟩, ⟨rfl, rfl⟩, rfl⟩

theorem passed_iff {e : Element} : Der.Passed 1 e ↔ IsAttributes e := by
  constructor
  · rintro ⟨hSound, n, hLess, hNumber⟩
    obtain rfl : n = 0 := by omega
    exact ⟨hSound, hNumber⟩
  · rintro ⟨hSound, hNumber⟩
    exact ⟨hSound, 0, Nat.zero_lt_one, hNumber⟩

/-- A public key is looked for behind the attributes. -/
theorem publicKey_eq_some_iff {key? : Option Bytes} :
    Der.implicitField 1 Der.wholeBits bytes = some (key?, rest) ↔
      ∃ (attributes : List Element) (publicKey : Option Element),
        (∀ e ∈ attributes, IsAttributes e) ∧ (∀ e ∈ publicKey, IsPublicKey e) ∧
        bytes = row attributes ++ (row publicKey.toList ++ rest) ∧
        key? = publicKey.map (·.contents.tail) ∧ (publicKey = none → Der.Past 1 rest) := by
  simp only [Der.implicitField_eq_some_iff, passed_iff]
  constructor
  · rintro ⟨attributes, mid, hAttributes, rfl, hFound⟩
    cases hFound with
    | missing hPast => exact ⟨attributes, none, hAttributes, nofun, rfl, rfl, fun _ => hPast⟩
    | @found e mid _ key hSound hNumber hRead =>
      rw [Der.implicitReader_eq_some_iff, Der.wholeBits_eq_some_iff] at hRead
      obtain ⟨hPrimitive, ⟨hKey, -⟩, rfl⟩ := hRead
      refine ⟨attributes, some e, hAttributes, ?_, by simp [row], by simp [hKey], nofun⟩
      rintro _ ⟨⟩
      exact ⟨hSound, hNumber, hPrimitive, key, hKey⟩
  · rintro ⟨attributes, publicKey, hAttributes, hPublicKey, rfl, rfl, hPast⟩
    refine ⟨attributes, _, hAttributes, rfl, ?_⟩
    cases publicKey with
    | none => exact .missing (hPast rfl)
    | some e =>
      obtain ⟨hSound, hNumber, hPrimitive, key, hKey⟩ := hPublicKey e rfl
      have hRead : Der.implicitReader Der.wholeBits e rest = some (key, rest) :=
        Der.implicitReader_eq_some_iff.mpr
          ⟨hPrimitive, Der.wholeBits_eq_some_iff.mpr ⟨hKey, rfl⟩, rfl⟩
      simpa [row, hKey] using Der.Found.found hSound hNumber hRead

/-- What is read is what is laid out as a stored key, and nothing else. -/
theorem ofDer?_eq_some_iff {der : Bytes} {stored : StoredKey} :
    ofDer? der = some stored ↔ WellFormed der stored := by
  simp only [ofDer?, reader, Der.all_eq_some_iff, Der.sequence_eq_some_iff, Der.bind_eq_some_iff,
    Der.natural_eq_some_iff, ↓Der.check_bind_eq_some_iff, Prod.exists, Der.octets,
    Der.contents_eq_some_iff, publicKey_eq_some_iff, Der.remainingFields_eq_some_iff,
    Der.pure_eq_some_iff, algorithmReader_eq_some_iff, List.append_nil, decide_eq_true_eq]
  constructor
  · rintro ⟨inner, hSound, rfl, version, _, ⟨-, rfl⟩, hVersion, oid, parameters, _,
      ⟨_, -, rfl, hParameters, rfl, -⟩, key, _, ⟨-, rfl⟩, _, _,
      ⟨attributes, publicKey, hAttributes, hPublicKey, rfl, rfl, hPast⟩, hPresent, _, _,
      ⟨extensions, hExtensions, rfl, rfl⟩, rfl, -⟩
    let layout : Layout := ⟨⟨oid, parameters, key⟩, attributes, publicKey, extensions⟩
    obtain rfl : version = layout.version := by
      rw [Option.isSome_map] at hPresent
      exact Layout.eq_version hVersion (Iff.of_eq hPresent).symm
    have hRow := layout.row_elements
    refine ⟨layout, ?_, rfl, congrArg (Element.bytes ⟨0x30, ·⟩) hRow.symm⟩
    constructor
    · rw [hRow]
      exact hSound.2
    · exact hParameters
    · exact hAttributes
    · exact hPublicKey
    · exact hExtensions
    · intro hNone
      exact (Der.past_row_iff fun e he => (hExtensions e he).1).mp (hPast hNone)
  · rintro ⟨layout, hLayout, rfl, rfl⟩
    have hPresent : (layout.publicKey.map (·.contents.tail)).isSome = true ↔
        layout.version = 1 := by
      rw [Option.isSome_map, layout.version_eq_one_iff]
    have hPast (hNone : layout.publicKey = none) : Der.Past 1 (row layout.extensions) :=
      (Der.past_row_iff fun e he => (hLayout.extensions e he).1).mpr (hLayout.order hNone)
    refine ⟨row layout.elements, ⟨(by decide : Der.isTag 0x30 = true), hLayout.length⟩, rfl, ?_⟩
    have hVersionSound := hLayout.element (e := ⟨0x02, naturalBytes layout.version⟩)
      (by simp [Layout.elements]) (by decide : Der.isTag 0x02 = true)
    have hAlgorithmSound := hLayout.element (e := ⟨0x30, row layout.algorithmElements⟩)
      (by simp [Layout.elements]) (by decide : Der.isTag 0x30 = true)
    have hKeySound := hLayout.element (e := ⟨0x04, layout.stored.key⟩)
      (by simp [Layout.elements]) (by decide : Der.isTag 0x04 = true)
    rw [layout.row_elements]
    exact ⟨layout.version, _, ⟨hVersionSound, rfl⟩, layout.version_le_one, layout.stored.algorithm,
      layout.stored.parameters, _, ⟨_, hAlgorithmSound, rfl, hLayout.parameters, rfl,
        fun _ => trivial⟩, layout.stored.key, _, ⟨hKeySound, rfl⟩, _, _,
      ⟨layout.attributes, layout.publicKey, hLayout.attributes, hLayout.publicKey, rfl, rfl,
        hPast⟩, propext hPresent, (), [], ⟨layout.extensions, hLayout.extensions, rfl, rfl⟩, rfl,
      rfl⟩

end StoredKey

end Enrollment
