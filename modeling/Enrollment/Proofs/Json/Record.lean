import Mathlib.Data.List.Forall2
import Mathlib.Data.List.Nodup
import Enrollment.Json.Record
import Enrollment.Proofs.Fallible
import Enrollment.Proofs.Json.Quoted

/-! # Records and lists that are read

What is read of a list is read of its items, and what every field keeps is kept by the whole record,
whether it is written as an object or as the list of its fields. What a record keeps for a field is
exactly what the document gives for it.
-/

namespace Enrollment.Json

theorem enter_eq_ok_iff {depth inner : Nat} :
    enter depth = .ok inner ↔ 1 < depth ∧ inner = depth - 1 := by
  unfold enter
  split
  · next hShallow => exact iff_of_false nofun fun h => Nat.not_lt.mpr hShallow h.1
  · next hDeep => simp [Nat.not_le.mp hDeep, eq_comm]

theorem Ending.check_eq_ok_iff {ending : Ending} {u : Unit} :
    ending.check = .ok u ↔ ending = .closed := by
  cases ending with
  | closed => exact iff_of_true rfl rfl
  | fault | keyDue | badKey => exact iff_of_false nofun nofun

theorem wrongType_ne_ok {α : Type} {expected : String} {node : Outline} {a : α} :
    wrongType expected node ≠ .ok a := by
  intro h
  cases node with
  | number numeral =>
    obtain ⟨n, -, h⟩ := bind_eq_ok_iff.mp h
    cases h
  | text q =>
    obtain ⟨s, -, h⟩ := bind_eq_ok_iff.mp h
    cases h
  | null | bool | shortNumber | list | object | broken => cases h

theorem required_eq_ok_iff {α : Type} {name : String} {a? : Option α} {a : α} :
    required name a? = .ok a ↔ a? = some a := by
  cases a? with
  | none => exact iff_of_false nofun nofun
  | some found => simp [required]

namespace Reader

variable {α : Type} {reader : Reader α} {depth : Nat} {node : Outline}

theorem text_eq_ok_iff {s : String} :
    text depth node = .ok s ↔ ∃ q, node = .text q ∧ q.read = .ok s := by
  constructor
  · intro h
    unfold text at h
    split at h
    · next q => exact ⟨q, rfl, h⟩
    · exact absurd h wrongType_ne_ok
  · rintro ⟨q, rfl, h⟩
    exact h

theorem textAs_eq_ok_iff {expected : String} {f : String → Except Unfit α} {a : α} :
    textAs expected f depth node = .ok a ↔
      ∃ q s, node = .text q ∧ q.read = .ok s ∧ f s = .ok a := by
  constructor
  · intro h
    unfold textAs at h
    split at h
    · next q =>
      obtain ⟨s, hText, h⟩ := bind_eq_ok_iff.mp h
      split at h
      · next found hFound =>
        cases h
        exact ⟨q, s, rfl, hText, hFound⟩
      · cases h
    · exact absurd h wrongType_ne_ok
  · rintro ⟨q, s, rfl, hText, hFound⟩
    exact bind_eq_ok_iff.mpr ⟨s, hText, by rw [hFound]⟩

theorem optional_eq_ok_iff {a? : Option α} : optional reader depth node = .ok a? ↔
    node = .null ∧ a? = none ∨ node ≠ .null ∧ ∃ a, reader depth node = .ok a ∧ a? = some a := by
  cases node with
  | null => simp [optional, eq_comm]
  | bool | number | shortNumber | text | list | object | broken =>
    simp [optional, map_eq_ok_iff]

theorem listItems_eq_ok_iff {items : List Outline} {values : List α} :
    listItems reader depth items = .ok values ↔
      List.Forall₂ (fun item a => reader depth item = .ok a) items values := by
  induction items generalizing values with
  | nil => cases values <;> simp [listItems]
  | cons item items ih =>
    constructor
    · intro h
      obtain ⟨a, hFirst, h⟩ := bind_eq_ok_iff.mp h
      obtain ⟨rest, hRest, h⟩ := bind_eq_ok_iff.mp h
      cases h
      exact .cons hFirst (ih.mp hRest)
    · intro h
      cases h with
      | cons hFirst hRest =>
        exact bind_eq_ok_iff.mpr ⟨_, hFirst, bind_eq_ok_iff.mpr ⟨_, ih.mpr hRest, rfl⟩⟩

theorem list_eq_ok_iff {values : List α} : list reader depth node = .ok values ↔
    ∃ items, node = .list items .closed ∧ 1 < depth ∧
      List.Forall₂ (fun item a => reader (depth - 1) item = .ok a) items values := by
  constructor
  · intro h
    unfold list at h
    split at h
    · next items ending =>
      obtain ⟨inner, hEnter, h⟩ := bind_eq_ok_iff.mp h
      obtain ⟨found, hItems, h⟩ := bind_eq_ok_iff.mp h
      obtain ⟨u, hEnding, h⟩ := bind_eq_ok_iff.mp h
      cases h
      obtain ⟨hDepth, rfl⟩ := enter_eq_ok_iff.mp hEnter
      obtain rfl := Ending.check_eq_ok_iff.mp hEnding
      exact ⟨items, rfl, hDepth, listItems_eq_ok_iff.mp hItems⟩
    · exact absurd h wrongType_ne_ok
  · rintro ⟨items, rfl, hDepth, hItems⟩
    refine bind_eq_ok_iff.mpr ⟨_, enter_eq_ok_iff.mpr ⟨hDepth, rfl⟩, ?_⟩
    refine bind_eq_ok_iff.mpr ⟨_, listItems_eq_ok_iff.mpr hItems, ?_⟩
    rfl

/-- What holds of everything that is read of an item holds of all that is read of a list. -/
theorem forall_of_list {P : α → Prop} {values : List α} (h : list reader depth node = .ok values)
    (hItem : ∀ item a, reader (depth - 1) item = .ok a → P a) : ∀ a ∈ values, P a := by
  obtain ⟨items, -, -, hItems⟩ := list_eq_ok_iff.mp h
  clear h
  induction hItems with
  | nil => exact List.forall_mem_nil _
  | cons hFirst _ ih => exact List.forall_mem_cons.mpr ⟨hItem _ _ hFirst, ih⟩

theorem run_eq_ok_iff {bytes : Bytes} {a : α} : run reader bytes = .ok a ↔
    ∃ root, Outline.ofBytes bytes = (root, false) ∧ reader maxDepth root = .ok a := by
  rw [run]
  obtain ⟨root, more⟩ := Outline.ofBytes bytes
  cases more with
  | true =>
    refine iff_of_false (fun h => ?_) nofun
    obtain ⟨found, -, h⟩ := bind_eq_ok_iff.mp h
    cases h
  | false =>
    constructor
    · intro h
      obtain ⟨found, hRead, h⟩ := bind_eq_ok_iff.mp h
      cases h
      exact ⟨root, rfl, hRead⟩
    · rintro ⟨_, ⟨⟩, hRead⟩
      exact bind_eq_ok_iff.mpr ⟨a, hRead, rfl⟩

theorem word16_lt {n : Nat} (h : word16 depth node = .ok n) : n < 65536 := by
  unfold word16 at h
  split at h
  · obtain ⟨number, -, h⟩ := bind_eq_ok_iff.mp h
    split at h
    · split at h
      · next hBounds =>
        cases h
        omega
      · cases h
    · cases h
  · exact absurd h wrongType_ne_ok

end Reader

@[simp]
theorem Field.name_of {δ α : Type} {name : String} {reader : Reader α} {get : δ → Option α}
    {set : δ → Option α → δ} {mayEnd : Bool} : (of name reader get set mayEnd).name = name := rfl

/-- Whether a field leaves alone what is kept for another one. -/
def Field.Spares {δ α : Type} (field : Field δ) (get : δ → Option α) : Prop :=
  ∀ ⦃depth part draft draft'⦄, field.fill depth part draft = .ok draft' → get draft' = get draft

@[simp]
theorem Field.Spares.of {δ α β : Type} {name : String} {reader : Reader β} {get : δ → Option α}
    {own : δ → Option β} {set : δ → Option β → δ} {mayEnd : Bool}
    (h : ∀ draft b?, get (set draft b?) = get draft) :
    (Field.of name reader own set mayEnd).Spares get := by
  intro depth part draft draft' hFill
  obtain ⟨b, -, rfl⟩ := map_eq_ok_iff.mp hFill
  exact h draft (some b)

theorem Field.name_of_find? {δ : Type} {fields : List (Field δ)} {name : String} {field : Field δ}
    (h : fields.find? (·.name = name) = some field) : field ∈ fields ∧ field.name = name := by
  have hName := List.find?_some h
  exact ⟨List.mem_of_find?_eq_some h, of_decide_eq_true hName⟩

namespace Record

variable {δ : Type} {record : Record δ} {P : δ → Prop} {depth : Nat} {draft draft' : δ}

theorem readMembers_of_found {name : String} {field : Field δ} {node : Outline}
    {members : List (Quoted × Outline)} (hField : record.field? name = some field)
    (hNew : field.filled draft = false) (hFill : field.fill depth node draft = .ok draft') :
    record.readMembers depth ((.of name, node) :: members) draft =
      record.readMembers depth members draft' := by
  rw [readMembers, Quoted.read_of]
  simp only [bind, Except.bind, hField, hNew, hFill]
  rfl

/-- The member of a name, or none when there is nothing to write. -/
def memberIf {α : Type} (name : String) (write : α → Outline) (a? : Option α) :
    List (Quoted × Outline) := (a?.map fun a => (Quoted.of name, write a)).toList

theorem readMembers_of_optional {α : Type} {name : String} {field : Field δ} {a? : Option α}
    {write : α → Outline} {members : List (Quoted × Outline)}
    (hField : record.field? name = some field) (hNew : field.filled draft = false)
    (hNone : a? = none → draft' = draft)
    (hSome : ∀ a ∈ a?, field.fill depth (write a) draft = .ok draft') :
    record.readMembers depth (memberIf name write a? ++ members) draft =
      record.readMembers depth members draft' := by
  cases a? with
  | none =>
    rw [hNone rfl]
    rfl
  | some a => exact readMembers_of_found hField hNew (hSome a rfl)

/-- A field that may be nothing is read back when it is left out for nothing. -/
theorem readMembers_of_nullable {α : Type} {name : String} {reader : Reader α}
    {get : δ → Option (Option α)} {set : δ → Option (Option α) → δ} {mayEnd : Bool} {a? : Option α}
    {write : α → Outline} {members : List (Quoted × Outline)}
    (hField : record.field? name = some (.of name (.optional reader) get set mayEnd))
    (hNew : get draft = none) (hKeep : set draft none = draft)
    (hRead : ∀ a ∈ a?, write a ≠ .null ∧ reader depth (write a) = .ok a) :
    record.readMembers depth (memberIf name write a? ++ members) draft =
      record.readMembers depth members (set draft (a?.map some)) := by
  refine readMembers_of_optional hField (congrArg Option.isSome hNew) ?_ ?_
  · rintro rfl
    exact hKeep
  · rintro a rfl
    obtain ⟨hPresent, hValue⟩ := hRead a rfl
    have hReader := Reader.optional_eq_ok_iff.mpr (.inr ⟨hPresent, a, hValue, rfl⟩)
    exact map_eq_ok_iff.mpr ⟨_, hReader, rfl⟩

/-- What a document gives for a field: the member of its name, or the item in its place. -/
def Gives (record : Record δ) (node : Outline) (name : String) (part : Outline) : Prop :=
  match node with
  | .object members _ => ∃ key, (key, part) ∈ members ∧ key.read = .ok name
  | .list items _ => ∃ field, (field, part) ∈ record.fields.zip items ∧ field.name = name
  | _ => False

/-- A member is taken by the field of its name, once only, or else it is passed over. -/
theorem readMembers_cons {key : Quoted} {part : Outline} {members : List (Quoted × Outline)}
    (h : record.readMembers depth ((key, part) :: members) draft = .ok draft') :
    ∃ name next, key.read = .ok name ∧ record.readMembers depth members next = .ok draft' ∧
      ((∃ field, record.field? name = some field ∧ field.filled draft = false ∧
        field.fill depth part draft = .ok next) ∨
      record.field? name = none ∧ next = draft) := by
  obtain ⟨name, hName, h⟩ := bind_eq_ok_iff.mp h
  split at h
  · next field hField =>
    split at h
    · cases h
    · next hFilled =>
      obtain ⟨next, hNext, hRest⟩ := bind_eq_ok_iff.mp h
      have hNew := Bool.eq_false_iff.mpr hFilled
      exact ⟨name, next, hName, hRest, .inl ⟨field, hField, hNew, hNext⟩⟩
  · next hField =>
    obtain ⟨u, -, hRest⟩ := bind_eq_ok_iff.mp h
    exact ⟨name, draft, hName, hRest, .inr ⟨hField, rfl⟩⟩

theorem readMembers_induct {members : List (Quoted × Outline)}
    (hFill : ∀ member ∈ members, ∀ field ∈ record.fields, member.1.read = .ok field.name →
      ∀ draft draft', P draft → field.filled draft = false →
        field.fill depth member.2 draft = .ok draft' → P draft')
    (hStart : P draft) (h : record.readMembers depth members draft = .ok draft') : P draft' := by
  induction members generalizing draft with
  | nil =>
    cases h
    exact hStart
  | cons member members ih =>
    obtain ⟨hFirst, hRest⟩ := List.forall_mem_cons.mp hFill
    obtain ⟨name, next, hName, hLater, taken⟩ := readMembers_cons h
    obtain ⟨field, hField, hNew, hNext⟩ | ⟨-, rfl⟩ := taken
    · obtain ⟨hMem, rfl⟩ := Field.name_of_find? hField
      exact ih hRest (hFirst field hMem hName draft next hStart hNew hNext) hLater
    · exact ih hRest hStart hLater

theorem readItems_induct {ending : Ending} {index : Nat} {fields : List (Field δ)}
    {items : List Outline}
    (hFill : ∀ pair ∈ fields.zip items, ∀ draft draft', P draft →
      pair.1.fill depth pair.2 draft = .ok draft' → P draft')
    (hStart : P draft) (h : record.readItems depth ending index fields items draft = .ok draft') :
    P draft' := by
  induction fields generalizing index items draft with
  | nil =>
    cases items with
    | nil =>
      obtain ⟨u, -, h⟩ := bind_eq_ok_iff.mp h
      cases h
      exact hStart
    | cons item items => cases h
  | cons field fields ih =>
    cases items with
    | nil =>
      obtain ⟨u, -, h⟩ := bind_eq_ok_iff.mp h
      split at h
      · refine ih (fun pair hPair => ?_) hStart h
        rw [List.zip_nil_right] at hPair
        cases hPair
      · cases h
    | cons item items =>
      obtain ⟨next, hNext, h⟩ := bind_eq_ok_iff.mp h
      obtain ⟨hFirst, hRest⟩ := List.forall_mem_cons.mp hFill
      exact ih hRest (hFirst draft next hStart hNext) h

theorem read_object_eq_ok_iff {members : List (Quoted × Outline)} {ending : Ending} :
    record.read depth (.object members ending) = .ok draft ↔ 1 < depth ∧ ending = .closed ∧
      record.readMembers (depth - 1) members record.empty = .ok draft := by
  constructor
  · intro h
    obtain ⟨inner, hEnter, h⟩ := bind_eq_ok_iff.mp h
    obtain ⟨last, hMembers, h⟩ := bind_eq_ok_iff.mp h
    obtain ⟨u, hEnding, h⟩ := bind_eq_ok_iff.mp h
    cases h
    obtain ⟨hDepth, rfl⟩ := enter_eq_ok_iff.mp hEnter
    exact ⟨hDepth, Ending.check_eq_ok_iff.mp hEnding, hMembers⟩
  · rintro ⟨hDepth, rfl, hMembers⟩
    refine bind_eq_ok_iff.mpr ⟨_, enter_eq_ok_iff.mpr ⟨hDepth, rfl⟩, ?_⟩
    exact bind_eq_ok_iff.mpr ⟨_, hMembers, rfl⟩

/-- What holds of the empty draft and is kept by every field holds of what is read. -/
theorem read_induct {node : Outline} (hEmpty : P record.empty)
    (hFill : ∀ field ∈ record.fields, ∀ part, record.Gives node field.name part →
      ∀ draft draft', P draft → field.fill (depth - 1) part draft = .ok draft' → P draft')
    (h : record.read depth node = .ok draft) : P draft := by
  unfold read at h
  split at h
  · next members ending =>
    obtain ⟨-, -, hMembers⟩ := read_object_eq_ok_iff.mp h
    refine readMembers_induct (fun member hMember field hField hName => ?_) hEmpty hMembers
    intro draft draft' hDraft _
    exact hFill field hField member.2 ⟨member.1, hMember, hName⟩ draft draft' hDraft
  · next items ending =>
    obtain ⟨inner, hEnter, h⟩ := bind_eq_ok_iff.mp h
    obtain ⟨-, rfl⟩ := enter_eq_ok_iff.mp hEnter
    refine readItems_induct (fun pair hPair => ?_) hEmpty h
    exact hFill pair.1 (List.of_mem_zip hPair).1 pair.2 ⟨pair.1, hPair, rfl⟩
  · exact absurd h wrongType_ne_ok

/-- Whether a document gives a text for a field. -/
def Tells (record : Record δ) (node : Outline) (name s : String) : Prop :=
  ∃ q, record.Gives node name (.text q) ∧ q.read = .ok s

theorem tells_iff_exists (depth : Nat) {node : Outline} {name s : String} :
    record.Tells node name s ↔
      ∃ part, record.Gives node name part ∧ Reader.text depth part = .ok s := by
  constructor
  · rintro ⟨q, given, hText⟩
    exact ⟨_, given, hText⟩
  · rintro ⟨part, given, hPart⟩
    obtain ⟨q, rfl, hText⟩ := Reader.text_eq_ok_iff.mp hPart
    exact ⟨q, given, hText⟩

/-- Whether a record keeps in one place what is read for a field, and nothing else. -/
structure Keeps {α : Type} (record : Record δ) (name : String) (reader : Reader α)
    (get : δ → Option α) : Prop where
  own : ∃ set mayEnd, record.field? name = some (.of name reader get set mayEnd) ∧
    ∀ draft a?, get (set draft a?) = a?
  others : ∀ field ∈ record.fields, field.name ≠ name → field.Spares get
  distinct : (record.fields.map (·.name)).Nodup
  empty : get record.empty = none

namespace Keeps

variable {α : Type} {name : String} {reader : Reader α} {node part : Outline} {a : α}

section

variable {get : δ → Option α} (keeps : record.Keeps name reader get)

include keeps

theorem own_of_name {field : Field δ} (hMem : field ∈ record.fields) (hName : field.name = name) :
    ∃ set mayEnd, field = .of name reader get set mayEnd ∧
      ∀ draft a?, get (set draft a?) = a? := by
  obtain ⟨set, mayEnd, hField, hGet⟩ := keeps.own
  obtain ⟨hOwn, hOwnName⟩ := Field.name_of_find? hField
  have hSame := List.inj_on_of_nodup_map keeps.distinct hMem hOwn (hName.trans hOwnName.symm)
  exact ⟨set, mayEnd, hSame, hGet⟩

theorem kept_of_fill {field : Field δ} (hMem : field ∈ record.fields) (hName : field.name = name)
    (hFill : field.fill depth part draft = .ok draft') :
    ∃ a, get draft' = some a ∧ reader depth part = .ok a := by
  obtain ⟨set, mayEnd, rfl, hGet⟩ := keeps.own_of_name hMem hName
  obtain ⟨a, hRead, rfl⟩ := map_eq_ok_iff.mp hFill
  exact ⟨a, hGet draft (some a), hRead⟩

/-- What is kept for a field was read of what the document gives for it. -/
theorem gives (h : record.read depth node = .ok draft) (hKept : get draft = some a) :
    ∃ part, record.Gives node name part ∧ reader (depth - 1) part = .ok a := by
  refine read_induct (P := fun draft => ∀ a, get draft = some a →
    ∃ part, record.Gives node name part ∧ reader (depth - 1) part = .ok a) ?_ ?_ h a hKept
  · intro a hKept
    rw [keeps.empty] at hKept
    cases hKept
  · intro field hMem part gives draft draft' hDraft hFill a hKept
    by_cases hName : field.name = name
    · obtain ⟨found, hFound, hRead⟩ := keeps.kept_of_fill hMem hName hFill
      cases hFound.symm.trans hKept
      exact ⟨part, hName ▸ gives, hRead⟩
    · exact hDraft a ((keeps.others field hMem hName hFill).symm.trans hKept)

/-- What is kept stays, since no other member can be taken for it. -/
theorem stays {members : List (Quoted × Outline)} (hKept : get draft = some a)
    (h : record.readMembers depth members draft = .ok draft') : get draft' = some a := by
  refine readMembers_induct (P := fun draft => get draft = some a) ?_ hKept h
  intro member _ field hMem _ draft draft' hDraft hNew hFill
  by_cases hName : field.name = name
  · obtain ⟨set, mayEnd, rfl, -⟩ := keeps.own_of_name hMem hName
    have hFilled : (get draft).isSome = false := hNew
    rw [hDraft] at hFilled
    cases hFilled
  · exact (keeps.others field hMem hName hFill).trans hDraft

theorem kept_of_member {members : List (Quoted × Outline)} {key : Quoted}
    (hMember : (key, part) ∈ members) (hName : key.read = .ok name)
    (h : record.readMembers depth members draft = .ok draft') :
    ∃ a, get draft' = some a ∧ reader depth part = .ok a := by
  induction members generalizing draft with
  | nil => cases hMember
  | cons member members ih =>
    obtain ⟨found, next, hFound, hRest, taken⟩ := readMembers_cons h
    rcases List.mem_cons.mp hMember with rfl | hLater
    · obtain rfl : name = found := Except.ok.inj (hName.symm.trans hFound)
      obtain ⟨field, hField, -, hFill⟩ | ⟨hNone, -⟩ := taken
      · obtain ⟨hMem, hSame⟩ := Field.name_of_find? hField
        obtain ⟨a, hKept, hRead⟩ := keeps.kept_of_fill hMem hSame hFill
        exact ⟨a, keeps.stays hKept hRest, hRead⟩
      · obtain ⟨set, mayEnd, hField, -⟩ := keeps.own
        cases hNone.symm.trans hField
    · exact ih hLater hRest

theorem kept_of_item {ending : Ending} {index : Nat} {fields : List (Field δ)}
    {items : List Outline} {field : Field δ} (hFields : fields.Sublist record.fields)
    (hItem : (field, part) ∈ fields.zip items) (hName : field.name = name)
    (h : record.readItems depth ending index fields items draft = .ok draft') :
    ∃ a, get draft' = some a ∧ reader depth part = .ok a := by
  induction fields generalizing index items draft with
  | nil => cases hItem
  | cons first fields ih =>
    cases items with
    | nil => cases hItem
    | cons item items =>
      obtain ⟨next, hNext, hRest⟩ := bind_eq_ok_iff.mp h
      rw [List.zip_cons_cons] at hItem
      rcases List.mem_cons.mp hItem with hFirst | hLater
      · obtain ⟨rfl, rfl⟩ := Prod.mk.inj hFirst
        have hOwn := hFields.subset List.mem_cons_self
        obtain ⟨a, hKept, hRead⟩ := keeps.kept_of_fill hOwn hName hNext
        -- the fields after this one have other names
        have hOthers := (List.nodup_cons.mp (keeps.distinct.sublist (hFields.map _))).1
        refine ⟨a, readItems_induct (P := fun draft => get draft = some a) ?_ hKept hRest, hRead⟩
        intro pair hPair draft draft' hDraft hFill
        have hMem := (List.of_mem_zip hPair).1
        have hOther : pair.1.name ≠ name := by
          rintro hSame
          exact hOthers (List.mem_map.mpr ⟨pair.1, hMem, hSame.trans hName.symm⟩)
        have hSub := hFields.subset (List.mem_cons_of_mem _ hMem)
        exact (keeps.others pair.1 hSub hOther hFill).trans hDraft
      · exact ih (List.sublist_of_cons_sublist hFields) hLater hRest

/-- What a document gives for a field is read, and that is what is kept. -/
theorem kept_of_gives (h : record.read depth node = .ok draft)
    (given : record.Gives node name part) :
    ∃ a, get draft = some a ∧ reader (depth - 1) part = .ok a := by
  unfold read at h
  split at h
  · next members ending =>
    obtain ⟨-, -, hMembers⟩ := read_object_eq_ok_iff.mp h
    obtain ⟨key, hMember, hName⟩ := given
    exact keeps.kept_of_member hMember hName hMembers
  · next items ending =>
    obtain ⟨inner, hEnter, h⟩ := bind_eq_ok_iff.mp h
    obtain ⟨-, rfl⟩ := enter_eq_ok_iff.mp hEnter
    obtain ⟨field, hItem, hName⟩ := given
    exact keeps.kept_of_item (List.Sublist.refl _) hItem hName h
  · exact absurd h wrongType_ne_ok

theorem kept_iff (h : record.read depth node = .ok draft) : get draft = some a ↔
    ∃ part, record.Gives node name part ∧ reader (depth - 1) part = .ok a := by
  constructor
  · exact keeps.gives h
  · rintro ⟨part, given, hPart⟩
    obtain ⟨kept, hKept, hRead⟩ := keeps.kept_of_gives h given
    cases hRead.symm.trans hPart
    exact hKept

theorem eq_none_iff (h : record.read depth node = .ok draft) :
    get draft = none ↔ ∀ part, ¬record.Gives node name part := by
  rw [Option.eq_none_iff_forall_ne_some]
  constructor
  · intro hNone part given
    obtain ⟨a, hKept, -⟩ := keeps.kept_of_gives h given
    exact hNone a hKept
  · intro hMissing a hKept
    obtain ⟨part, given, -⟩ := keeps.gives h hKept
    exact hMissing part given

end

theorem join_kept_iff {get : δ → Option (Option α)}
    (keeps : record.Keeps name (.optional reader) get) (h : record.read depth node = .ok draft) :
    (get draft).join = some a ↔
      ∃ part, record.Gives node name part ∧ part ≠ .null ∧ reader (depth - 1) part = .ok a := by
  rw [Option.join_eq_some_iff, keeps.kept_iff h]
  refine exists_congr fun part => and_congr_right fun _ => ?_
  simp [Reader.optional_eq_ok_iff]

theorem tells_iff {get : δ → Option String} (keeps : record.Keeps name Reader.text get)
    (h : record.read depth node = .ok draft) {s : String} :
    record.Tells node name s ↔ get draft = some s :=
  (tells_iff_exists (depth - 1)).trans (keeps.kept_iff h).symm

theorem tells_iff_join {get : δ → Option (Option String)}
    (keeps : record.Keeps name (.optional Reader.text) get)
    (h : record.read depth node = .ok draft) {s : String} :
    record.Tells node name s ↔ (get draft).join = some s := by
  have hPresent (part : Outline) (hText : Reader.text (depth - 1) part = .ok s) :
      part ≠ .null := by
    obtain ⟨q, rfl, -⟩ := Reader.text_eq_ok_iff.mp hText
    exact nofun
  rw [keeps.join_kept_iff h, tells_iff_exists (depth - 1)]
  refine exists_congr fun part => and_congr_right fun _ => ?_
  exact (and_iff_right_of_imp (hPresent part)).symm

end Keeps

end Record

end Enrollment.Json
