import Mathlib.Data.List.Pairwise
import Enrollment.Directory
import Enrollment.Proofs.Json.Reading
import Enrollment.Proofs.Text.ByteOrder

/-! # The further endpoints of a directory

A member of a directory is taken for a field or kept for a further endpoint, and members of
different names do not come in each other's way: the order in which they stand does not count. Of
further endpoints that are no addresses the one with the smallest name is reported.
-/

namespace Enrollment

open Json (Outline Quoted Value)

namespace Json.Field

variable {δ α β : Type} {f g : Field δ}

/-- A field takes what a document gives for it if nothing has been given before. -/
def Takes (f : Field δ) (depth : Nat) (part : Outline) (draft next : δ) : Prop :=
  f.filled draft = false ∧ f.fill depth part draft = .ok next

/-- Whether one field can be filled after another one as well as before it. -/
def Yields (f g : Field δ) : Prop :=
  ∀ ⦃depth part part' draft next last⦄, f.Takes depth part draft next →
    g.Takes depth part' next last →
      ∃ other, g.Takes depth part' draft other ∧ f.Takes depth part other last

def Independent (f g : Field δ) : Prop := f.Yields g ∧ g.Yields f

instance : Std.Symm (Independent (δ := δ)) := ⟨fun _ _ => And.symm⟩

section

variable {name name' : String} {reader : Reader α} {reader' : Reader β} {get : δ → Option α}
  {get' : δ → Option β} {set : δ → Option α → δ} {set' : δ → Option β → δ} {mayEnd mayEnd' : Bool}
  {depth : Nat} {part : Outline} {draft next : δ}

theorem takes_of_iff : (Field.of name reader get set mayEnd).Takes depth part draft next ↔
    get draft = none ∧ ∃ a, reader depth part = .ok a ∧ next = set draft (some a) := by
  refine and_congr ?_ map_eq_ok_iff
  cases hGet : get draft <;> simp [Field.of, hGet]

theorem yields_of (hGet : ∀ draft b, get (set' draft (some b)) = get draft)
    (hGet' : ∀ draft a, get' (set draft (some a)) = get' draft)
    (hSet : ∀ draft a b, set' (set draft (some a)) (some b) = set (set' draft (some b)) (some a)) :
    (Field.of name reader get set mayEnd).Yields (.of name' reader' get' set' mayEnd') := by
  intro depth part part' draft next last hFirst hSecond
  obtain ⟨hNew, a, hRead, rfl⟩ := takes_of_iff.mp hFirst
  obtain ⟨hNew', b, hRead', rfl⟩ := takes_of_iff.mp hSecond
  rw [hGet'] at hNew'
  refine ⟨set' draft (some b), takes_of_iff.mpr ⟨hNew', b, hRead', rfl⟩,
    takes_of_iff.mpr ⟨(hGet draft b).trans hNew, a, hRead, hSet draft a b⟩⟩

/-- Fields that keep their values in different places are independent. -/
@[simp]
theorem independent_of (hGet : ∀ draft b, get (set' draft (some b)) = get draft)
    (hGet' : ∀ draft a, get' (set draft (some a)) = get' draft)
    (hSet : ∀ draft a b, set' (set draft (some a)) (some b) = set (set' draft (some b)) (some a)) :
    (Field.of name reader get set mayEnd).Independent (.of name' reader' get' set' mayEnd') :=
  ⟨yields_of hGet hGet' hSet, yields_of hGet' hGet fun draft b a => (hSet draft a b).symm⟩

end

end Json.Field

namespace Directory

variable {depth : Nat} {draft next last : Draft} {name : String}

/-- A member of another name, whose value is kept under its name. -/
def other (name : String) : Json.Field Draft :=
  .of name Value.reader (fun _ => none) (fun draft v? => v?.elim draft fun v =>
    { draft with extra := Value.insert name v draft.extra }) true

/-- The field that a member of some name is for. -/
def fieldOf (name : String) : Json.Field Draft := (fields.find? (·.name = name)).getD (other name)

theorem pairwise_fields : fields.Pairwise Json.Field.Independent := by
  simp [fields]

theorem independent_other (name : String) : ∀ field ∈ fields, field.Independent (other name) := by
  simp only [fields, other, List.forall_mem_cons, List.not_mem_nil, false_imp_iff, implies_true,
    and_true]
  refine ⟨?_, ?_, ?_, ?_, ?_, ?_, ?_⟩
  all_goals exact Json.Field.independent_of (fun _ _ => rfl) (fun _ _ => rfl) fun _ _ _ => rfl

theorem independent_others {name' : String} (h : name ≠ name') :
    (other name).Independent (other name') := by
  unfold other
  refine Json.Field.independent_of (fun _ _ => rfl) (fun _ _ => rfl) fun draft a b => ?_
  exact congrArg (fun extra => { draft with extra }) (Value.insert_comm h.symm draft.extra)

theorem independent_fieldOf {name' : String} (h : name ≠ name') :
    (fieldOf name).Independent (fieldOf name') := by
  unfold fieldOf
  cases hFirst : fields.find? (·.name = name) with
  | none =>
    cases hSecond : fields.find? (·.name = name') with
    | none => exact independent_others h
    | some field => exact symm (independent_other name field (Json.Field.name_of_find? hSecond).1)
  | some field =>
    obtain ⟨hField, hName⟩ := Json.Field.name_of_find? hFirst
    cases hSecond : fields.find? (·.name = name') with
    | none => exact independent_other name' field hField
    | some field' =>
      obtain ⟨hField', hName'⟩ := Json.Field.name_of_find? hSecond
      refine pairwise_fields.forall hField hField' ?_
      rintro rfl
      exact h (hName.symm.trans hName')

/-- Members are taken one after the other, each by the field of its name. -/
theorem readMembers_cons_iff {member : Quoted × Outline} {members : List (Quoted × Outline)} :
    readMembers depth (member :: members) draft = .ok last ↔
      ∃ name next, member.1.read = .ok name ∧ (fieldOf name).Takes depth member.2 draft next ∧
        readMembers depth members next = .ok last := by
  obtain ⟨key, node⟩ := member
  rw [readMembers, bind_eq_ok_iff]
  refine exists_congr fun name => ?_
  unfold fieldOf
  cases hField : fields.find? (·.name = name) with
  | none =>
    simp only [Option.getD_none, other, Json.Field.takes_of_iff, bind_eq_ok_iff]
    constructor
    · rintro ⟨hName, v, hValue, hRest⟩
      exact ⟨_, hName, ⟨trivial, v, hValue, rfl⟩, hRest⟩
    · rintro ⟨_, hName, ⟨-, v, hValue, rfl⟩, hRest⟩
      exact ⟨hName, v, hValue, hRest⟩
  | some field =>
    simp only [Option.getD_some, Json.Field.Takes]
    constructor
    · rintro ⟨hName, h⟩
      split at h
      · cases h
      · next hFilled =>
        obtain ⟨next, hFill, hRest⟩ := bind_eq_ok_iff.mp h
        exact ⟨next, hName, ⟨Bool.eq_false_iff.mpr hFilled, hFill⟩, hRest⟩
    · rintro ⟨next, hName, ⟨hFilled, hFill⟩, hRest⟩
      rw [if_neg (Bool.eq_false_iff.mp hFilled)]
      exact ⟨hName, bind_eq_ok_iff.mpr ⟨next, hFill, hRest⟩⟩

/-- Members that have each their own name may come in any order. -/
theorem readMembers_perm {members others : List (Quoted × Outline)} (h : members.Perm others)
    (hNames : (members.map fun member => member.1.read).Nodup)
    (hRead : readMembers depth members draft = .ok last) :
    readMembers depth others draft = .ok last := by
  induction h generalizing draft with
  | nil => exact hRead
  | cons member _ ih =>
    obtain ⟨name, next, hName, hTakes, hRest⟩ := readMembers_cons_iff.mp hRead
    have hFurther := ih (List.nodup_cons.mp hNames).2 hRest
    exact readMembers_cons_iff.mpr ⟨name, next, hName, hTakes, hFurther⟩
  | swap first second members =>
    obtain ⟨name, next, hName, hTakes, hRead⟩ := readMembers_cons_iff.mp hRead
    obtain ⟨name', further, hName', hTakes', hRest⟩ := readMembers_cons_iff.mp hRead
    have hDiffer : name ≠ name' := by
      rintro rfl
      rw [List.map_cons, List.map_cons, hName, hName'] at hNames
      exact (List.nodup_cons.mp hNames).1 List.mem_cons_self
    obtain ⟨between, hTakes', hTakes⟩ := (independent_fieldOf hDiffer).1 hTakes hTakes'
    exact readMembers_cons_iff.mpr ⟨name', between, hName', hTakes',
      readMembers_cons_iff.mpr ⟨name, further, hName, hTakes, hRest⟩⟩
  | trans hFirst _ ih ih' => exact ih' ((hFirst.map _).nodup_iff.mp hNames) (ih hNames hRead)

/-- The names that are taken for fields. -/
def fieldNames : List String :=
  ["newNonce", "newAccount", "newOrder", "revokeCert", "keyChange", "renewalInfo", "meta"]

theorem map_name_fields : fields.map (·.name) = fieldNames := rfl

theorem find?_eq_none_iff : fields.find? (·.name = name) = none ↔ name ∉ fieldNames := by
  simp [List.find?_eq_none, ← map_name_fields]

theorem spares_extra : ∀ field ∈ fields, field.Spares fun draft => some draft.extra := by
  simp [fields]

theorem extra_of_takes {part : Outline} (h : (fieldOf name).Takes depth part draft next) :
    name ∈ fieldNames ∧ next.extra = draft.extra ∨
      name ∉ fieldNames ∧ ∃ v, Value.reader depth part = .ok v ∧
        next.extra = Value.insert name v draft.extra := by
  unfold fieldOf at h
  cases hFound : fields.find? (·.name = name) with
  | none =>
    rw [hFound, Option.getD_none, other] at h
    obtain ⟨-, v, hValue, rfl⟩ := Json.Field.takes_of_iff.mp h
    exact .inr ⟨find?_eq_none_iff.mp hFound, v, hValue, rfl⟩
  | some field =>
    rw [hFound] at h
    obtain ⟨hField, rfl⟩ := Json.Field.name_of_find? hFound
    exact .inl ⟨List.mem_map_of_mem hField, Option.some.inj (spares_extra field hField h.2)⟩

theorem inOrder_extra {members : List (Quoted × Outline)} (hOrder : Value.InOrder draft.extra)
    (h : readMembers depth members draft = .ok last) : Value.InOrder last.extra := by
  induction members generalizing draft with
  | nil =>
    cases h
    exact hOrder
  | cons member members ih =>
    obtain ⟨name, next, -, hTakes, hRest⟩ := readMembers_cons_iff.mp h
    refine ih ?_ hRest
    rcases extra_of_takes hTakes with ⟨-, hSame⟩ | ⟨-, v, -, hInsert⟩
    · rwa [hSame]
    · rw [hInsert]
      exact hOrder.insert

/-- Whether the value of a member is kept under its name. -/
def Keeps (depth : Nat) (member : Quoted × Outline) (entry : String × Value) : Prop :=
  member.1.read = .ok entry.1 ∧ entry.1 ∉ fieldNames ∧ Value.reader depth member.2 = .ok entry.2

theorem mem_extra_iff {members : List (Quoted × Outline)} {entry : String × Value}
    (hNames : (members.map fun member => member.1.read).Nodup)
    (hNew : ∀ member ∈ members, ∀ entry ∈ draft.extra, member.1.read ≠ .ok entry.1)
    (h : readMembers depth members draft = .ok last) :
    entry ∈ last.extra ↔ entry ∈ draft.extra ∨ ∃ member ∈ members, Keeps depth member entry := by
  induction members generalizing draft with
  | nil =>
    cases h
    simp
  | cons member members ih =>
    obtain ⟨name, next, hName, hTakes, hRest⟩ := readMembers_cons_iff.mp h
    obtain ⟨hFirst, hFurther⟩ := List.nodup_cons.mp hNames
    obtain ⟨hNewFirst, hNewRest⟩ := List.forall_mem_cons.mp hNew
    rw [List.exists_mem_cons_iff]
    rcases extra_of_takes hTakes with ⟨hKnown, hSame⟩ | ⟨hOther, v, hValue, hInsert⟩
    · have hKeeps : ¬Keeps depth member entry := by
        rintro ⟨hRead, hUnknown, -⟩
        cases hName.symm.trans hRead
        exact hUnknown hKnown
      rw [or_iff_right hKeeps, ← hSame]
      exact ih hFurther (by rwa [hSame]) hRest
    · have hKeeps : Keeps depth member entry ↔ entry = (name, v) := by
        constructor
        · rintro ⟨hRead, -, hRead'⟩
          exact Prod.ext (Except.ok.inj (hRead.symm.trans hName))
            (Except.ok.inj (hRead'.symm.trans hValue))
        · rintro rfl
          exact ⟨hName, hOther, hValue⟩
      have hMem (entry : String × Value) :
          entry ∈ next.extra ↔ entry = (name, v) ∨ entry ∈ draft.extra := by
        rw [hInsert, (Value.perm_insert fun other hMem hSame => ?_).mem_iff, List.mem_cons]
        exact hNewFirst other hMem (hName.trans (congrArg Except.ok hSame.symm))
      rw [ih hFurther ?_ hRest, hMem, hKeeps, or_assoc, or_left_comm]
      intro later hLater entry hEntry hSame
      rcases (hMem entry).mp hEntry with rfl | hOld
      · exact hFirst (List.mem_map.mpr ⟨later, hLater, hSame.trans hName.symm⟩)
      · exact hNewRest later hLater entry hOld hSame

theorem ofBytes_eq_ok_iff {bytes : Bytes} {directory : Directory} :
    ofBytes bytes = .ok directory ↔ ∃ root,
      Outline.ofBytes bytes = (root, false) ∧ reader Json.maxDepth root = .ok directory := by
  rw [← Json.Reader.run_eq_ok_iff, ofBytes]
  cases reader.run bytes with
  | ok found => simp
  | error cause => exact iff_of_false nofun nofun

theorem object_of_reader {node : Outline} {directory : Directory}
    (h : reader depth node = .ok directory) : ∃ members, node = .object members .closed := by
  unfold reader at h
  split at h
  · next members ending =>
    obtain ⟨inner, -, h⟩ := bind_eq_ok_iff.mp h
    obtain ⟨draft, -, h⟩ := bind_eq_ok_iff.mp h
    obtain ⟨u, hEnding, -⟩ := bind_eq_ok_iff.mp h
    rw [Json.Ending.check_eq_ok_iff.mp hEnding]
    exact ⟨members, rfl⟩
  · exact absurd h Json.wrongType_ne_ok

/-- What is read of a directory is told by the draft that its members come to. -/
theorem exists_draft_of_reader {members : List (Quoted × Outline)} {ending : Json.Ending}
    {directory : Directory} (h : reader depth (.object members ending) = .ok directory) :
    ∃ draft, readMembers (depth - 1) members emptyDraft = .ok draft ∧
      directory.extra = draft.extra ∧
      ∀ others, readMembers (depth - 1) others emptyDraft = .ok draft →
        reader depth (.object others ending) = .ok directory := by
  obtain ⟨inner, hEnter, h⟩ := bind_eq_ok_iff.mp h
  obtain ⟨draft, hMembers, hDraft⟩ := bind_eq_ok_iff.mp h
  obtain ⟨-, rfl⟩ := Json.enter_eq_ok_iff.mp hEnter
  refine ⟨draft, hMembers, ?_, fun others hOthers => ?_⟩
  · obtain ⟨-, -, h⟩ := bind_eq_ok_iff.mp hDraft
    obtain ⟨newNonce, -, h⟩ := bind_eq_ok_iff.mp h
    obtain ⟨newAccount, -, h⟩ := bind_eq_ok_iff.mp h
    obtain ⟨newOrder, -, h⟩ := bind_eq_ok_iff.mp h
    cases h
    rfl
  · exact bind_eq_ok_iff.mpr ⟨_, hEnter, bind_eq_ok_iff.mpr ⟨draft, hOthers, hDraft⟩⟩

/-- An entry whose value is an address. -/
def link? : String × Value → Option (String × Url)
  | (name, .text s) => (Url.parse s).toOption.map fun url => (name, url)
  | _ => none

variable {entries : List (String × Value)} {found : List (String × Url)} {e : DirectoryError}

theorem link?_eq_some_iff {entry : String × Value} {name : String} {url : Url} :
    link? entry = some (name, url) ↔ ∃ s, entry = (name, .text s) ∧ Url.parse s = .ok url := by
  obtain ⟨other, v⟩ := entry
  cases v with
  | text s => cases hParse : Url.parse s <;> simp [link?, hParse, Except.toOption, and_comm]
  | null | bool | number | list | object => simp [link?]

/-- Whether an entry is an address if it is a text. -/
def Addresses (entry : String × Value) : Prop :=
  ∀ s, entry.2 = .text s → ∃ url, Url.parse s = .ok url

theorem addresses_of_parse {s : String} {url : Url} (h : Url.parse s = .ok url) :
    Addresses (name, .text s) := by
  rintro _ ⟨⟩
  exact ⟨url, h⟩

theorem addresses_of_ne {entry : String × Value} (h : ∀ name s, entry ≠ (name, .text s)) :
    Addresses entry :=
  fun s hText => (h entry.1 s (Prod.ext rfl hText)).elim

theorem endpoints_eq_ok_iff : endpoints entries = .ok found ↔
    (∀ entry ∈ entries, Addresses entry) ∧ found = entries.filterMap link? := by
  fun_induction endpoints entries generalizing found with
  | case1 => simp [eq_comm]
  | case2 name s entries cause hParse =>
    refine iff_of_false nofun fun h => ?_
    obtain ⟨url, hUrl⟩ := h.1 _ List.mem_cons_self s rfl
    cases hParse.symm.trans hUrl
  | case3 name s entries url hParse ih =>
    have hLink : link? (name, .text s) = some (name, url) :=
      link?_eq_some_iff.mpr ⟨s, rfl, hParse⟩
    rw [map_eq_ok_iff, List.filterMap_cons_some hLink, List.forall_mem_cons]
    constructor
    · rintro ⟨rest, hRest, rfl⟩
      obtain ⟨hSound, rfl⟩ := ih.mp hRest
      exact ⟨⟨addresses_of_parse hParse, hSound⟩, rfl⟩
    · rintro ⟨⟨-, hSound⟩, rfl⟩
      exact ⟨_, ih.mpr ⟨hSound, rfl⟩, rfl⟩
  | case4 entry entries hOther ih =>
    have hLink : link? entry = none := by
      cases hFound : link? entry with
      | none => rfl
      | some pair =>
        obtain ⟨s, rfl, -⟩ := link?_eq_some_iff.mp hFound
        exact absurd rfl (hOther _ s)
    rw [ih, List.filterMap_cons_none hLink, List.forall_mem_cons,
      and_iff_right (addresses_of_ne hOther)]

/-- The first entry whose value is a text but no address is reported. -/
theorem endpoints_eq_error (h : endpoints entries = .error e) :
    ∃ before name s cause after, entries = before ++ (name, .text s) :: after ∧
      (∀ entry ∈ before, Addresses entry) ∧ Url.parse s = .error cause ∧
      e = .invalidUrl name cause := by
  fun_induction endpoints entries with
  | case1 => cases h
  | case2 name s entries cause hParse =>
    cases h
    exact ⟨[], name, s, cause, entries, rfl, List.forall_mem_nil _, hParse, rfl⟩
  | case3 name s entries url hParse ih =>
    obtain ⟨before, name', s', cause, after, rfl, hBefore, hBad, rfl⟩ := ih (map_eq_error_iff.mp h)
    exact ⟨(name, .text s) :: before, name', s', cause, after, rfl,
      List.forall_mem_cons.mpr ⟨addresses_of_parse hParse, hBefore⟩, hBad, rfl⟩
  | case4 entry entries hOther ih =>
    obtain ⟨before, name', s', cause, after, rfl, hBefore, hBad, rfl⟩ := ih h
    exact ⟨entry :: before, name', s', cause, after, rfl,
      List.forall_mem_cons.mpr ⟨addresses_of_ne hOther, hBefore⟩, hBad, rfl⟩

/-- In the order of names that is the one with the smallest name. -/
theorem endpoints_smallest (hOrder : Value.InOrder entries) (h : endpoints entries = .error e) :
    ∃ name s cause, (name, .text s) ∈ entries ∧ Url.parse s = .error cause ∧
      e = .invalidUrl name cause ∧ ∀ other t cause', (other, .text t) ∈ entries →
        Url.parse t = .error cause' → other = name ∨ name < other := by
  obtain ⟨before, name, s, cause, after, rfl, hBefore, hBad, rfl⟩ := endpoints_eq_error h
  refine ⟨name, s, cause, List.mem_append_right _ List.mem_cons_self, hBad, rfl, ?_⟩
  intro other t cause' hOther hOtherBad
  rcases List.mem_append.mp hOther with hEarlier | hOther
  · obtain ⟨url, hUrl⟩ := hBefore _ hEarlier t rfl
    cases hUrl.symm.trans hOtherBad
  rcases List.mem_cons.mp hOther with hSame | hLater
  · exact .inl (congrArg Prod.fst hSame)
  · exact .inr ((List.pairwise_cons.mp (List.pairwise_append.mp hOrder).2.1).1 _ hLater)

/-- Whether a document is an object with the given members. -/
def IsObject (bytes : Bytes) (members : List (Quoted × Outline)) : Prop :=
  Outline.ofBytes bytes = (.object members .closed, false)

/-- Whether one of the members is a text under a name that is not the one of a field. -/
def Offers (members : List (Quoted × Outline)) (name s : String) : Prop :=
  ∃ key q, (key, .text q) ∈ members ∧ key.read = .ok name ∧ q.read = .ok s ∧
    name ∉ ["newNonce", "newAccount", "newOrder", "revokeCert", "keyChange", "renewalInfo", "meta"]

section

variable {bytes : Bytes} {members others : List (Quoted × Outline)} {directory : Directory}

theorem reader_of_isObject (object : IsObject bytes members) (h : ofBytes bytes = .ok directory) :
    reader Json.maxDepth (.object members .closed) = .ok directory := by
  obtain ⟨root, hRoot, hRead⟩ := ofBytes_eq_ok_iff.mp h
  cases object.symm.trans hRoot
  exact hRead

theorem inOrder_of_ofBytes (h : ofBytes bytes = .ok directory) : Value.InOrder directory.extra := by
  obtain ⟨root, -, hRead⟩ := ofBytes_eq_ok_iff.mp h
  obtain ⟨members, rfl⟩ := object_of_reader hRead
  obtain ⟨draft, hMembers, hExtra, -⟩ := exists_draft_of_reader hRead
  have hEmpty : Value.InOrder emptyDraft.extra := .nil
  rw [hExtra]
  exact inOrder_extra hEmpty hMembers

theorem mem_extra_iff_offers (object : IsObject bytes members)
    (hNames : (members.map fun member => member.1.read).Nodup)
    (h : ofBytes bytes = .ok directory) {name s : String} :
    (name, .text s) ∈ directory.extra ↔ Offers members name s := by
  obtain ⟨draft, hMembers, hExtra, -⟩ := exists_draft_of_reader (reader_of_isObject object h)
  have hNew : ∀ member ∈ members, ∀ entry ∈ emptyDraft.extra, member.1.read ≠ .ok entry.1 :=
    fun _ _ _ hEntry => absurd hEntry List.not_mem_nil
  have hEmpty : (name, .text s) ∉ emptyDraft.extra := List.not_mem_nil
  rw [hExtra, mem_extra_iff hNames hNew hMembers, or_iff_right hEmpty]
  constructor
  · rintro ⟨⟨key, node⟩, hMember, hName, hOther, hText⟩
    obtain ⟨q, rfl, hRead⟩ := Value.ofOutline_eq_text_iff.mp hText
    exact ⟨key, q, hMember, hName, hRead, hOther⟩
  · rintro ⟨key, q, hMember, hName, hRead, hOther⟩
    exact ⟨(key, .text q), hMember, hName, hOther, Value.ofOutline_eq_text_iff.mpr ⟨q, rfl, hRead⟩⟩

theorem addresses_extra_iff (object : IsObject bytes members)
    (hNames : (members.map fun member => member.1.read).Nodup)
    (h : ofBytes bytes = .ok directory) : (∀ entry ∈ directory.extra, Addresses entry) ↔
      ∀ name s, Offers members name s → ∃ url, Url.parse s = .ok url := by
  constructor
  · intro hAll name s offers
    exact hAll _ ((mem_extra_iff_offers object hNames h).mpr offers) s rfl
  · rintro hAll ⟨name, _⟩ hEntry s rfl
    exact hAll name s ((mem_extra_iff_offers object hNames h).mp hEntry)

theorem nodup_additionalEndpoints (h : ofBytes bytes = .ok directory)
    (hFound : directory.additionalEndpoints = .ok found) : (found.map Prod.fst).Nodup := by
  obtain ⟨-, rfl⟩ := endpoints_eq_ok_iff.mp hFound
  refine List.pairwise_map.mpr ((inOrder_of_ofBytes h).filterMap link? ?_)
  intro entry entry' hLt pair hPair pair' hPair'
  obtain ⟨s, rfl, -⟩ := link?_eq_some_iff.mp hPair
  obtain ⟨s', rfl, -⟩ := link?_eq_some_iff.mp hPair'
  exact Std.ne_of_lt hLt

theorem mem_additionalEndpoints_iff (object : IsObject bytes members)
    (hNames : (members.map fun member => member.1.read).Nodup)
    (h : ofBytes bytes = .ok directory) (hFound : directory.additionalEndpoints = .ok found)
    {name : String} {url : Url} :
    (name, url) ∈ found ↔ ∃ s, Offers members name s ∧ Url.parse s = .ok url := by
  obtain ⟨-, rfl⟩ := endpoints_eq_ok_iff.mp hFound
  rw [List.mem_filterMap]
  constructor
  · rintro ⟨entry, hEntry, hLink⟩
    obtain ⟨s, rfl, hParse⟩ := link?_eq_some_iff.mp hLink
    exact ⟨s, (mem_extra_iff_offers object hNames h).mp hEntry, hParse⟩
  · rintro ⟨s, offers, hParse⟩
    exact ⟨_, (mem_extra_iff_offers object hNames h).mpr offers,
      link?_eq_some_iff.mpr ⟨s, rfl, hParse⟩⟩

theorem ofBytes_perm {bytes' : Bytes} (object : IsObject bytes members)
    (object' : IsObject bytes' others) (hPerm : members.Perm others)
    (hNames : (members.map fun member => member.1.read).Nodup)
    (h : ofBytes bytes = .ok directory) : ofBytes bytes' = .ok directory := by
  obtain ⟨draft, hMembers, -, hReader⟩ := exists_draft_of_reader (reader_of_isObject object h)
  exact ofBytes_eq_ok_iff.mpr
    ⟨_, object', hReader others (readMembers_perm hPerm hNames hMembers)⟩

end

/-- A directory with three further texts of which two are no addresses, and one that is no text. -/
def listing : List (String × Value) := [
  ("newNonce", .text "a:n"), ("z", .text "a:z"), ("b", .text "b"), ("newAccount", .text "a:a"),
  ("a", .text ""), ("newOrder", .text "a:o"), ("n", .null)]

def written (members : List (String × Value)) : Bytes :=
  Utf8.encode (Value.object members).print

/-- The members as they stand in the document. -/
def outlines (members : List (String × Value)) : List (Quoted × Outline) :=
  members.map fun member => (.of member.1, member.2.outline)

theorem isObject_written {members : List (String × Value)}
    (h : ∀ member ∈ members, member.2.Fits (Json.maxDepth - 1)) :
    IsObject (written members) (outlines members) := by
  have hObject := Value.outline_print (v := .object members) ⟨by decide, Value.fitMembers_iff.mpr h⟩
  rwa [Value.outline, Value.memberOutlines_eq_map] at hObject

theorem fits_listing : ∀ member ∈ listing, member.2.Fits (Json.maxDepth - 1) := by
  simp [listing, Value.Fits]

theorem nodup_listing : ((outlines listing).map fun member => member.1.read).Nodup := by
  simp [outlines, listing, Quoted.read_of]

/-- The cause that keeps the further endpoints of a document from being told. -/
def refusal? (bytes : Bytes) : Option DirectoryError :=
  match ofBytes bytes with
  | .ok directory => match directory.additionalEndpoints with
    | .ok _ => none
    | .error e => some e
  | .error _ => none

end Directory

end Enrollment
