import Enrollment.Proofs.Json.Members
import Enrollment.Proofs.Json.Record
import Enrollment.Proofs.Json.Value

/-! # What readers of values come to

Whatever document is read as a value, the value has its numbers in sixty-four bits, its members in
order, and is nested less than the depth at which it was read. Without fractions it is the value
that its own print is read as.
-/

namespace Enrollment.Json

theorem extend_le (ds : List Nat) {s : Nat} (h : s ≤ maxWord) : (extend s ds).1 ≤ maxWord := by
  induction ds generalizing s with
  | nil => exact h
  | cons d ds ih =>
    rw [extend]
    dsimp only
    split
    · exact h
    · next hNext => exact ih (Nat.not_lt.mp hNext)

theorem Numeral.isWord_of_read {numeral : Numeral} {n : Int} (h : numeral.read = .ok (.int n)) :
    IsWord n := by
  have hValue : numeral.value? = some (.int n) := by
    unfold read at h
    split at h
    · next hValue => rw [hValue, Except.ok.inj h]
    · cases h
  have hWhole : (extend 0 numeral.whole).1 ≤ maxWord := extend_le _ (Nat.zero_le _)
  unfold value? at hValue
  dsimp only at hValue
  split at hValue
  · next hInteger =>
    obtain ⟨-, -, -, hSign⟩ := hInteger
    obtain rfl := Number.int.inj (Option.some.inj hValue)
    rw [IsWord]
    rw [maxWord] at hWhole ⊢
    split
    · next hNegative =>
      have hBounds := hSign.resolve_left (not_not_intro hNegative)
      omega
    · omega
  · -- every other number is a fraction
    exfalso
    split at hValue
    · simp at hValue
    · split at hValue
      · simp at hValue
      · split at hValue <;> cases hValue

namespace Value

/-- What can be read at some depth: integers of sixty-four bits, members in order, and containers
nested less than the depth. -/
def Readable : Nat → Value → Prop
  | _, .null | _, .bool _ | _, .text _ | _, .number (.real _) => True
  | _, .number (.int n) => IsWord n
  | depth, .list items => 1 < depth ∧ Items (depth - 1) items
  | depth, .object members => 1 < depth ∧ InOrder members ∧ Members (depth - 1) members
where
  Items : Nat → List Value → Prop
    | _, [] => True
    | depth, item :: items => Readable depth item ∧ Items depth items
  Members : Nat → List (String × Value) → Prop
    | _, [] => True
    | depth, (_, value) :: members => Readable depth value ∧ Members depth members

/-- Whether all numbers of a value are integers. -/
def isWhole : Value → Bool
  | .null | .bool _ | .text _ | .number (.int _) => true
  | .number (.real _) => false
  | .list items => allItems items
  | .object members => allMembers members
where
  allItems : List Value → Bool
    | [] => true
    | item :: items => isWhole item && allItems items
  allMembers : List (String × Value) → Bool
    | [] => true
    | (_, value) :: members => isWhole value && allMembers members

theorem readableMembers_iff {depth : Nat} {members : List (String × Value)} :
    Readable.Members depth members ↔ ∀ member ∈ members, member.2.Readable depth := by
  induction members with
  | nil => simp [Readable.Members]
  | cons member members ih => rw [Readable.Members, List.forall_mem_cons, ih]

mutual

theorem readable_of_ofOutline {depth : Nat} {v : Value} (node : Outline)
    (h : ofOutline depth node = .ok v) : v.Readable depth := by
  match node with
  | .null | .bool _ =>
    cases h
    trivial
  | .number numeral =>
    obtain ⟨n, hRead, hValue⟩ := bind_eq_ok_iff.mp h
    cases hValue
    cases n with
    | int n => exact Numeral.isWord_of_read hRead
    | real bits => trivial
  | .shortNumber | .broken _ => cases h
  | .text q =>
    obtain ⟨s, -, hValue⟩ := bind_eq_ok_iff.mp h
    cases hValue
    trivial
  | .list items ending =>
    obtain ⟨inner, hEnter, h⟩ := bind_eq_ok_iff.mp h
    obtain ⟨values, hItems, h⟩ := bind_eq_ok_iff.mp h
    obtain ⟨-, -, h⟩ := bind_eq_ok_iff.mp h
    cases h
    obtain ⟨hDepth, rfl⟩ := enter_eq_ok_iff.mp hEnter
    exact ⟨hDepth, readable_of_ofItems items hItems⟩
  | .object members ending =>
    obtain ⟨inner, hEnter, h⟩ := bind_eq_ok_iff.mp h
    obtain ⟨values, hMembers, h⟩ := bind_eq_ok_iff.mp h
    obtain ⟨-, -, h⟩ := bind_eq_ok_iff.mp h
    cases h
    obtain ⟨hDepth, rfl⟩ := enter_eq_ok_iff.mp hEnter
    have hValues := readable_of_namedValues members hMembers
    refine ⟨hDepth, inOrder_insertAll_nil values, readableMembers_iff.mpr fun member hMember => ?_⟩
    exact hValues member ((mem_of_mem_insertAll hMember).resolve_right List.not_mem_nil)

theorem readable_of_ofItems {depth : Nat} {values : List Value} (items : List Outline)
    (h : ofOutline.ofItems depth items = .ok values) : Readable.Items depth values := by
  match items with
  | [] =>
    cases h
    trivial
  | item :: items =>
    obtain ⟨value, hItem, h⟩ := bind_eq_ok_iff.mp h
    obtain ⟨rest, hItems, h⟩ := bind_eq_ok_iff.mp h
    cases h
    exact ⟨readable_of_ofOutline item hItem, readable_of_ofItems items hItems⟩

theorem readable_of_namedValues {depth : Nat} {values : List (String × Value)}
    (members : List (Quoted × Outline))
    (h : ofOutline.namedValues depth members = .ok values) :
    ∀ member ∈ values, member.2.Readable depth := by
  match members with
  | [] =>
    cases h
    exact List.forall_mem_nil _
  | (key, node) :: members =>
    obtain ⟨name, -, h⟩ := bind_eq_ok_iff.mp h
    obtain ⟨value, hValue, h⟩ := bind_eq_ok_iff.mp h
    obtain ⟨rest, hMembers, h⟩ := bind_eq_ok_iff.mp h
    cases h
    exact List.forall_mem_cons.mpr
      ⟨readable_of_ofOutline node hValue, readable_of_namedValues members hMembers⟩

end

/-- Only `null` is read as `null`. -/
theorem eq_null_of_ofOutline {depth : Nat} {node : Outline} (h : ofOutline depth node = .ok .null) :
    node = .null := by
  match node with
  | .null => rfl
  | .bool _ | .shortNumber | .broken _ => cases h
  | .number numeral =>
    obtain ⟨n, -, h⟩ := bind_eq_ok_iff.mp h
    cases h
  | .text q =>
    obtain ⟨s, -, h⟩ := bind_eq_ok_iff.mp h
    cases h
  | .list items ending | .object members ending =>
    obtain ⟨inner, -, h⟩ := bind_eq_ok_iff.mp h
    obtain ⟨values, -, h⟩ := bind_eq_ok_iff.mp h
    obtain ⟨-, -, h⟩ := bind_eq_ok_iff.mp h
    cases h

/-- Only a text is read as a text. -/
theorem ofOutline_eq_text_iff {depth : Nat} {node : Outline} {s : String} :
    ofOutline depth node = .ok (.text s) ↔ ∃ q, node = .text q ∧ q.read = .ok s := by
  constructor
  · intro h
    match node with
    | .null | .bool _ | .shortNumber | .broken _ => cases h
    | .number numeral =>
      obtain ⟨n, -, h⟩ := bind_eq_ok_iff.mp h
      cases h
    | .text q =>
      obtain ⟨found, hRead, h⟩ := bind_eq_ok_iff.mp h
      cases h
      exact ⟨q, rfl, hRead⟩
    | .list items ending | .object members ending =>
      obtain ⟨inner, -, h⟩ := bind_eq_ok_iff.mp h
      obtain ⟨values, -, h⟩ := bind_eq_ok_iff.mp h
      obtain ⟨-, -, h⟩ := bind_eq_ok_iff.mp h
      cases h
  · rintro ⟨q, rfl, hRead⟩
    exact bind_eq_ok_iff.mpr ⟨s, hRead, rfl⟩

theorem outline_ne_null {v : Value} (hNull : v ≠ .null) (whole : v.isWhole = true) :
    v.outline ≠ .null := by
  match v with
  | .null => exact absurd rfl hNull
  | .number (.real _) => cases whole
  | .number (.int _) | .bool _ | .text _ | .list _ | .object _ => exact nofun

theorem fitItems_iff {depth : Nat} {items : List Value} :
    Fits.FitItems depth items ↔ ∀ item ∈ items, item.Fits depth := by
  induction items with
  | nil => simp [Fits.FitItems]
  | cons item items ih => rw [Fits.FitItems, List.forall_mem_cons, ih]

theorem fitMembers_iff {depth : Nat} {members : List (String × Value)} :
    Fits.FitMembers depth members ↔ ∀ member ∈ members, member.2.Fits depth := by
  induction members with
  | nil => simp [Fits.FitMembers]
  | cons member members ih => rw [Fits.FitMembers, List.forall_mem_cons, ih]

theorem itemOutlines_eq_map (items : List Value) :
    outline.itemOutlines items = items.map outline := by
  induction items with
  | nil => rfl
  | cons item items ih => rw [outline.itemOutlines, ih, List.map_cons]

theorem memberOutlines_eq_map (members : List (String × Value)) :
    outline.memberOutlines members =
      members.map fun member => (Quoted.of member.1, member.2.outline) := by
  induction members with
  | nil => rfl
  | cons member members ih => rw [outline.memberOutlines, ih, List.map_cons]

mutual

/-- With integers only, a value can be printed where it can be read. -/
theorem Readable.fits {depth deeper : Nat} (hDepth : depth ≤ deeper) (v : Value)
    (h : v.Readable depth) (whole : v.isWhole = true) : v.Fits deeper := by
  match v, h, whole with
  | .null, _, _ | .bool _, _, _ | .text _, _, _ => trivial
  | .number (.int n), h, _ => exact h
  | .list items, h, whole =>
    exact ⟨Nat.lt_of_lt_of_le h.1 hDepth,
      Readable.fitItems (Nat.sub_le_sub_right hDepth 1) items h.2 whole⟩
  | .object members, h, whole =>
    exact ⟨Nat.lt_of_lt_of_le h.1 hDepth,
      Readable.fitMembers (Nat.sub_le_sub_right hDepth 1) members h.2.2 whole⟩

theorem Readable.fitItems {depth deeper : Nat} (hDepth : depth ≤ deeper) (items : List Value)
    (h : Readable.Items depth items) (whole : isWhole.allItems items = true) :
    Fits.FitItems deeper items := by
  match items, h, whole with
  | [], _, _ => trivial
  | item :: items, h, whole =>
    obtain ⟨hFirst, hRest⟩ := Bool.and_eq_true_iff.mp whole
    exact ⟨Readable.fits hDepth item h.1 hFirst, Readable.fitItems hDepth items h.2 hRest⟩

theorem Readable.fitMembers {depth deeper : Nat} (hDepth : depth ≤ deeper)
    (members : List (String × Value)) (h : Readable.Members depth members)
    (whole : isWhole.allMembers members = true) : Fits.FitMembers deeper members := by
  match members, h, whole with
  | [], _, _ => trivial
  | (name, value) :: members, h, whole =>
    obtain ⟨hFirst, hRest⟩ := Bool.and_eq_true_iff.mp whole
    exact ⟨Readable.fits hDepth value h.1 hFirst, Readable.fitMembers hDepth members h.2 hRest⟩

end

mutual

/-- What was read has its members in order. -/
theorem Readable.ordered_eq {depth : Nat} (v : Value) (h : v.Readable depth) : v.ordered = v := by
  match v, h with
  | .null, _ | .bool _, _ | .text _, _ | .number _, _ => rfl
  | .list items, h => rw [ordered, Readable.orderedItems_eq items h.2]
  | .object members, h =>
    have hOrder : InOrder ([] ++ members) := h.2.1
    rw [ordered, Readable.orderedMembers_eq members h.2.2]
    exact congrArg Value.object (insertAll_of_inOrder hOrder)

theorem Readable.orderedItems_eq {depth : Nat} (items : List Value)
    (h : Readable.Items depth items) : ordered.orderedItems items = items := by
  match items, h with
  | [], _ => rfl
  | item :: items, h =>
    rw [ordered.orderedItems, Readable.ordered_eq item h.1, Readable.orderedItems_eq items h.2]

theorem Readable.orderedMembers_eq {depth : Nat} (members : List (String × Value))
    (h : Readable.Members depth members) : ordered.orderedMembers members = members := by
  match members, h with
  | [], _ => rfl
  | (name, value) :: members, h =>
    rw [ordered.orderedMembers, Readable.ordered_eq value h.1,
      Readable.orderedMembers_eq members h.2]

end

end Value

end Enrollment.Json
