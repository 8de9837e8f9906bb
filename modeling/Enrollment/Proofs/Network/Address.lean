import Mathlib.Data.List.TakeWhile
import Enrollment.Network.Address

/-! # Addresses there and back

An address is read from its own text, whichever of its zero groups are left out in it.
-/

namespace Enrollment.Network

theorem value?_digitChar {d : Nat} (h : d < 16) : Hex.value? d.digitChar = some d := by
  have hAll : ∀ d < 16, Hex.value? (Nat.digitChar d) = some d := by decide
  exact hAll d h

section Digits

variable {radix : Nat}

theorem isHexDigit_of_mem_toDigits (hRadix : 1 < radix) (hHex : radix ≤ 16) {n : Nat} {c : Char}
    (h : c ∈ Nat.toDigits radix n) : isHexDigit c = true := by
  induction n using Nat.strongRecOn with
  | ind n ih =>
    by_cases hn : n < radix
    · rw [Nat.toDigits_of_lt_base hn, List.mem_singleton] at h
      rw [h, isHexDigit, value?_digitChar (by omega)]
      rfl
    · rw [Nat.toDigits_of_base_le hRadix (by omega), List.mem_append, List.mem_singleton] at h
      rcases h with h | rfl
      · exact ih (n / radix) (Nat.div_lt_self (by omega) hRadix) h
      · have hDigit : n % radix < radix := Nat.mod_lt _ (by omega)
        rw [isHexDigit, value?_digitChar (by omega)]
        rfl

theorem digitsValue_toDigits (hRadix : 1 < radix) (hHex : radix ≤ 16) (n : Nat) :
    digitsValue radix (Nat.toDigits radix n) = n := by
  induction n using Nat.strongRecOn with
  | ind n ih =>
    by_cases hn : n < radix
    · rw [Nat.toDigits_of_lt_base hn]
      simp [digitsValue, value?_digitChar (show n < 16 by omega)]
    · have hDigit : n % radix < radix := Nat.mod_lt _ (by omega)
      have hFront := ih (n / radix) (Nat.div_lt_self (by omega) hRadix)
      rw [digitsValue] at hFront
      rw [Nat.toDigits_of_base_le hRadix (by omega), digitsValue, List.foldl_append, hFront]
      simp [value?_digitChar (show n % radix < 16 by omega), Nat.div_add_mod']

end Digits

theorem takeWhile_append_stop {p : Char → Bool} {front rest : List Char}
    (hFront : ∀ c ∈ front, p c = true) (hRest : ∀ c ∈ rest.head?, p c = false) :
    (front ++ rest).takeWhile p = front ∧ (front ++ rest).dropWhile p = rest := by
  rw [List.takeWhile_append_of_pos hFront, List.dropWhile_append_of_pos hFront]
  cases rest with
  | nil => simp
  | cons c rest =>
    have hc : p c = false := hRest c rfl
    simp [hc]

theorem readByte_toDigits (n : UInt8) {rest : List Char}
    (hRest : ∀ c ∈ rest.head?, c.isDigit = false) :
    readByte (Nat.toDigits 10 n.toNat ++ rest) = some (n, rest) := by
  have hDigits : ∀ c ∈ Nat.toDigits 10 n.toNat, c.isDigit = true := fun c h =>
    Nat.isDigit_of_mem_toDigits (by decide) (by decide) h
  obtain ⟨hTake, hDrop⟩ := takeWhile_append_stop hDigits hRest
  have hLength : ∀ m < 256, (Nat.toDigits 10 m).length ≤ 3 ∧
      ((Nat.toDigits 10 m).head? = some '0' → (Nat.toDigits 10 m).length ≤ 1) := by decide +kernel
  obtain ⟨hShort, hZero⟩ := hLength n.toNat n.toNat_lt
  have hn := n.toNat_lt
  unfold readByte
  simp only [hTake, hDrop, digitsValue_toDigits (show 1 < 10 by decide) (by decide)]
  rw [if_neg]
  · simp
  · rintro (h | h | h | ⟨h, h'⟩)
    · exact Nat.toDigits_ne_nil h
    · omega
    · omega
    · have := hZero h
      omega

theorem readGroup_toDigits (g : UInt16) {rest : List Char}
    (hRest : ∀ c ∈ rest.head?, isHexDigit c = false) :
    readGroup (Nat.toDigits 16 g.toNat ++ rest) = some (g, rest) := by
  have hDigits : ∀ c ∈ Nat.toDigits 16 g.toNat, isHexDigit c = true := fun c h =>
    isHexDigit_of_mem_toDigits (by decide) (by decide) h
  obtain ⟨hTake, hDrop⟩ := takeWhile_append_stop hDigits hRest
  have hLength : (Nat.toDigits 16 g.toNat).length ≤ 4 :=
    (Nat.length_toDigits_le_iff (by decide) (by decide)).mpr g.toNat_lt
  unfold readGroup
  simp only [hTake, hDrop, digitsValue_toDigits (show 1 < 16 by decide) (by decide)]
  rw [if_neg]
  · simp
  · rintro (h | h)
    · exact Nat.toDigits_ne_nil h
    · omega

namespace V4

def chars (v : V4) : List Char :=
  Nat.toDigits 10 v.a.toNat ++ '.' :: (Nat.toDigits 10 v.b.toNat ++
    '.' :: (Nat.toDigits 10 v.c.toNat ++ '.' :: Nat.toDigits 10 v.d.toNat))

theorem toList_print (v : V4) : v.print.toList = v.chars := by
  simp [print, chars]

theorem readV4_chars (v : V4) : readV4 v.chars = some (v, []) := by
  have hDot : ∀ rest : List Char, ∀ c ∈ ('.' :: rest).head?, c.isDigit = false := by simp
  have hLast : readByte (Nat.toDigits 10 v.d.toNat ++ []) = some (v.d, []) :=
    readByte_toDigits v.d (by simp)
  rw [List.append_nil] at hLast
  simp [readV4, chars, readByte_toDigits _ (hDot _), readSeparator, hLast]

end V4

/-- An IPv4 address goes on with a dot after its first digits. -/
theorem readV4_eq_none {cs : List Char} (h : (cs.dropWhile Char.isDigit).head? ≠ some '.') :
    readV4 cs = none := by
  unfold readV4
  cases hByte : readByte cs with
  | none => rfl
  | some byte =>
    obtain ⟨a, rest⟩ := byte
    have hRest : rest = cs.dropWhile Char.isDigit := by
      unfold readByte at hByte
      simp only at hByte
      split at hByte
      · cases hByte
      · cases hByte
        rfl
    have hSeparator : readSeparator '.' rest = none := by
      cases rest with
      | nil => rfl
      | cons c rest =>
        rw [readSeparator, if_neg]
        rintro rfl
        rw [← hRest] at h
        exact h rfl
    simp [hSeparator]

theorem readV4_colon {cs : List Char} (h : ∀ c ∈ cs.head?, c = ':') : readV4 cs = none := by
  refine readV4_eq_none ?_
  cases cs with
  | nil => simp
  | cons c cs =>
    obtain rfl := h c rfl
    simp

theorem isHexDigit_head? {cs : List Char} (h : ∀ c ∈ cs.head?, c = ':') :
    ∀ c ∈ cs.head?, isHexDigit c = false := by
  intro c hc
  rw [h c hc]
  decide

theorem readGroup_colon {cs : List Char} (h : ∀ c ∈ cs.head?, c = ':') : readGroup cs = none := by
  obtain ⟨hTake, -⟩ := takeWhile_append_stop (List.forall_mem_nil _) (isHexDigit_head? h)
  rw [readGroup, show cs.takeWhile isHexDigit = [] from hTake]
  simp

/-- The digits of a group are not taken for the start of an IPv4 address. -/
theorem readV4_group (g : UInt16) {rest : List Char} (hRest : ∀ c ∈ rest.head?, c = ':') :
    readV4 (Nat.toDigits 16 g.toNat ++ rest) = none := by
  refine readV4_eq_none ?_
  rw [List.dropWhile_append]
  split
  · cases rest with
    | nil => simp
    | cons c rest =>
      obtain rfl := hRest c rfl
      simp
  · next hDigits =>
    intro hHead
    have hMem : '.' ∈ (Nat.toDigits 16 g.toNat).dropWhile Char.isDigit := by
      cases hDrop : (Nat.toDigits 16 g.toNat).dropWhile Char.isDigit with
      | nil => simp [hDrop] at hDigits
      | cons c cs =>
        rw [hDrop] at hHead
        obtain rfl : c = '.' := by simpa using hHead
        exact List.mem_cons_self
    have hHex := isHexDigit_of_mem_toDigits (by decide) (by decide)
      ((List.dropWhile_sublist _).subset hMem)
    exact absurd hHex (by decide)

def colonGroups (groups : List UInt16) : List Char :=
  groups.flatMap fun g => ':' :: Nat.toDigits 16 g.toNat

def joinedGroups : List UInt16 → List Char
  | [] => []
  | g :: groups => Nat.toDigits 16 g.toNat ++ colonGroups groups

theorem toList_groupsText (groups : List UInt16) :
    (groupsText groups).toList = joinedGroups groups := by
  rw [groupsText, String.toList_intercalate]
  induction groups with
  | nil => rfl
  | cons g groups ih =>
    cases groups with
    | nil => simp [joinedGroups, colonGroups, groupText]
    | cons g' groups =>
      simp only [List.map_cons] at ih ⊢
      rw [List.intercalate_cons_cons, ih]
      simp [joinedGroups, colonGroups, groupText]

/-- Whether a text does not go on with another group. -/
def EndsGroups (rest : List Char) : Prop := rest = [] ∨ ∃ after, rest = ':' :: ':' :: after

variable {rest : List Char}

theorem EndsGroups.head? (h : EndsGroups rest) : ∀ c ∈ rest.head?, c = ':' := by
  rcases h with rfl | ⟨after, rfl⟩ <;> simp

theorem head?_colonGroups (groups : List UInt16) (hRest : ∀ c ∈ rest.head?, c = ':') :
    ∀ c ∈ (colonGroups groups ++ rest).head?, c = ':' := by
  cases groups with
  | nil => exact hRest
  | cons g groups => simp [colonGroups]

theorem readGroups_group (first : Bool) (g : UInt16) (room : Nat) {cs : List Char}
    (hStart : (if first then some cs else readSeparator ':' cs) =
      some (Nat.toDigits 16 g.toNat ++ rest)) (hRest : ∀ c ∈ rest.head?, c = ':') :
    readGroups first (room + 1) cs = ⟨g :: (readGroups false room rest).groups,
      (readGroups false room rest).mixed, (readGroups false room rest).rest⟩ := by
  have hGroup := readGroup_toDigits g (isHexDigit_head? hRest)
  simp only [readGroups, hStart, Option.bind_some, readV4_group g hRest, hGroup, ite_self]

theorem readGroups_end {first : Bool} {room : Nat} {cs : List Char}
    (hStart : ∀ text, (if first then some cs else readSeparator ':' cs) = some text →
      ∀ c ∈ text.head?, c = ':') : readGroups first room cs = ⟨[], false, cs⟩ := by
  cases room with
  | zero => rfl
  | succ room =>
    simp only [readGroups]
    generalize (if first then some cs else readSeparator ':' cs) = start at hStart ⊢
    cases start with
    | none => simp
    | some text =>
      have hColon := hStart text rfl
      simp [readV4_colon hColon, readGroup_colon hColon]

theorem readGroups_colonGroups {groups : List UInt16} {room : Nat} (hRoom : groups.length ≤ room)
    (hRest : EndsGroups rest) :
    readGroups false room (colonGroups groups ++ rest) = ⟨groups, false, rest⟩ := by
  induction groups generalizing room with
  | nil =>
    refine readGroups_end ?_
    rcases hRest with rfl | ⟨after, rfl⟩ <;> simp [colonGroups, readSeparator]
  | cons g groups ih =>
    cases room with
    | zero => cases hRoom
    | succ room =>
      have hStart : readSeparator ':' (colonGroups (g :: groups) ++ rest) =
          some (Nat.toDigits 16 g.toNat ++ (colonGroups groups ++ rest)) := by
        simp [colonGroups, readSeparator]
      rw [readGroups_group false g room ((if_neg Bool.false_ne_true).trans hStart)
        (head?_colonGroups groups hRest.head?), ih (Nat.le_of_succ_le_succ hRoom)]

theorem readGroups_joinedGroups {groups : List UInt16} {room : Nat} (hRoom : groups.length ≤ room)
    (hRest : EndsGroups rest) :
    readGroups true room (joinedGroups groups ++ rest) = ⟨groups, false, rest⟩ := by
  cases groups with
  | nil =>
    refine readGroups_end ?_
    rintro text hText
    cases hText
    exact hRest.head?
  | cons g groups =>
    cases room with
    | zero => cases hRoom
    | succ room =>
      have hStart : some (joinedGroups (g :: groups) ++ rest) =
          some (Nat.toDigits 16 g.toNat ++ (colonGroups groups ++ rest)) := by
        simp [joinedGroups]
      rw [readGroups_group true g room hStart (head?_colonGroups groups hRest.head?),
        readGroups_colonGroups (Nat.le_of_succ_le_succ hRoom) hRest]

/-- An IPv4 address takes the place of the last two groups. -/
theorem readGroups_v4 (v : V4) (room : Nat) :
    readGroups false (room + 2) (':' :: v.chars) = ⟨v.groups, true, []⟩ := by
  simp [readGroups, readSeparator, v.readV4_chars]

theorem V6.ofGroups?_groups (v : V6) : V6.ofGroups? v.groups = some v := by
  rw [V6.ofGroups?, dif_pos v.length_eq]

/-- The start of an IPv6 address is not taken for an IPv4 address. -/
theorem readV4_joinedGroups (groups : List UInt16) (hRest : ∀ c ∈ rest.head?, c = ':') :
    readV4 (joinedGroups groups ++ rest) = none := by
  cases groups with
  | nil => exact readV4_colon hRest
  | cons g groups =>
    rw [joinedGroups, List.append_assoc]
    exact readV4_group g (head?_colonGroups groups hRest)

theorem readV6_joinedGroups (v : V6) : readV6 (joinedGroups v.groups) = some (v, []) := by
  have hGroups : readGroups true 8 (joinedGroups v.groups ++ []) = ⟨v.groups, false, []⟩ :=
    readGroups_joinedGroups (Nat.le_of_eq v.length_eq) (.inl rfl)
  rw [List.append_nil] at hGroups
  simp [readV6, hGroups, v.length_eq, v.ofGroups?_groups]

/-- Where groups have been left out there are as many zeros as are missing. -/
theorem readV6_gap {front back : List UInt16} {text : List Char} {mixed : Bool} {v : V6}
    (hFront : front.length < 8)
    (hText : readGroups true (7 - front.length) text = ⟨back, mixed, []⟩)
    (hGroups : front ++ List.replicate (8 - front.length - back.length) 0 ++ back = v.groups) :
    readV6 (joinedGroups front ++ ':' :: ':' :: text) = some (v, []) := by
  have hHead : readGroups true 8 (joinedGroups front ++ ':' :: ':' :: text) =
      ⟨front, false, ':' :: ':' :: text⟩ :=
    readGroups_joinedGroups (Nat.le_of_lt hFront) (.inr ⟨text, rfl⟩)
  have hFull : front.length ≠ 8 := by omega
  simp only [List.append_assoc] at hGroups
  simp [readV6, hHead, hFull, readSeparator, hText, hGroups, v.ofGroups?_groups]

theorem take_zeroRun (groups : List UInt16) :
    groups.take (zeroRun groups) = List.replicate (zeroRun groups) 0 := by
  rw [zeroRun, ← List.prefix_iff_eq_take.mp (List.takeWhile_prefix _), List.eq_replicate_iff]
  exact ⟨rfl, fun g hg => by simpa using List.mem_takeWhile_imp hg⟩

/-- A run lies within the groups, and there are only zeros in it. -/
theorem longestRun_spec (start : Nat) (groups : List UInt16) :
    start ≤ (longestRun start groups).1 ∧
      (longestRun start groups).1 - start + (longestRun start groups).2 ≤ groups.length ∧
      (groups.drop ((longestRun start groups).1 - start)).take (longestRun start groups).2 =
        List.replicate (longestRun start groups).2 0 := by
  induction groups generalizing start with
  | nil => simp [longestRun]
  | cons g groups ih =>
    obtain ⟨hStart, hLength, hZeros⟩ := ih (start + 1)
    simp only [longestRun]
    split
    · refine ⟨Nat.le_refl start, ?_, ?_⟩
      · rw [Nat.sub_self, Nat.zero_add]
        exact (List.takeWhile_sublist _).length_le
      · rw [Nat.sub_self, List.drop_zero, take_zeroRun]
    · refine ⟨by omega, ?_, ?_⟩
      · rw [List.length_cons]
        omega
      · have hDrop : (longestRun (start + 1) groups).1 - start =
            (longestRun (start + 1) groups).1 - (start + 1) + 1 := by omega
        rw [hDrop, List.drop_succ_cons, hZeros]

theorem readV6_compressed (v : V6) : readV6 (compressed v.groups).toList = some (v, []) := by
  obtain ⟨-, hLength, hZeros⟩ := longestRun_spec 0 v.groups
  rw [compressed]
  generalize longestRun 0 v.groups = run at hLength hZeros ⊢
  obtain ⟨start, size⟩ := run
  simp only [Nat.sub_zero, v.length_eq] at hLength hZeros ⊢
  split
  · next hSize =>
    let front := v.groups.take start
    let back := v.groups.drop (start + size)
    have hFront : front.length = start := by
      rw [List.length_take, v.length_eq]
      omega
    have hBack : back.length = 8 - (start + size) := by
      rw [List.length_drop, v.length_eq]
    have hText : (groupsText front ++ "::" ++ groupsText back).toList =
        joinedGroups front ++ ':' :: ':' :: joinedGroups back := by
      simp [toList_groupsText]
    have hRead : readGroups true (7 - front.length) (joinedGroups back ++ []) =
        ⟨back, false, []⟩ := readGroups_joinedGroups (by omega) (.inl rfl)
    rw [List.append_nil] at hRead
    have hGap : 8 - front.length - back.length = size := by omega
    rw [hText]
    refine readV6_gap (by omega) hRead ?_
    calc
      front ++ List.replicate (8 - front.length - back.length) 0 ++ back
      _ = v.groups.take start ++ (v.groups.drop start).take size ++ back := by rw [hGap, hZeros]
      _ = v.groups.take (start + size) ++ v.groups.drop (start + size) := by rw [List.take_add]
      _ = v.groups := List.take_append_drop _ _
  · rw [toList_groupsText, readV6_joinedGroups]

theorem V6.groups_of_mapped {v : V6} {v4 : V4} (h : v.mapped? = some v4) :
    v.groups = [0, 0, 0, 0, 0, 0xFFFF] ++ v4.groups := by
  have hBytes (n : UInt16) : n = n / 256 % 256 * 256 + n % 256 % 256 := by
    refine UInt16.toNat_inj.mp ?_
    have hn := n.toNat_lt
    simp only [UInt16.toNat_add, UInt16.toNat_mul, UInt16.toNat_mod, UInt16.toNat_div,
      UInt16.reduceToNat]
    omega
  unfold V6.mapped? at h
  split at h
  · next high low hGroups =>
    cases h
    simp [hGroups, V4.groups, ← hBytes]
  · cases h

theorem readV6_mapped {v : V6} {v4 : V4} (h : v.mapped? = some v4) :
    readV6 ("::ffff:" ++ v4.print).toList = some (v, []) := by
  have hText : ("::ffff:" ++ v4.print).toList =
      joinedGroups [] ++ ':' :: ':' :: (Nat.toDigits 16 (0xFFFF : UInt16).toNat ++
        ':' :: v4.chars) := by
    rw [String.toList_append, v4.toList_print]
    rfl
  have hRead : readGroups true 7 (Nat.toDigits 16 (0xFFFF : UInt16).toNat ++ ':' :: v4.chars) =
      ⟨0xFFFF :: v4.groups, true, []⟩ := by
    rw [readGroups_group true 0xFFFF 6 rfl (by simp), readGroups_v4]
  rw [hText]
  refine readV6_gap (by decide) hRead ?_
  rw [V6.groups_of_mapped h]
  rfl

/-- An IPv6 address is written with groups at its start, after which there is a colon. -/
theorem exists_joinedGroups (v : V6) : ∃ groups rest,
    v.print.toList = joinedGroups groups ++ rest ∧ ∀ c ∈ rest.head?, c = ':' := by
  unfold V6.print
  split
  · next v4 _ => exact ⟨[], "::ffff:".toList ++ v4.print.toList, by simp [joinedGroups], by simp⟩
  · unfold compressed
    split
    split
    · next start size _ _ =>
      refine ⟨v.groups.take start, ':' :: ':' :: joinedGroups (v.groups.drop (start + size)), ?_,
        by simp⟩
      simp [toList_groupsText]
    · exact ⟨v.groups, [], by simp [toList_groupsText], by simp⟩

namespace Address

theorem parse?_print_v6 (v : V6) : parse? v.print = some (.v6 v) := by
  have hV6 : readV6 v.print.toList = some (v, []) := by
    unfold V6.print
    split
    · next hMapped => exact readV6_mapped hMapped
    · exact readV6_compressed v
  have hV4 : readV4 v.print.toList = none := by
    obtain ⟨groups, rest, hText, hRest⟩ := exists_joinedGroups v
    rw [hText]
    exact readV4_joinedGroups groups hRest
  simp [parse?, hV4, hV6]

/-- An address is read from its text. -/
theorem parse?_print (address : Address) : parse? address.print = some address := by
  cases address with
  | v4 v => simp [parse?, print, v.toList_print, v.readV4_chars]
  | v6 v => exact parse?_print_v6 v

end Address

end Enrollment.Network
