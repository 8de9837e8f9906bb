import Enrollment.Proofs.Codec.Base64
import Enrollment.Proofs.Text.Utf8Read

/-! # Base64 is read in one form only

Each byte string has one text in an alphabet: what is read as some bytes is what those bytes are
written as, with its padding and with nothing in the unused bits of the last symbol.
-/

namespace Enrollment.Base64

variable {alphabet : Alphabet} {start : Nat} {bytes out : Bytes}

theorem byte_of_value? {b : UInt8} {v : Nat} (h : alphabet.value? b = some v) :
    v < 64 ∧ b = alphabet.byte v := by
  have hAll : ∀ alphabet, ∀ n < 256, ∀ v ∈ Alphabet.value? alphabet n.toUInt8,
      v < 64 ∧ n.toUInt8 = alphabet.byte v := by
    intro alphabet
    cases alphabet <;> decide +kernel
  have hByte : b.toNat.toUInt8 = b := UInt8.ofNat_toNat
  have hBoth := hAll alphabet b.toNat b.toNat_lt v
  rw [hByte] at hBoth
  exact hBoth h

/-- What holds of the symbols and of the padding holds of all that is written. -/
theorem forall_mem_encodeBytes {P : UInt8 → Prop} (hPad : P pad)
    (hByte : ∀ n < 64, P (alphabet.byte n)) (bytes : Bytes) :
    ∀ b ∈ encodeBytes alphabet bytes, P b := by
  have hPads (pads : Bytes) (h : ∀ b ∈ pads, b = pad) :
      ∀ b ∈ if alphabet.padded then pads else [], P b := by
    intro b hb
    split at hb
    · exact h b hb ▸ hPad
    · cases hb
  fun_induction encodeBytes alphabet bytes with
  | case1 => simp
  | case2 a =>
    have ha := a.toNat_lt
    simp only [List.cons_append, List.nil_append, List.forall_mem_cons]
    exact ⟨hByte _ (by omega), hByte _ (by omega), hPads _ (by simp)⟩
  | case3 a b =>
    have ha := a.toNat_lt
    have hb := b.toNat_lt
    simp only [List.cons_append, List.nil_append, List.forall_mem_cons]
    exact ⟨hByte _ (by omega), hByte _ (by omega), hByte _ (by omega), hPads _ (by simp)⟩
  | case4 a b c rest ih =>
    have ha := a.toNat_lt
    have hb := b.toNat_lt
    have hc := c.toNat_lt
    simp only [List.forall_mem_cons]
    exact ⟨hByte _ (by omega), hByte _ (by omega), hByte _ (by omega), hByte _ (by omega), ih⟩

theorem eq_bytes_of_values {group : Bytes} {symbols : List Nat}
    (h : values alphabet start group = .ok symbols) :
    group = symbols.map alphabet.byte ∧ ∀ v ∈ symbols, v < 64 := by
  induction group generalizing start symbols with
  | nil =>
    cases h
    exact ⟨rfl, nofun⟩
  | cons b rest ih =>
    rw [values] at h
    split at h
    · cases h
    · next v hValue =>
      obtain ⟨others, hRest, rfl⟩ : ∃ others, values alphabet (start + 1) rest = .ok others ∧
          v :: others = symbols := by
        cases hRest : values alphabet (start + 1) rest with
        | error e =>
          rw [hRest] at h
          cases h
        | ok others =>
          rw [hRest] at h
          exact ⟨others, rfl, Except.ok.inj h⟩
      obtain ⟨hv, rfl⟩ := byte_of_value? hValue
      obtain ⟨hGroup, hOthers⟩ := ih hRest
      rw [hGroup]
      exact ⟨rfl, List.forall_mem_cons.mpr ⟨hv, hOthers⟩⟩

/-- The symbols of the last group stand before its padding. -/
theorem eq_append_of_lastSymbols {pads total : Nat} {symbols all : List Nat}
    (h : lastSymbols alphabet start pads symbols bytes = .ok (all, total)) :
    ∃ news, bytes = news.map alphabet.byte ++ List.replicate (total - pads) pad ∧
      all = symbols.reverse ++ news ∧ pads ≤ total ∧ (∀ v ∈ news, v < 64) ∧
      (0 < pads → news = []) := by
  induction bytes generalizing pads symbols with
  | nil =>
    cases h
    exact ⟨[], by simp, by simp, Nat.le_refl _, nofun, fun _ => rfl⟩
  | cons b rest ih =>
    rw [lastSymbols] at h
    split at h
    · next hPad =>
      split at h
      · cases h
      · obtain ⟨news, rfl, rfl, hTotal, hNews, hNone⟩ := ih h
        obtain rfl := hNone (Nat.succ_pos pads)
        refine ⟨[], ?_, rfl, by omega, nofun, fun _ => rfl⟩
        rw [hPad, List.map_nil, List.nil_append, List.nil_append, ← List.replicate_succ]
        congr
        omega
    split at h
    · cases h
    · next hPads =>
      split at h
      · cases h
      · next v hValue =>
        obtain ⟨hv, rfl⟩ := byte_of_value? hValue
        obtain ⟨news, rfl, rfl, hTotal, hNews, -⟩ := ih h
        exact ⟨v :: news, rfl, by simp, hTotal, List.forall_mem_cons.mpr ⟨hv, hNews⟩,
          fun hPositive => absurd hPositive hPads⟩

/-- The bytes of a last group, none of which are left in the unused bits of its symbols. -/
inductive Ends : List Nat → Bytes → Prop where
  | one {v w : Nat} (spare : w % 16 = 0) : Ends [v, w] [(v * 4 + w / 16).toUInt8]
  | two {v w x : Nat} (spare : x % 4 = 0) :
    Ends [v, w, x] [(v * 4 + w / 16).toUInt8, (w % 16 * 16 + x / 4).toUInt8]
  | three (v w x y : Nat) : Ends [v, w, x, y] (group v w x y)

theorem ends_of_lastGroup {symbols : List Nat} {pads : Nat} (hNe : bytes ≠ [])
    (hSymbols : lastSymbols alphabet start 0 [] bytes = .ok (symbols, pads))
    (h : lastGroup alphabet start bytes = .ok out) :
    (if alphabet.padded then (pads + symbols.length) % 4 = 0 else pads = 0) ∧
      Ends symbols out := by
  unfold lastGroup at h
  simp only [hSymbols, bind, Except.bind, pure, Except.pure, throw, throwThe, MonadExceptOf.throw,
    List.isEmpty_iff, hNe, if_false] at h
  have hEnds : Ends symbols out := by
    repeat' split at h
    all_goals cases h
    all_goals constructor
    all_goals exact Decidable.not_not.mp ‹_›
  refine ⟨?_, hEnds⟩
  split
  · next hPadded =>
    rw [if_pos hPadded] at h
    refine Decidable.not_not.mp fun hLength => ?_
    rw [if_pos hLength] at h
    split at h <;> cases h
  · next hPadded =>
    rw [if_neg hPadded] at h
    refine Nat.eq_zero_of_not_pos fun hPads => ?_
    rw [if_pos hPads] at h
    split at h <;> cases h

theorem encodeBytes_group {v w x y : Nat} (hv : v < 64) (hw : w < 64) (hx : x < 64) (hy : y < 64)
    (rest : Bytes) : encodeBytes alphabet (group v w x y ++ rest) =
      [v, w, x, y].map alphabet.byte ++ encodeBytes alphabet rest := by
  have hHigh : v * 4 + w / 16 < 256 := by omega
  have hMiddle : w % 16 * 16 + x / 4 < 256 := by omega
  have hLow : x % 4 * 64 + y < 256 := by omega
  rw [group, List.cons_append, List.cons_append, List.cons_append, List.nil_append, encodeBytes,
    UInt8.toNat_ofNat_of_lt' hHigh, UInt8.toNat_ofNat_of_lt' hMiddle,
    UInt8.toNat_ofNat_of_lt' hLow]
  have hFirst : (v * 4 + w / 16) / 4 = v := by omega
  have hSecond : (v * 4 + w / 16) % 4 * 16 + (w % 16 * 16 + x / 4) / 16 = w := by omega
  have hThird : (w % 16 * 16 + x / 4) % 16 * 4 + (x % 4 * 64 + y) / 64 = x := by omega
  have hFourth : (x % 4 * 64 + y) % 64 = y := by omega
  rw [hFirst, hSecond, hThird, hFourth]
  rfl

theorem Ends.encodeBytes_eq {symbols : List Nat} (h : Ends symbols out)
    (hSymbols : ∀ v ∈ symbols, v < 64) : encodeBytes alphabet out =
      symbols.map alphabet.byte ++
        if alphabet.padded then List.replicate (4 - symbols.length) pad else [] := by
  cases h with
  | @one v w spare =>
    obtain ⟨hv, hw, -⟩ : v < 64 ∧ w < 64 ∧ True := by simpa using hSymbols
    have hByte : v * 4 + w / 16 < 256 := by omega
    rw [encodeBytes, UInt8.toNat_ofNat_of_lt' hByte]
    have hFirst : (v * 4 + w / 16) / 4 = v := by omega
    have hSecond : (v * 4 + w / 16) % 4 * 16 = w := by omega
    rw [hFirst, hSecond]
    rfl
  | @two v w x spare =>
    obtain ⟨hv, hw, hx⟩ : v < 64 ∧ w < 64 ∧ x < 64 := by simpa using hSymbols
    have hHigh : v * 4 + w / 16 < 256 := by omega
    have hLow : w % 16 * 16 + x / 4 < 256 := by omega
    rw [encodeBytes, UInt8.toNat_ofNat_of_lt' hHigh, UInt8.toNat_ofNat_of_lt' hLow]
    have hFirst : (v * 4 + w / 16) / 4 = v := by omega
    have hSecond : (v * 4 + w / 16) % 4 * 16 + (w % 16 * 16 + x / 4) / 16 = w := by omega
    have hThird : (w % 16 * 16 + x / 4) % 16 * 4 = x := by omega
    rw [hFirst, hSecond, hThird]
    rfl
  | three v w x y =>
    obtain ⟨hv, hw, hx, hy⟩ : v < 64 ∧ w < 64 ∧ x < 64 ∧ y < 64 := by simpa using hSymbols
    have hGroup : encodeBytes alphabet (group v w x y ++ []) = _ :=
      encodeBytes_group hv hw hx hy []
    rw [List.append_nil] at hGroup
    rw [hGroup]
    cases alphabet <;> rfl

theorem eq_encodeBytes_of_lastGroup (hShort : bytes.length ≤ 4)
    (h : lastGroup alphabet start bytes = .ok out) : bytes = encodeBytes alphabet out := by
  by_cases hNe : bytes = []
  · subst hNe
    cases h
    rfl
  obtain ⟨⟨symbols, pads⟩, hSymbols⟩ :
      ∃ pair, lastSymbols alphabet start 0 [] bytes = .ok pair := by
    cases hSymbols : lastSymbols alphabet start 0 [] bytes with
    | error e =>
      rw [lastGroup, hSymbols] at h
      cases h
    | ok pair => exact ⟨pair, rfl⟩
  obtain ⟨news, rfl, rfl, -, hNews, -⟩ := eq_append_of_lastSymbols hSymbols
  obtain ⟨hPads, hEnds⟩ := ends_of_lastGroup hNe hSymbols h
  rw [hEnds.encodeBytes_eq hNews]
  simp only [Nat.sub_zero, List.length_append, List.length_map, List.length_replicate] at hShort ⊢
  congr
  split at hPads
  · next hPadded =>
    rw [if_pos hPadded]
    have hLength : 0 < symbols.length := by cases hEnds <;> exact Nat.succ_pos _
    congr
    omega
  · next hPadded => rw [if_neg hPadded, hPads, List.replicate_zero]

theorem eq_encodeBytes_of_decodeFrom (h : decodeFrom alphabet start bytes = .ok out) :
    bytes = encodeBytes alphabet out := by
  fun_induction decodeFrom alphabet start bytes generalizing out with
  | case1 start a b c d e rest ih =>
    cases hValues : values alphabet start [a, b, c, d] with
    | error fault =>
      rw [hValues] at h
      cases h
    | ok symbols =>
      obtain ⟨hGroup, hSymbols⟩ := eq_bytes_of_values hValues
      have hLength : symbols.length = 4 := by simpa using congrArg List.length hGroup.symm
      obtain ⟨v, w, x, y, rfl⟩ : ∃ v w x y, symbols = [v, w, x, y] := by
        match symbols, hLength with
        | [v, w, x, y], _ => exact ⟨v, w, x, y, rfl⟩
      cases hRest : decodeFrom alphabet (start + 4) (e :: rest) with
      | error fault =>
        rw [hValues, hRest] at h
        cases h
      | ok others =>
        rw [hValues, hRest] at h
        cases h
        obtain ⟨hv, hw, hx, hy⟩ : v < 64 ∧ w < 64 ∧ x < 64 ∧ y < 64 := by simpa using hSymbols
        rw [encodeBytes_group hv hw hx hy, ← hGroup, ← ih hRest]
        rfl
  | case2 start bytes hShort =>
    refine eq_encodeBytes_of_lastGroup (Nat.not_lt.mp fun hLong => ?_) h
    match bytes, hLong with
    | a :: b :: c :: d :: e :: rest, _ => exact hShort a b c d e rest rfl

theorem decode_eq_ok_iff : decode alphabet bytes = .ok out ↔ bytes = encodeBytes alphabet out := by
  constructor
  · intro h
    unfold decode at h
    split at h
    · cases h
    · exact eq_encodeBytes_of_decodeFrom h
  · rintro rfl
    exact decode_encodeBytes alphabet out

/-- A text is read as some bytes exactly if it is what those bytes are written as. -/
theorem decode_utf8_eq_ok_iff {text : String} :
    decode alphabet (Utf8.encode text) = .ok out ↔ text = encode alphabet out := by
  rw [decode_eq_ok_iff, ← utf8_encode]
  constructor
  · exact Utf8.encode_injective
  · rintro rfl
    rfl

theorem decodeUrl_eq_ok_iff {text : String} : decodeUrl text = .ok out ↔ text = encodeUrl out :=
  decode_utf8_eq_ok_iff

/-- What holds of the symbols holds of all characters of a text without padding. -/
theorem forall_mem_encodeUrl {P : Char → Prop}
    (h : ∀ n < 64, P (Char.ofNat (Alphabet.byte .url n).toNat)) (bytes : Bytes) :
    ∀ c ∈ (encodeUrl bytes).toList, P c := by
  intro c hc
  rw [encodeUrl, encode, String.toList_ofList] at hc
  obtain ⟨b, hb, rfl⟩ := List.mem_map.mp hc
  obtain ⟨v, hValue⟩ := value?_of_mem_encodeBytes bytes b hb
  obtain ⟨hv, rfl⟩ := byte_of_value? hValue
  exact h v hv

end Enrollment.Base64
