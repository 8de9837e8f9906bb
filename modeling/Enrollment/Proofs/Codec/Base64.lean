import Enrollment.Codec.Base64
import Enrollment.Proofs.Text.Utf8

/-! # Base64 there and back

What is written in an alphabet is read as the bytes that it was written from.
-/

namespace Enrollment.Base64

variable (alphabet : Alphabet)

theorem value?_byte {n : Nat} (h : n < 64) : alphabet.value? (alphabet.byte n) = some n := by
  cases alphabet with
  | standard =>
    have hAll : ∀ n < 64, Alphabet.value? .standard (Alphabet.byte .standard n) = some n := by
      decide
    exact hAll n h
  | url =>
    have hAll : ∀ n < 64, Alphabet.value? .url (Alphabet.byte .url n) = some n := by
      decide
    exact hAll n h

theorem value?_pad : alphabet.value? pad = none := by cases alphabet <;> rfl

theorem byte_ne_pad {n : Nat} (h : n < 64) : alphabet.byte n ≠ pad := by
  intro hPad
  have hValue := value?_byte alphabet h
  rw [hPad, value?_pad] at hValue
  cases hValue

theorem byte_lt {n : Nat} (h : n < 64) : (alphabet.byte n).toNat < 128 := by
  cases alphabet with
  | standard =>
    have hAll : ∀ n < 64, (Alphabet.byte .standard n).toNat < 128 := by decide
    exact hAll n h
  | url =>
    have hAll : ∀ n < 64, (Alphabet.byte .url n).toNat < 128 := by decide
    exact hAll n h

theorem lt_of_mem_padding {pads : Bytes} (hPads : ∀ b ∈ pads, b = pad) :
    ∀ b ∈ if alphabet.padded then pads else [], b.toNat < 128 := by
  intro b hb
  split at hb
  · rw [hPads b hb]
    decide
  · cases hb

theorem lt_of_mem_encodeBytes (bytes : Bytes) :
    ∀ b ∈ encodeBytes alphabet bytes, b.toNat < 128 := by
  fun_induction encodeBytes alphabet bytes with
  | case1 => exact fun _ hb => absurd hb List.not_mem_nil
  | case2 a =>
    have ha := a.toNat_lt
    simp only [List.cons_append, List.nil_append, List.forall_mem_cons]
    refine ⟨byte_lt alphabet (by omega), byte_lt alphabet (by omega), ?_⟩
    exact lt_of_mem_padding alphabet (by simp)
  | case3 a b =>
    have ha := a.toNat_lt
    have hb := b.toNat_lt
    simp only [List.cons_append, List.nil_append, List.forall_mem_cons]
    refine ⟨byte_lt alphabet (by omega), byte_lt alphabet (by omega),
      byte_lt alphabet (by omega), ?_⟩
    exact lt_of_mem_padding alphabet (by simp)
  | case4 a b c rest ih =>
    have ha := a.toNat_lt
    have hb := b.toNat_lt
    have hc := c.toNat_lt
    simp only [List.forall_mem_cons]
    exact ⟨byte_lt alphabet (by omega), byte_lt alphabet (by omega),
      byte_lt alphabet (by omega), byte_lt alphabet (by omega), ih⟩

/-- Without padding all that is written is symbols. -/
theorem value?_of_mem_encodeBytes (bytes : Bytes) :
    ∀ b ∈ encodeBytes .url bytes, ∃ v, Alphabet.url.value? b = some v := by
  have hByte {n : Nat} (h : n < 64) : ∃ v, Alphabet.url.value? (Alphabet.url.byte n) = some v :=
    ⟨n, value?_byte .url h⟩
  fun_induction encodeBytes Alphabet.url bytes with
  | case1 => exact fun _ hb => absurd hb List.not_mem_nil
  | case2 a =>
    have ha := a.toNat_lt
    simp only [Alphabet.padded, Bool.false_eq_true, if_false, List.append_nil,
      List.forall_mem_cons]
    exact ⟨hByte (by omega), hByte (by omega), by simp⟩
  | case3 a b =>
    have ha := a.toNat_lt
    have hb := b.toNat_lt
    simp only [Alphabet.padded, Bool.false_eq_true, if_false, List.append_nil,
      List.forall_mem_cons]
    exact ⟨hByte (by omega), hByte (by omega), hByte (by omega), by simp⟩
  | case4 a b c rest ih =>
    have ha := a.toNat_lt
    have hb := b.toNat_lt
    have hc := c.toNat_lt
    simp only [List.forall_mem_cons]
    exact ⟨hByte (by omega), hByte (by omega), hByte (by omega), hByte (by omega), ih⟩

theorem length_encodeBytes_mod (bytes : Bytes) : (encodeBytes alphabet bytes).length % 4 ≠ 1 := by
  fun_induction encodeBytes alphabet bytes with
  | case1 => simp
  | case2 a => split <;> simp
  | case3 a b => split <;> simp
  | case4 a b c rest ih =>
    simp only [List.length_cons]
    omega

theorem encodeBytes_ne_nil {bytes : Bytes} (h : bytes ≠ []) : encodeBytes alphabet bytes ≠ [] := by
  fun_cases encodeBytes alphabet bytes with
  | case1 => exact absurd rfl h
  | _ => simp

theorem lastSymbols_byte (start : Nat) (symbols : List Nat) {n : Nat} (h : n < 64) (rest : Bytes) :
    lastSymbols alphabet start 0 symbols (alphabet.byte n :: rest) =
      lastSymbols alphabet start 0 (n :: symbols) rest := by
  rw [lastSymbols, if_neg (byte_ne_pad alphabet h), if_neg (Nat.lt_irrefl 0)]
  simp only [value?_byte alphabet h]

theorem toUInt8_eq {n : Nat} {b : UInt8} (h : n = b.toNat) : n.toUInt8 = b := by
  rw [h]
  exact UInt8.ofNat_toNat

theorem group_split (a b c : UInt8) :
    group (a.toNat / 4) (a.toNat % 4 * 16 + b.toNat / 16) (b.toNat % 16 * 4 + c.toNat / 64)
      (c.toNat % 64) = [a, b, c] := by
  have ha := a.toNat_lt
  have hb := b.toNat_lt
  have hc := c.toNat_lt
  rw [group, toUInt8_eq (b := a) (by omega), toUInt8_eq (b := b) (by omega),
    toUInt8_eq (b := c) (by omega)]

theorem lastGroup_of_two {start v w : Nat} {bytes : Bytes} (hNe : bytes ≠ [])
    (hSymbols : lastSymbols alphabet start 0 [] bytes =
      .ok ([v, w], if alphabet.padded then 2 else 0)) (hSpare : w % 16 = 0) :
    lastGroup alphabet start bytes = .ok [(v * 4 + w / 16).toUInt8] := by
  rw [lastGroup, hSymbols]
  cases alphabet <;> simp [hNe, Alphabet.padded, hSpare, pure, Except.pure, bind, Except.bind]

theorem lastGroup_of_three {start v w x : Nat} {bytes : Bytes} (hNe : bytes ≠ [])
    (hSymbols : lastSymbols alphabet start 0 [] bytes =
      .ok ([v, w, x], if alphabet.padded then 1 else 0)) (hSpare : x % 4 = 0) :
    lastGroup alphabet start bytes =
      .ok [(v * 4 + w / 16).toUInt8, (w % 16 * 16 + x / 4).toUInt8] := by
  rw [lastGroup, hSymbols]
  cases alphabet <;> simp [hNe, Alphabet.padded, hSpare, pure, Except.pure, bind, Except.bind]

theorem lastGroup_of_four {start v w x y : Nat} {bytes : Bytes} (hNe : bytes ≠ [])
    (hSymbols : lastSymbols alphabet start 0 [] bytes = .ok ([v, w, x, y], 0)) :
    lastGroup alphabet start bytes = .ok (group v w x y) := by
  rw [lastGroup, hSymbols]
  cases alphabet <;> simp [hNe, Alphabet.padded, pure, Except.pure, bind, Except.bind]

theorem lastGroup_encodeBytes_one (start : Nat) (a : UInt8) :
    lastGroup alphabet start (encodeBytes alphabet [a]) = .ok [a] := by
  have ha := a.toNat_lt
  have hSymbols : lastSymbols alphabet start 0 [] (encodeBytes alphabet [a]) =
      .ok ([a.toNat / 4, a.toNat % 4 * 16], if alphabet.padded then 2 else 0) := by
    rw [encodeBytes, List.cons_append, List.cons_append, List.nil_append,
      lastSymbols_byte alphabet start _ (by omega), lastSymbols_byte alphabet start _ (by omega)]
    cases alphabet <;> simp [Alphabet.padded, lastSymbols]
  rw [lastGroup_of_two alphabet (encodeBytes_ne_nil alphabet (List.cons_ne_nil _ _)) hSymbols
    (by omega), toUInt8_eq (b := a) (by omega)]

theorem lastGroup_encodeBytes_two (start : Nat) (a b : UInt8) :
    lastGroup alphabet start (encodeBytes alphabet [a, b]) = .ok [a, b] := by
  have ha := a.toNat_lt
  have hb := b.toNat_lt
  have hSymbols : lastSymbols alphabet start 0 [] (encodeBytes alphabet [a, b]) =
      .ok ([a.toNat / 4, a.toNat % 4 * 16 + b.toNat / 16, b.toNat % 16 * 4],
        if alphabet.padded then 1 else 0) := by
    rw [encodeBytes, List.cons_append, List.cons_append, List.cons_append, List.nil_append,
      lastSymbols_byte alphabet start _ (by omega), lastSymbols_byte alphabet start _ (by omega),
      lastSymbols_byte alphabet start _ (by omega)]
    cases alphabet <;> simp [Alphabet.padded, lastSymbols]
  rw [lastGroup_of_three alphabet (encodeBytes_ne_nil alphabet (List.cons_ne_nil _ _)) hSymbols
    (by omega), toUInt8_eq (b := a) (by omega), toUInt8_eq (b := b) (by omega)]

theorem lastGroup_encodeBytes_three (start : Nat) (a b c : UInt8) :
    lastGroup alphabet start (encodeBytes alphabet [a, b, c]) = .ok [a, b, c] := by
  have ha := a.toNat_lt
  have hb := b.toNat_lt
  have hc := c.toNat_lt
  have hSymbols : lastSymbols alphabet start 0 [] (encodeBytes alphabet [a, b, c]) =
      .ok ([a.toNat / 4, a.toNat % 4 * 16 + b.toNat / 16, b.toNat % 16 * 4 + c.toNat / 64,
        c.toNat % 64], 0) := by
    rw [encodeBytes, encodeBytes, lastSymbols_byte alphabet start _ (by omega),
      lastSymbols_byte alphabet start _ (by omega), lastSymbols_byte alphabet start _ (by omega),
      lastSymbols_byte alphabet start _ (by omega)]
    rfl
  rw [lastGroup_of_four alphabet (encodeBytes_ne_nil alphabet (List.cons_ne_nil _ _)) hSymbols,
    group_split]

theorem values_bytes (start : Nat) {v w x y : Nat} (hv : v < 64) (hw : w < 64) (hx : x < 64)
    (hy : y < 64) :
    values alphabet start
      [alphabet.byte v, alphabet.byte w, alphabet.byte x, alphabet.byte y] = .ok [v, w, x, y] := by
  simp [values, value?_byte alphabet hv, value?_byte alphabet hw, value?_byte alphabet hx,
    value?_byte alphabet hy, Except.map]

theorem decodeFrom_encodeBytes (start : Nat) (bytes : Bytes) :
    decodeFrom alphabet start (encodeBytes alphabet bytes) = .ok bytes := by
  induction bytes using encodeBytes.induct generalizing start with
  | case1 => rfl
  | case2 a =>
    have hLast := lastGroup_encodeBytes_one alphabet start a
    cases alphabet <;> exact hLast
  | case3 a b =>
    have hLast := lastGroup_encodeBytes_two alphabet start a b
    cases alphabet <;> exact hLast
  | case4 a b c rest ih =>
    have ha := a.toNat_lt
    have hb := b.toNat_lt
    have hc := c.toNat_lt
    cases rest with
    | nil => exact lastGroup_encodeBytes_three alphabet start a b c
    | cons d rest =>
      obtain ⟨s, symbols, hSymbols⟩ :=
        List.exists_cons_of_ne_nil (encodeBytes_ne_nil alphabet (List.cons_ne_nil d rest))
      have hRest := ih (start + 4)
      rw [hSymbols] at hRest
      rw [encodeBytes, hSymbols, decodeFrom,
        values_bytes alphabet start (by omega) (by omega) (by omega) (by omega)]
      simp only [bind, Except.bind, hRest, pure, Except.pure, group_split]
      rfl

theorem strayEnd?_encodeBytes (bytes : Bytes) :
    strayEnd? alphabet (encodeBytes alphabet bytes) = none := by
  rw [strayEnd?, if_neg (length_encodeBytes_mod alphabet bytes)]

theorem decode_encodeBytes (bytes : Bytes) :
    decode alphabet (encodeBytes alphabet bytes) = .ok bytes := by
  rw [decode, strayEnd?_encodeBytes]
  exact decodeFrom_encodeBytes alphabet 0 bytes

theorem encodeBytes_injective {bytes bytes' : Bytes}
    (h : encodeBytes alphabet bytes = encodeBytes alphabet bytes') : bytes = bytes' := by
  have hDecoded := decode_encodeBytes alphabet bytes
  rw [h, decode_encodeBytes] at hDecoded
  exact (Except.ok.inj hDecoded).symm

theorem utf8_encode (bytes : Bytes) :
    Utf8.encode (encode alphabet bytes) = encodeBytes alphabet bytes :=
  Utf8.encode_ofList_ascii (lt_of_mem_encodeBytes alphabet bytes)

theorem decodeUrl_encodeUrl (bytes : Bytes) : decodeUrl (encodeUrl bytes) = .ok bytes := by
  rw [decodeUrl, encodeUrl, utf8_encode, decode_encodeBytes]

end Enrollment.Base64
