import HistoryKeeper.Proofs.Text.Utf8
import HistoryKeeper.Text.Base64

/-!
# Base64 reads back

`decode_encode`: the bytes of an encoded text decode to what was encoded. Each group of four symbols
but the last is decoded by `decodeFrom` itself, the last one by `decodeTail`, so the induction is on
groups of three bytes and splits off the last.
-/

namespace HistoryKeeper.Base64

/-- A symbol is one byte, and its value is read off this byte. -/
theorem utf8EncodeChar_symbol {n : Nat} (h : n < 64) :
    ∃ b, String.utf8EncodeChar (symbol n) = [b] ∧ value? b = some n ∧ b ≠ paddingByte := by
  have : ∀ n < 64, String.utf8EncodeChar (symbol n) = [UInt8.ofNat (symbol n).toNat] ∧
      value? (UInt8.ofNat (symbol n).toNat) = some n ∧
      UInt8.ofNat (symbol n).toNat ≠ paddingByte := by decide +kernel
  exact ⟨_, this n h⟩

theorem utf8EncodeChar_padding : String.utf8EncodeChar '=' = [paddingByte] := rfl

theorem bits_of_value? {b : UInt8} {n : Nat} (h : value? b = some n) (offset : Nat) :
    bits b offset = .ok n := by
  rw [bits, h]

theorem ofNat_toNat_of_eq {n : Nat} {a : UInt8} (h : n = a.toNat) : n.toUInt8 = a := by
  subst h; exact UInt8.ofNat_toNat

theorem join_split (a b c : UInt8) :
    join (a.toNat / 4) (a.toNat % 4 * 16 + b.toNat / 16) (b.toNat % 16 * 4 + c.toNat / 64)
      (c.toNat % 64) = [a, b, c] := by
  have ha := a.toNat_lt
  have hb := b.toNat_lt
  have hc := c.toNat_lt
  rw [join, ofNat_toNat_of_eq (a := a) (by omega), ofNat_toNat_of_eq (a := b) (by omega),
    ofNat_toNat_of_eq (a := c) (by omega)]

section
variable {p q r s : UInt8} {i j k l : Nat}

theorem decodeTail_four (offset : Nat) (hp : value? p = some i ∧ p ≠ paddingByte)
    (hq : value? q = some j ∧ q ≠ paddingByte) (hr : value? r = some k ∧ r ≠ paddingByte)
    (hs : value? s = some l ∧ s ≠ paddingByte) :
    decodeTail offset [p, q, r, s] = .ok (join i j k l) := by
  simp [decodeTail, tailBits, hp.2, hq.2, hr.2, hs.2, bits_of_value? hp.1, bits_of_value? hq.1,
    bits_of_value? hr.1, bits_of_value? hs.1, bind, Except.bind, pure, Except.pure]

theorem decodeTail_three (offset : Nat) (hp : value? p = some i ∧ p ≠ paddingByte)
    (hq : value? q = some j ∧ q ≠ paddingByte) (hr : value? r = some k ∧ r ≠ paddingByte)
    (hk : k % 4 = 0) :
    decodeTail offset [p, q, r, paddingByte] = .ok ((join i j k 0).take 2) := by
  simp [decodeTail, tailBits, hp.2, hq.2, hr.2, bits_of_value? hp.1, bits_of_value? hq.1,
    bits_of_value? hr.1, hk, bind, Except.bind, pure, Except.pure]

theorem decodeTail_two (offset : Nat) (hp : value? p = some i ∧ p ≠ paddingByte)
    (hq : value? q = some j ∧ q ≠ paddingByte) (hj : j % 16 = 0) :
    decodeTail offset [p, q, paddingByte, paddingByte] = .ok ((join i j 0 0).take 1) := by
  simp [decodeTail, tailBits, hp.2, hq.2, bits_of_value? hp.1, bits_of_value? hq.1, hj, bind,
    Except.bind, pure, Except.pure]

end

theorem encodeChars_encode_ne_nil {value : Bytes} (h : value ≠ []) :
    Utf8.encodeChars (encode value) ≠ [] := by
  intro he
  have hd : encode value = [] := Utf8.encodeChars_injective he
  match value, h, hd with
  | [_], _, hd => simp [encode] at hd
  | [_, _], _, hd => simp [encode] at hd
  | _ :: _ :: _ :: _, _, hd => simp [encode] at hd

theorem length_encodeChars_encode : ∀ value : Bytes,
    (Utf8.encodeChars (encode value)).length % 4 = 0
  | [] => rfl
  | [a] => by
    have ha := a.toNat_lt
    obtain ⟨p, hp, -⟩ := utf8EncodeChar_symbol (n := a.toNat / 4) (by omega)
    obtain ⟨q, hq, -⟩ := utf8EncodeChar_symbol (n := a.toNat % 4 * 16) (by omega)
    simp [encode, hp, hq, utf8EncodeChar_padding]
  | [a, b] => by
    have ha := a.toNat_lt
    have hb := b.toNat_lt
    obtain ⟨p, hp, -⟩ := utf8EncodeChar_symbol (n := a.toNat / 4) (by omega)
    obtain ⟨q, hq, -⟩ := utf8EncodeChar_symbol (n := a.toNat % 4 * 16 + b.toNat / 16) (by omega)
    obtain ⟨r, hr, -⟩ := utf8EncodeChar_symbol (n := b.toNat % 16 * 4) (by omega)
    simp [encode, hp, hq, hr, utf8EncodeChar_padding]
  | a :: b :: c :: rest => by
    have ha := a.toNat_lt
    have hb := b.toNat_lt
    have hc := c.toNat_lt
    obtain ⟨p, hp, -⟩ := utf8EncodeChar_symbol (n := a.toNat / 4) (by omega)
    obtain ⟨q, hq, -⟩ := utf8EncodeChar_symbol (n := a.toNat % 4 * 16 + b.toNat / 16) (by omega)
    obtain ⟨r, hr, -⟩ := utf8EncodeChar_symbol (n := b.toNat % 16 * 4 + c.toNat / 64) (by omega)
    obtain ⟨s, hs, -⟩ := utf8EncodeChar_symbol (n := c.toNat % 64) (by omega)
    have ih := length_encodeChars_encode rest
    simp [encode, hp, hq, hr, hs]
    omega

theorem decodeFrom_encode (offset : Nat) : ∀ value : Bytes, value ≠ [] →
    decodeFrom offset (Utf8.encodeChars (encode value)) = .ok value
  | [], h => absurd rfl h
  | [a], _ => by
    have ha := a.toNat_lt
    obtain ⟨p, hp, hp'⟩ := utf8EncodeChar_symbol (n := a.toNat / 4) (by omega)
    obtain ⟨q, hq, hq'⟩ := utf8EncodeChar_symbol (n := a.toNat % 4 * 16) (by omega)
    have hj := join_split a 0 0
    simp only [encode, Utf8.encodeChars_cons, Utf8.encodeChars_nil, hp, hq, utf8EncodeChar_padding,
      List.singleton_append, decodeFrom]
    rw [decodeTail_two offset hp' hq' (by omega)]
    exact congrArg (fun bytes => Except.ok (List.take 1 bytes)) hj
  | [a, b], _ => by
    have ha := a.toNat_lt
    have hb := b.toNat_lt
    obtain ⟨p, hp, hp'⟩ := utf8EncodeChar_symbol (n := a.toNat / 4) (by omega)
    obtain ⟨q, hq, hq'⟩ := utf8EncodeChar_symbol (n := a.toNat % 4 * 16 + b.toNat / 16) (by omega)
    obtain ⟨r, hr, hr'⟩ := utf8EncodeChar_symbol (n := b.toNat % 16 * 4) (by omega)
    have hj := join_split a b 0
    simp only [encode, Utf8.encodeChars_cons, Utf8.encodeChars_nil, hp, hq, hr,
      utf8EncodeChar_padding, List.singleton_append, decodeFrom]
    rw [decodeTail_three offset hp' hq' hr' (by omega)]
    exact congrArg (fun bytes => Except.ok (List.take 2 bytes)) hj
  | a :: b :: c :: rest, _ => by
    have ha := a.toNat_lt
    have hb := b.toNat_lt
    have hc := c.toNat_lt
    obtain ⟨p, hp, hp'⟩ := utf8EncodeChar_symbol (n := a.toNat / 4) (by omega)
    obtain ⟨q, hq, hq'⟩ := utf8EncodeChar_symbol (n := a.toNat % 4 * 16 + b.toNat / 16) (by omega)
    obtain ⟨r, hr, hr'⟩ := utf8EncodeChar_symbol (n := b.toNat % 16 * 4 + c.toNat / 64) (by omega)
    obtain ⟨s, hs, hs'⟩ := utf8EncodeChar_symbol (n := c.toNat % 64) (by omega)
    simp only [encode, Utf8.encodeChars_cons, hp, hq, hr, hs, List.singleton_append]
    by_cases hrest : rest = []
    · subst hrest
      simp only [encode, Utf8.encodeChars_nil, decodeFrom]
      rw [decodeTail_four offset hp' hq' hr' hs', join_split]
    · obtain ⟨e, more, he⟩ := List.exists_cons_of_ne_nil (encodeChars_encode_ne_nil hrest)
      have ih := decodeFrom_encode (offset + 4) rest hrest
      rw [he] at ih
      rw [he, decodeFrom, bits_of_value? hp'.1, bits_of_value? hq'.1, bits_of_value? hr'.1,
        bits_of_value? hs'.1, ih]
      exact congrArg (fun bytes => Except.ok (bytes ++ rest)) (join_split a b c)

theorem decode_encode (value : Bytes) : decode (Utf8.encodeChars (encode value)) = .ok value := by
  unfold decode
  split
  · cases value with
    | nil => rfl
    | cons b bytes =>
      exact absurd (List.isEmpty_iff.mp ‹_›) (encodeChars_encode_ne_nil (List.cons_ne_nil b bytes))
  · have hne : value ≠ [] := by rintro rfl; simp [encode] at *
    have hlen := length_encodeChars_encode value
    split
    · rw [if_neg (by simp [hlen]), decodeFrom_encode 0 value hne]
    · have hlast := List.getLast?_eq_none_iff.mp ‹_›
      exact absurd hlast (encodeChars_encode_ne_nil hne)

end HistoryKeeper.Base64
