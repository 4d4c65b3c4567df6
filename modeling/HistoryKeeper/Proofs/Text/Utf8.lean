import HistoryKeeper.Text.Utf8

/-!
# UTF-8 reads back

`front_utf8EncodeChar`: what a character is written as is read as this character, whatever follows.
So every text decodes from its own bytes (`decode_encode`), and the bytes tell the text
(`encode_injective`).
-/

namespace HistoryKeeper.Utf8

theorem toNat_ofNat_of_lt {n : Nat} (h : n < 256) : (UInt8.ofNat n).toNat = n := by
  rw [UInt8.toNat_ofNat']; omega

theorem eq_ofNat_iff {n m : Nat} (hn : n < 256) (hm : m < 256) :
    UInt8.ofNat n = UInt8.ofNat m ↔ n = m := by
  rw [← UInt8.toNat_inj, toNat_ofNat_of_lt hn, toNat_ofNat_of_lt hm]

theorem val_cases (c : Char) :
    c.val.toNat < 0xD800 ∨ (0xDFFF < c.val.toNat ∧ c.val.toNat < 0x110000) :=
  c.valid

theorem ofNat_val (c : Char) : Char.ofNat c.val.toNat = c :=
  Char.ofNat_toNat c

theorem isTail_ofNat {n : Nat} (h : n < 64) : isTail (UInt8.ofNat (n + 0x80)) = true := by
  simp only [isTail, UInt8.le_iff_toNat_le, Bool.and_eq_true, decide_eq_true_eq]
  rw [toNat_ofNat_of_lt (by omega)]
  show 0x80 ≤ _ ∧ _ ≤ 0xBF
  omega

theorem extend_ofNat (high : Nat) {n : Nat} (h : n < 64) :
    extend high (UInt8.ofNat (n + 0x80)) = high * 64 + n := by
  rw [extend, toNat_ofNat_of_lt (by omega)]
  omega

theorem isWithin_ofNat (low high : Nat) {n : Nat} (hl : low < 256) (hh : high < 256) (hn : n < 256)
    (h₁ : low ≤ n) (h₂ : n ≤ high) :
    isWithin (UInt8.ofNat low, UInt8.ofNat high) (UInt8.ofNat n) = true := by
  simp only [isWithin, UInt8.le_iff_toNat_le, Bool.and_eq_true, decide_eq_true_eq]
  rw [toNat_ofNat_of_lt hl, toNat_ofNat_of_lt hh, toNat_ofNat_of_lt hn]
  exact ⟨h₁, h₂⟩

theorem secondOfThree_ofNat {n : Nat} (h : n < 16) :
    secondOfThree (UInt8.ofNat (n + 0xE0)) =
      some (if n = 0 then (0xA0, 0xBF) else if n = 13 then (0x80, 0x9F) else (0x80, 0xBF)) := by
  have : ∀ n < 16, secondOfThree (UInt8.ofNat (n + 0xE0)) =
      some (if n = 0 then (0xA0, 0xBF) else if n = 13 then (0x80, 0x9F) else (0x80, 0xBF)) := by
    decide
  exact this n h

theorem secondOfThree_eq_none {n : Nat} (h : n < 8) :
    secondOfThree (UInt8.ofNat (n + 0xF0)) = none := by
  have : ∀ n < 8, secondOfThree (UInt8.ofNat (n + 0xF0)) = none := by decide
  exact this n h

theorem secondOfFour_ofNat {n : Nat} (h : n < 5) :
    secondOfFour (UInt8.ofNat (n + 0xF0)) =
      some (if n = 0 then (0x90, 0xBF) else if n = 4 then (0x80, 0x8F) else (0x80, 0xBF)) := by
  have : ∀ n < 5, secondOfFour (UInt8.ofNat (n + 0xF0)) =
      some (if n = 0 then (0x90, 0xBF) else if n = 4 then (0x80, 0x8F) else (0x80, 0xBF)) := by
    decide
  exact this n h

theorem front_one {c : Char} (h : c.val.toNat ≤ 0x7F) (rest : Bytes) :
    front (UInt8.ofNat c.val.toNat) rest = .char c 1 := by
  have hn : (UInt8.ofNat c.val.toNat).toNat = c.val.toNat := toNat_ofNat_of_lt (by omega)
  unfold front
  rw [if_pos, hn, ofNat_val]
  rw [UInt8.lt_iff_toNat_lt, hn]
  exact Nat.lt_of_le_of_lt h (by decide)

theorem front_two {c : Char} (h₁ : 0x7F < c.val.toNat) (h₂ : c.val.toNat ≤ 0x7FF) (rest : Bytes) :
    front (UInt8.ofNat (c.val.toNat / 64 % 0x20 + 0xC0))
      (UInt8.ofNat (c.val.toNat % 0x40 + 0x80) :: rest) = .char c 2 := by
  have hn : (UInt8.ofNat (c.val.toNat / 64 % 0x20 + 0xC0)).toNat = c.val.toNat / 64 + 0xC0 := by
    rw [toNat_ofNat_of_lt] <;> omega
  have hlow : ¬ UInt8.ofNat (c.val.toNat / 64 % 0x20 + 0xC0) < 0x80 := by
    rw [UInt8.lt_iff_toNat_lt, hn]
    show ¬ _ < 0x80
    omega
  have hmid : (0xC2 ≤ UInt8.ofNat (c.val.toNat / 64 % 0x20 + 0xC0) &&
      UInt8.ofNat (c.val.toNat / 64 % 0x20 + 0xC0) ≤ 0xDF) = true := by
    simp only [UInt8.le_iff_toNat_le, hn, Bool.and_eq_true, decide_eq_true_eq]
    show 0xC2 ≤ _ ∧ _ ≤ 0xDF
    omega
  have hv : (c.val.toNat / 64 + 0xC0) % 32 * 64 + c.val.toNat % 0x40 = c.val.toNat := by omega
  unfold front
  rw [if_neg hlow, if_pos hmid]
  simp only [isTail_ofNat (Nat.mod_lt _ (by decide)), if_true, hn,
    extend_ofNat _ (Nat.mod_lt _ (by decide : 0 < 0x40)), hv, ofNat_val]

theorem front_three {c : Char} (h₁ : 0x7FF < c.val.toNat) (h₂ : c.val.toNat ≤ 0xFFFF)
    (rest : Bytes) :
    front (UInt8.ofNat (c.val.toNat / 4096 % 0x10 + 0xE0))
      (UInt8.ofNat (c.val.toNat / 64 % 0x40 + 0x80) :: UInt8.ofNat (c.val.toNat % 0x40 + 0x80) ::
        rest) = .char c 3 := by
  have hc := val_cases c
  have hn : (UInt8.ofNat (c.val.toNat / 4096 % 0x10 + 0xE0)).toNat = c.val.toNat / 4096 + 0xE0 := by
    rw [toNat_ofNat_of_lt] <;> omega
  have hlow : ¬ UInt8.ofNat (c.val.toNat / 4096 % 0x10 + 0xE0) < 0x80 := by
    rw [UInt8.lt_iff_toNat_lt, hn]
    show ¬ _ < 0x80
    omega
  have hmid : ¬ (0xC2 ≤ UInt8.ofNat (c.val.toNat / 4096 % 0x10 + 0xE0) &&
      UInt8.ofNat (c.val.toNat / 4096 % 0x10 + 0xE0) ≤ 0xDF) = true := by
    simp only [UInt8.le_iff_toNat_le, hn, Bool.and_eq_true, decide_eq_true_eq]
    show ¬ (0xC2 ≤ _ ∧ _ ≤ 0xDF)
    omega
  have hsecond : isWithin
      (if c.val.toNat / 4096 % 0x10 = 0 then (0xA0, 0xBF)
        else if c.val.toNat / 4096 % 0x10 = 13 then (0x80, 0x9F) else (0x80, 0xBF))
      (UInt8.ofNat (c.val.toNat / 64 % 0x40 + 0x80)) = true := by
    split
    · exact isWithin_ofNat 0xA0 0xBF (by decide) (by decide) (by omega)
        (by omega) (by omega)
    · split
      · exact isWithin_ofNat 0x80 0x9F (by decide) (by decide) (by omega)
          (by omega) (by omega)
      · exact isWithin_ofNat 0x80 0xBF (by decide) (by decide) (by omega)
          (by omega) (by omega)
  have hv : ((c.val.toNat / 4096 + 0xE0) % 16 * 64 + c.val.toNat / 64 % 0x40) * 64 +
      c.val.toNat % 0x40 = c.val.toNat := by omega
  unfold front
  rw [if_neg hlow, if_neg hmid, secondOfThree_ofNat (Nat.mod_lt _ (by decide))]
  simp only [hsecond, Bool.not_true, Bool.false_eq_true, if_false,
    isTail_ofNat (Nat.mod_lt _ (by decide : 0 < 0x40)), if_true, hn,
    extend_ofNat _ (Nat.mod_lt _ (by decide : 0 < 0x40)), hv, ofNat_val]

theorem front_four {c : Char} (h : 0xFFFF < c.val.toNat) (rest : Bytes) :
    front (UInt8.ofNat (c.val.toNat / 262144 % 0x08 + 0xF0))
      (UInt8.ofNat (c.val.toNat / 4096 % 0x40 + 0x80) ::
        UInt8.ofNat (c.val.toNat / 64 % 0x40 + 0x80) ::
        UInt8.ofNat (c.val.toNat % 0x40 + 0x80) :: rest) = .char c 4 := by
  have hc := val_cases c
  have hn : (UInt8.ofNat (c.val.toNat / 262144 % 0x08 + 0xF0)).toNat =
      c.val.toNat / 262144 + 0xF0 := by
    rw [toNat_ofNat_of_lt] <;> omega
  have hlow : ¬ UInt8.ofNat (c.val.toNat / 262144 % 0x08 + 0xF0) < 0x80 := by
    rw [UInt8.lt_iff_toNat_lt, hn]
    show ¬ _ < 0x80
    omega
  have hmid : ¬ (0xC2 ≤ UInt8.ofNat (c.val.toNat / 262144 % 0x08 + 0xF0) &&
      UInt8.ofNat (c.val.toNat / 262144 % 0x08 + 0xF0) ≤ 0xDF) = true := by
    simp only [UInt8.le_iff_toNat_le, hn, Bool.and_eq_true, decide_eq_true_eq]
    show ¬ (0xC2 ≤ _ ∧ _ ≤ 0xDF)
    omega
  have hsecond : isWithin
      (if c.val.toNat / 262144 % 0x08 = 0 then (0x90, 0xBF)
        else if c.val.toNat / 262144 % 0x08 = 4 then (0x80, 0x8F) else (0x80, 0xBF))
      (UInt8.ofNat (c.val.toNat / 4096 % 0x40 + 0x80)) = true := by
    split
    · exact isWithin_ofNat 0x90 0xBF (by decide) (by decide) (by omega)
        (by omega) (by omega)
    · split
      · exact isWithin_ofNat 0x80 0x8F (by decide) (by decide) (by omega)
          (by omega) (by omega)
      · exact isWithin_ofNat 0x80 0xBF (by decide) (by decide) (by omega)
          (by omega) (by omega)
  have hv : (((c.val.toNat / 262144 + 0xF0) % 8 * 64 + c.val.toNat / 4096 % 0x40) * 64 +
      c.val.toNat / 64 % 0x40) * 64 + c.val.toNat % 0x40 = c.val.toNat := by omega
  unfold front
  rw [if_neg hlow, if_neg hmid, secondOfThree_eq_none (Nat.mod_lt _ (by decide)),
    secondOfFour_ofNat (by omega)]
  simp only [hsecond, Bool.not_true, Bool.false_eq_true, if_false,
    isTail_ofNat (Nat.mod_lt _ (by decide : 0 < 0x40)), if_true, hn,
    extend_ofNat _ (Nat.mod_lt _ (by decide : 0 < 0x40)), hv, ofNat_val]

theorem front_utf8EncodeChar (c : Char) (rest : Bytes) : ∃ a bytes,
    String.utf8EncodeChar c = a :: bytes ∧ front a (bytes ++ rest) = .char c (bytes.length + 1) := by
  unfold String.utf8EncodeChar
  dsimp only
  split
  · exact ⟨_, _, rfl, front_one ‹_› _⟩
  · split
    · exact ⟨_, _, rfl, front_two (by omega) ‹_› _⟩
    · split
      · exact ⟨_, _, rfl, front_three (by omega) ‹_› _⟩
      · exact ⟨_, _, rfl, front_four (by omega) _⟩

theorem decodeFrom_utf8EncodeChar_append (index : Nat) (c : Char) (rest : Bytes) :
    decodeFrom index (String.utf8EncodeChar c ++ rest) =
      (c :: ·) <$> decodeFrom (index + (String.utf8EncodeChar c).length) rest := by
  obtain ⟨a, bytes, hc, hf⟩ := front_utf8EncodeChar c rest
  rw [hc, List.cons_append, decodeFrom, hf]
  simp

theorem decodeFrom_encodeChars (index : Nat) (cs : List Char) :
    decodeFrom index (encodeChars cs) = .ok cs := by
  induction cs generalizing index with
  | nil => rw [encodeChars, List.flatMap_nil, decodeFrom]
  | cons c cs ih =>
    rw [encodeChars, List.flatMap_cons, decodeFrom_utf8EncodeChar_append, ← encodeChars, ih]
    rfl

theorem decode_encode (s : String) : decode (encode s) = .ok s := by
  rw [decode, encode, decodeFrom_encodeChars]
  exact congrArg Except.ok (String.ofList_toList)

theorem encode_injective {s t : String} (h : encode s = encode t) : s = t := by
  have hd := decode_encode s
  rw [h, decode_encode] at hd
  exact (Except.ok.inj hd).symm

theorem encodeChars_injective {cs ds : List Char} (h : encodeChars cs = encodeChars ds) :
    cs = ds := by
  have hd := decodeFrom_encodeChars 0 cs
  rw [h, decodeFrom_encodeChars] at hd
  exact (Except.ok.inj hd).symm

@[simp] theorem encodeChars_nil : encodeChars [] = [] := rfl

@[simp] theorem encodeChars_cons (c : Char) (cs : List Char) :
    encodeChars (c :: cs) = String.utf8EncodeChar c ++ encodeChars cs := rfl

@[simp] theorem encodeChars_append (cs ds : List Char) :
    encodeChars (cs ++ ds) = encodeChars cs ++ encodeChars ds :=
  List.flatMap_append

end HistoryKeeper.Utf8
