import HistoryKeeper.Json.Literal
import HistoryKeeper.Proofs.Text.Utf8

/-!
# String literals read back

`readLiteral_renderString`: a literal stands for the text that it was written for, whatever follows
it. A character is written as itself (`IsPlain` says of its bytes that they are copied), as a
backslash with a letter, or as a backslash with four hexadecimal digits.
-/

namespace HistoryKeeper.Json

/-- Bytes that stand for themselves in a literal. -/
def IsPlain (b : UInt8) : Prop :=
  b ≠ 34 ∧ b ≠ 92 ∧ ¬ b < 0x20

theorem literalBytes_quote (rest : Bytes) : literalBytes (34 :: rest) = .ok ([], rest) := by
  rw [literalBytes, if_pos rfl]

theorem literalBytes_plain {b : UInt8} (h : IsPlain b) {rest content after : Bytes}
    (hr : literalBytes rest = .ok (content, after)) :
    literalBytes (b :: rest) = .ok (b :: content, after) := by
  rw [literalBytes, if_neg h.1, if_neg h.2.1, if_neg h.2.2, hr]
  rfl

theorem literalBytes_plain_append {bytes : Bytes} (h : ∀ b ∈ bytes, IsPlain b)
    {rest content after : Bytes} (hr : literalBytes rest = .ok (content, after)) :
    literalBytes (bytes ++ rest) = .ok (bytes ++ content, after) := by
  induction bytes with
  | nil => exact hr
  | cons b bytes ih =>
    exact literalBytes_plain (h b (List.mem_cons_self ..))
      (ih fun b' hb' => h b' (List.mem_cons_of_mem _ hb'))

theorem literalBytes_escape (bytes : Bytes) {rest content after : Bytes} {c : Char}
    (he : escape (bytes ++ rest) = .ok (c, bytes.length))
    (hr : literalBytes rest = .ok (content, after)) :
    literalBytes (92 :: (bytes ++ rest)) = .ok (String.utf8EncodeChar c ++ content, after) := by
  rw [literalBytes, if_neg (by decide), if_pos rfl, he]
  show (literalBytes ((bytes ++ rest).drop bytes.length) >>= _) = _
  rw [List.drop_left, hr]
  rfl

theorem isPlain_ofNat {n : Nat} (h : n < 256) (h₁ : 0x20 ≤ n) (h₂ : n ≠ 34) (h₃ : n ≠ 92) :
    IsPlain (UInt8.ofNat n) := by
  refine ⟨fun he => h₂ ?_, fun he => h₃ ?_, ?_⟩
  · exact (Utf8.eq_ofNat_iff h (by decide)).mp he
  · exact (Utf8.eq_ofNat_iff h (by decide)).mp he
  · rw [UInt8.lt_iff_toNat_lt, Utf8.toNat_ofNat_of_lt h]
    exact Nat.not_lt.mpr h₁

theorem isPlain_of_mem_utf8EncodeChar {c : Char} (h₁ : 0x20 ≤ c.val.toNat) (h₂ : c.val.toNat ≠ 34)
    (h₃ : c.val.toNat ≠ 92) : ∀ b ∈ String.utf8EncodeChar c, IsPlain b := by
  intro b hb
  unfold String.utf8EncodeChar at hb
  dsimp only at hb
  split at hb
  · rw [List.mem_singleton] at hb
    subst hb
    exact isPlain_ofNat (by omega) h₁ h₂ h₃
  · split at hb
    · simp only [List.mem_cons, List.not_mem_nil, or_false] at hb
      rcases hb with rfl | rfl <;> exact isPlain_ofNat (by omega) (by omega) (by omega) (by omega)
    · split at hb <;> simp only [List.mem_cons, List.not_mem_nil, or_false] at hb
      · rcases hb with rfl | rfl | rfl <;>
          exact isPlain_ofNat (by omega) (by omega) (by omega) (by omega)
      · rcases hb with rfl | rfl | rfl | rfl <;>
          exact isPlain_ofNat (by omega) (by omega) (by omega) (by omega)

/-- A control character is written as its code point, in four digits. -/
theorem escape_control {c : Char} (h : c.toNat < 0x20) : ∃ bytes : Bytes,
    Utf8.encodeChars ['u', '0', '0', hexDigit (c.toNat / 16), hexDigit (c.toNat % 16)] = bytes ∧
      ∀ rest, escape (bytes ++ rest) = .ok (c, bytes.length) := by
  have digits : ∀ n < 16, ∃ b, String.utf8EncodeChar (hexDigit n) = [b] ∧ hexValue b = some n := by
    intro n hn
    have : ∀ n < 16, String.utf8EncodeChar (hexDigit n) = [UInt8.ofNat (hexDigit n).toNat] ∧
        hexValue (UInt8.ofNat (hexDigit n).toNat) = some n := by decide +kernel
    exact ⟨_, this n hn⟩
  obtain ⟨a, ha, ha'⟩ := digits (c.toNat / 16) (by omega)
  obtain ⟨b, hb, hb'⟩ := digits (c.toNat % 16) (by omega)
  have hfour : hexFour 48 48 a b = some c.toNat := by
    have h0 : hexValue 48 = some 0 := rfl
    simp only [hexFour, h0, ha', hb', bind, Option.bind, pure, Option.some.injEq]
    omega
  refine ⟨[117, 48, 48, a, b], ?_, fun rest => ?_⟩
  · simp only [Utf8.encodeChars_cons, Utf8.encodeChars_nil, ha, hb]
    rfl
  · simp only [List.cons_append, escape, hfour]
    rw [if_neg (by simp [isTrailing]; omega), if_neg (by simp [isLeading]; omega)]
    exact congrArg (fun c => Except.ok (c, 5)) (Char.ofNat_toNat c)

theorem literalBytes_escapeChar (c : Char) {rest content after : Bytes}
    (hr : literalBytes rest = .ok (content, after)) :
    literalBytes (Utf8.encodeChars (escapeChar c) ++ rest) =
      .ok (String.utf8EncodeChar c ++ content, after) := by
  unfold escapeChar
  split
  · exact literalBytes_escape [34] rfl hr
  · exact literalBytes_escape [92] rfl hr
  · exact literalBytes_escape [98] rfl hr
  · exact literalBytes_escape [102] rfl hr
  · exact literalBytes_escape [110] rfl hr
  · exact literalBytes_escape [114] rfl hr
  · exact literalBytes_escape [116] rfl hr
  · rename_i hq hb _ _ _ _ _
    split
    · obtain ⟨bytes, hbytes, he⟩ := escape_control (c := c) ‹_›
      rw [Utf8.encodeChars_cons, hbytes]
      exact literalBytes_escape bytes (he rest) hr
    · have hlow : 0x20 ≤ c.val.toNat := Nat.not_lt.mp ‹_›
      rw [Utf8.encodeChars_cons, Utf8.encodeChars_nil, List.append_nil]
      refine literalBytes_plain_append (isPlain_of_mem_utf8EncodeChar hlow ?_ ?_) hr
      · exact fun h => hq (Char.ext (UInt32.toNat_inj.mp h))
      · exact fun h => hb (Char.ext (UInt32.toNat_inj.mp h))

theorem literalBytes_escapeChars (cs : List Char) (rest : Bytes) :
    literalBytes (Utf8.encodeChars (cs.flatMap escapeChar) ++ 34 :: rest) =
      .ok (Utf8.encodeChars cs, rest) := by
  induction cs with
  | nil => exact literalBytes_quote rest
  | cons c cs ih =>
    rw [List.flatMap_cons, Utf8.encodeChars_append, List.append_assoc, Utf8.encodeChars_cons]
    exact literalBytes_escapeChar c ih

theorem readLiteral_renderString (s : String) (rest : Bytes) :
    readLiteral (Utf8.encodeChars (s.toList.flatMap escapeChar) ++ 34 :: rest) = .ok (s, rest) := by
  rw [readLiteral, literalBytes_escapeChars]
  dsimp only [bind, Except.bind]
  rw [← Utf8.encode, Utf8.decode_encode]
  rfl

theorem encodeChars_renderString (s : String) :
    Utf8.encodeChars (renderString s) =
      34 :: (Utf8.encodeChars (s.toList.flatMap escapeChar) ++ [34]) := by
  rw [renderString, List.cons_append, Utf8.encodeChars_cons, Utf8.encodeChars_append]
  rfl

end HistoryKeeper.Json
