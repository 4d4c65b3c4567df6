import HistoryKeeper.Proofs.Json.RoundTrip
import HistoryKeeper.Proofs.Number.Shortest

/-!
# Doubles read back

`exists_readsFloat`: the text of a finite double is read as a double. With an exponent above zero
this needs `isFinite_mul_power`, as the digits and the power of ten are rounded on their own; all
other literals are quotients.
-/

namespace HistoryKeeper.Json

open Decimal (ratio)
open Reader

section Scale

variable {n : Nat} {exponent : Int}

theorem scale_of_neg (x : Binary64) (h : exponent < 0) (steps : Nat) :
    ∃ y, scale x exponent steps = .ok y := by
  induction steps generalizing x exponent with
  | zero => exact ⟨_, rfl⟩
  | succ steps ih =>
    rw [scale]
    split
    · dsimp only
      rw [if_neg (by omega)]
      exact ⟨_, rfl⟩
    · split
      · exact ⟨_, rfl⟩
      · rw [if_neg (by omega)]
        exact ih _ (by omega)

theorem scale_of_isFinite {k : Nat} (hk : k ≤ 308)
    (h : ((Binary64.ofNat n).mul (Binary64.ofNat (Nat.pow 10 k))).isFinite) :
    ∃ y, scale (Binary64.ofNat n) k 4 = .ok y := by
  rw [scale, Int.natAbs_natCast, if_pos hk]
  dsimp only
  rw [if_pos h]
  exact ⟨_, rfl⟩

theorem scale_natCast {k : Nat} (hn : n < Word.size64) (h : n * Nat.pow 10 k ≤ Binary64.midway) :
    ∃ y, scale (Binary64.ofNat n) k 4 = .ok y := by
  by_cases hk : k ≤ 308
  · exact scale_of_isFinite hk (Binary64.isFinite_mul_power hn hk h)
  · have hzero : n = 0 := by
      by_contra hne
      obtain ⟨top, htop⟩ : ∃ top, top = 309 := ⟨_, rfl⟩
      have hpow : Nat.pow 10 top ≤ n * Nat.pow 10 k :=
        (Nat.pow_le_pow_right (by decide) (by omega)).trans
          (Nat.le_mul_of_pos_left _ (Nat.pos_of_ne_zero hne))
      exact absurd (Binary64.midway_lt htop) (Nat.not_lt.mpr (hpow.trans h))
    rw [scale, Int.natAbs_natCast, if_neg hk, hzero, if_pos (by decide +kernel)]
    exact ⟨_, rfl⟩

theorem scale_of_ratio_le (hn : n < Word.size64) (h : ratio n exponent ≤ Binary64.midway) :
    ∃ y, scale (Binary64.ofNat n) exponent 4 = .ok y := by
  rcases Int.lt_or_le exponent 0 with hneg | hpos
  · exact scale_of_neg _ hneg 4
  · obtain ⟨k, rfl⟩ := Int.eq_ofNat_of_zero_le hpos
    rw [Decimal.ratio_natCast] at h
    exact scale_natCast hn (by exact_mod_cast h)

theorem scale_of_nonpos (hn : n < Word.size64) (h : exponent ≤ 0) :
    ∃ y, scale (Binary64.ofNat n) exponent 4 = .ok y := by
  rcases Int.lt_or_eq_of_le h with hneg | rfl
  · exact scale_of_neg _ hneg 4
  · refine scale_natCast (k := 0) hn ?_
    rw [show Nat.pow 10 0 = 1 from rfl, mul_one]
    exact (Nat.le_of_lt hn).trans Binary64.size64_le_midway

/-- The digits of the shortest decimal that fit, at their place. -/
theorem scale_shortest {x : Binary64} (hx : x.magnitude ≠ 0) (hfinite : x.isFinite) :
    ∃ y, scale (Binary64.ofNat (gather significandLimit 0 (places x.shortest.1)).1)
      ((gather significandLimit 0 (places x.shortest.1)).2 + x.shortest.2) 4 = .ok y := by
  by_cases h : x.IsLargest
  · rw [Binary64.shortest_of_isLargest h, gather_places (by decide)]
    exact scale_of_isFinite (k := 292) (by decide) (by decide +kernel)
  · refine scale_of_ratio_le (significand_lt _) ?_
    rw [add_comm, ← Decimal.ratio_mul_pow]
    exact (Decimal.ratio_mono (gather_places_le ..) _).trans
      (Binary64.ratio_shortest_le hx hfinite h)

end Scale

section Literal

variable {m : Nat} {exponent : Int} {whole part : List Char} {rest : Bytes}

theorem toBinary64_of_scale (negative : Bool)
    (h : ∃ y, scale (Binary64.ofNat m) exponent 4 = .ok y) :
    ∃ y, toBinary64 negative m exponent = .ok y := by
  obtain ⟨y, hy⟩ := h
  exact ⟨signed negative y, by rw [toBinary64, hy]; rfl⟩

theorem readFraction_digits (negative : Bool) (hpart : AllDigits part) (hne : part ≠ [])
    (hrest : ∀ b ∈ rest.head?, isDigit b = false) :
    readFraction negative m exponent (Utf8.encodeChars part ++ rest) =
      readPower negative (gather significandLimit m (values part)).1
        (exponent - (part.length - (gather significandLimit m (values part)).2)) rest := by
  have hvalues : values part ≠ [] := fun h => hne (by
    rw [← List.length_eq_zero_iff, ← hpart.length_values, h, List.length_nil])
  rw [readFraction, hpart.spanDigits_eq hrest, ← hpart.length_values]
  split
  · exact absurd (Prod.ext_iff.mp ‹_›).1 hvalues
  · exact absurd (Prod.ext_iff.mp ‹_›).1 hvalues
  · rename_i heq
    cases heq
    rfl

/-- A literal with a point: its digits are gathered across the point. -/
theorem readNumeral_point (negative : Bool) (hwhole : WholePart whole)
    (hlength : whole.length ≤ 19) (hpart : AllDigits part) (hne : part ≠ [])
    (hrest : ∀ b ∈ rest.head?, isDigit b = false) :
    (gather significandLimit 0 (values (whole ++ part))).2 ≤ part.length ∧
    readNumeral negative (Utf8.encodeChars (whole ++ '.' :: part) ++ rest) = (do
      let (x, rest) ← readPower negative (gather significandLimit 0 (values (whole ++ part))).1
        ((gather significandLimit 0 (values (whole ++ part))).2 - part.length) rest
      return (.float x, rest)) := by
  have hleft : (gather significandLimit 0 (values whole)).2 = 0 := by
    have hlimit : Nat.pow 10 (0 + (values whole).length) ≤ significandLimit := by
      rw [hwhole.allDigits.length_values, Nat.zero_add]
      exact (Nat.pow_le_pow_right (by decide) hlength).trans (by decide)
    exact gather_left_eq_zero (by decide) hwhole.allDigits.lt_ten hlimit
  have hgather : gather significandLimit 0 (values (whole ++ part)) =
      gather significandLimit (gather significandLimit 0 (values whole)).1 (values part) := by
    rw [values_append, gather_append, if_pos hleft]
  refine ⟨?_, ?_⟩
  · rw [hgather, ← hpart.length_values]
    exact gather_left_le ..
  · rw [Utf8.encodeChars_append, List.append_assoc, hgather]
    show readNumeral negative (_ ++ 46 :: (Utf8.encodeChars part ++ rest)) = _
    rw [hwhole.readNumeral_point, readFraction_digits negative hpart hne hrest, hleft]
    congr 2
    omega

theorem readPower_end (negative : Bool) (h : EndsNumeral rest) :
    readPower negative m exponent rest = (·, rest) <$> toBinary64 negative m exponent := by
  unfold readPower
  split
  · exact absurd rfl (h 101 rfl).2.2.1
  · exact absurd rfl (h 69 rfl).2.2.2
  · cases toBinary64 negative m exponent <;> rfl

theorem readExponent_plus (negative : Bool) {k : Nat} (hk : k < exponentLimit) (h : EndsNumeral rest) :
    readExponent negative m exponent (43 :: (Utf8.encodeChars (Decimal.digits k) ++ rest)) =
      (·, rest) <$> toBinary64 negative m (exponent + k) := by
  rw [readExponent]
  dsimp only
  rw [spanDigits_digits k h]
  split
  · exact absurd (Prod.ext_iff.mp ‹_›).1 (places_ne_nil k)
  · exact absurd (Prod.ext_iff.mp ‹_›).1 (places_ne_nil k)
  · rename_i heq
    cases heq
    rw [gather_places hk]
    simp only [if_true, Bool.false_eq_true, if_false]
    cases toBinary64 negative m (exponent + k) <;> rfl

theorem readExponent_minus (negative : Bool) (hm : m < Word.size64) (hexponent : exponent ≤ 0)
    (k : Nat) :
    ∃ y, ∀ rest, EndsNumeral rest →
      readExponent negative m exponent (45 :: (Utf8.encodeChars (Decimal.digits k) ++ rest)) =
        .ok (y, rest) := by
  obtain ⟨x, hx⟩ : ∃ x, toBinary64 negative m (exponent - (gather exponentLimit 0 (places k)).1) =
      .ok x := toBinary64_of_scale negative (scale_of_nonpos hm (by omega))
  refine ⟨if (gather exponentLimit 0 (places k)).2 = 0 then x else signed negative .zero,
    fun rest h => ?_⟩
  rw [readExponent]
  dsimp only
  rw [spanDigits_digits k h]
  split
  · exact absurd (Prod.ext_iff.mp ‹_›).1 (places_ne_nil k)
  · exact absurd (Prod.ext_iff.mp ‹_›).1 (places_ne_nil k)
  · rename_i heq
    cases heq
    by_cases hleft : (gather exponentLimit 0 (places k)).2 = 0
    · simp only [hleft, if_true, hx]
      rfl
    · simp only [hleft, if_false, Bool.not_true, Bool.and_false, Bool.false_eq_true]

end Literal

/-! ### Texts -/

/-- A text is read as some double, whatever follows. -/
def ReadsSome (negative : Bool) (cs : List Char) : Prop :=
  ∃ y, ∀ rest, EndsNumeral rest →
    readNumeral negative (Utf8.encodeChars cs ++ rest) = .ok (.float y, rest)

section Texts

variable (negative : Bool) {n : Nat} {place : Int}

theorem readsSome_point {whole part : List Char} (hwhole : WholePart whole)
    (hlength : whole.length ≤ 19) (hpart : AllDigits part) (hne : part ≠ []) :
    ReadsSome negative (whole ++ '.' :: part) := by
  have hread {rest : Bytes} (h : EndsNumeral rest) :=
    readNumeral_point negative hwhole hlength hpart hne fun b hb => (h b hb).1
  obtain ⟨y, hy⟩ : ∃ y, toBinary64 negative (gather significandLimit 0 (values (whole ++ part))).1
      ((gather significandLimit 0 (values (whole ++ part))).2 - part.length) = .ok y :=
    toBinary64_of_scale negative (scale_of_nonpos (significand_lt _) (by
      have := (hread endsNumeral_nil).1
      omega))
  refine ⟨y, fun rest h => (hread h).2.trans ?_⟩
  rw [readPower_end negative h, hy]
  rfl

theorem readsSome_positional (hn : n ≠ 0) (hplace : place ≤ 16) :
    ReadsSome negative (positional (Decimal.digits n) place) := by
  rw [positional]
  split
  · rw [show ['0', '.'] ++ List.replicate (-place).toNat '0' ++ Decimal.digits n =
      ['0'] ++ '.' :: (List.replicate (-place).toNat '0' ++ Decimal.digits n) by simp]
    refine readsSome_point negative (wholePart_digits 0) (by decide)
      ((allDigits_zeros _).append (allDigits_digits n)) ?_
    exact List.append_ne_nil_of_right_ne_nil _ Nat.toDigits_ne_nil
  · obtain ⟨k, hk⟩ : ∃ k, place.toNat = k + 1 := ⟨place.toNat - 1, by omega⟩
    obtain ⟨d, hd, cs, hcs, hall, -, hne⟩ := exists_digits n
    dsimp only
    rw [List.append_assoc _ ['.'], List.singleton_append, hk, hcs, List.take_succ_cons,
      List.cons_append]
    refine readsSome_point negative (wholePart_cons hd ((hall.take k).append (allDigits_zeros _))
      fun h0 => absurd h0 (hne hn)) ?_ ?_ ?_
    · simp only [List.length_cons, List.length_append, List.length_take, List.length_replicate]
      omega
    · split
      · exact allDigits_zeros 1
      · exact hall.drop k
    · split
      · exact List.cons_ne_nil _ _
      · simpa [List.isEmpty_iff] using ‹¬ (List.drop (k + 1) (d.digitChar :: cs)).isEmpty = true›

theorem readNumeral_scientific (n : Nat) (rest : Bytes) :
    (gather significandLimit 0 (places n)).2 ≤ (Decimal.digits n).length - 1 ∧
    readNumeral negative (Utf8.encodeChars ((Decimal.digits n).take 1 ++
      (if (Decimal.digits n).length = 1 then [] else ['.']) ++ (Decimal.digits n).drop 1) ++
        101 :: rest) = (do
      let (x, rest) ← readExponent negative (gather significandLimit 0 (places n)).1
        ((gather significandLimit 0 (places n)).2 - ((Decimal.digits n).length - 1 : Nat)) rest
      return (.float x, rest)) := by
  obtain ⟨d, hd, cs, hcs, hall, hplaces, -⟩ := exists_digits n
  have hwhole : WholePart [d.digitChar] := wholePart_cons hd nofun fun _ => rfl
  rw [hcs, hplaces, ← values_cons hd, List.length_cons, Nat.add_sub_cancel]
  by_cases hnil : cs = []
  · subst hnil
    refine ⟨Nat.le_of_eq ?_, hwhole.readNumeral_power negative rest⟩
    rw [values_cons hd]
    exact gather_left_eq_zero (k := 0) (by decide) (by simpa [values] using hd)
      (show Nat.pow 10 (0 + 1) ≤ significandLimit by decide)
  · rw [if_neg (by simpa using hnil)]
    exact readNumeral_point negative hwhole (by simp) hall hnil (by intro b hb; cases hb; decide)

theorem readsSome_scientific (hplace : place ≤ 309)
    (hscale : ∃ y, scale (Binary64.ofNat (gather significandLimit 0 (places n)).1)
      ((gather significandLimit 0 (places n)).2 + (place - (Decimal.digits n).length)) 4 = .ok y) :
    ReadsSome negative (scientific (Decimal.digits n) place) := by
  have hread (rest : Bytes) := readNumeral_scientific negative n rest
  have hleft := (hread []).1
  have hlength : 0 < (Decimal.digits n).length := List.length_pos_iff.mpr Nat.toDigits_ne_nil
  rw [scientific]
  by_cases hsign : place - 1 < 0
  · have hexponent : ((gather significandLimit 0 (places n)).2 : Int) -
        ((Decimal.digits n).length - 1 : Nat) ≤ 0 := by omega
    obtain ⟨y, hy⟩ := readExponent_minus negative (significand_lt (places n)) hexponent
      (place - 1).natAbs
    refine ⟨y, fun rest h => ?_⟩
    rw [if_pos hsign, List.append_assoc _ ['e'], List.append_assoc _ (['e'] ++ ['-']),
      Utf8.encodeChars_append, List.append_assoc]
    refine (hread (45 :: (Utf8.encodeChars (Decimal.digits (place - 1).natAbs) ++ rest))).2.trans ?_
    rw [hy rest h]
    rfl
  · obtain ⟨y, hy⟩ := toBinary64_of_scale negative hscale
    have hexponent : (place - 1).natAbs < exponentLimit := by
      simp only [exponentLimit, Word.size31]
      omega
    refine ⟨y, fun rest h => ?_⟩
    rw [if_neg hsign, List.append_assoc _ ['e'], List.append_assoc _ (['e'] ++ ['+']),
      Utf8.encodeChars_append, List.append_assoc]
    refine (hread (43 :: (Utf8.encodeChars (Decimal.digits (place - 1).natAbs) ++ rest))).2.trans ?_
    have hsum : ((gather significandLimit 0 (places n)).2 : Int) -
        ((Decimal.digits n).length - 1 : Nat) + (place - 1).natAbs =
        (gather significandLimit 0 (places n)).2 + (place - (Decimal.digits n).length) := by omega
    rw [readExponent_plus negative hexponent h, hsum, hy]
    rfl

/-- The shortest decimal of a finite double has at most 309 places before the point. -/
theorem place_le {x : Binary64} (hx : x.magnitude ≠ 0) (hfinite : x.isFinite) :
    x.shortest.2 + (Decimal.digits x.shortest.1).length ≤ 309 := by
  by_cases h : x.IsLargest
  · rw [Binary64.shortest_of_isLargest h]
    decide +kernel
  · obtain ⟨top, htop⟩ : ∃ top, top = 309 := ⟨_, rfl⟩
    have htop' : (Binary64.midway : ℚ) < ratio 1 top := by
      rw [Decimal.ratio_natCast, one_mul]
      exact_mod_cast Binary64.midway_lt htop
    have hratio : ratio 1 (x.shortest.2 + ((Decimal.digits x.shortest.1).length - 1 : Nat)) <
        ratio 1 top := by
      rw [← Decimal.ratio_mul_pow, one_mul]
      calc ratio (10 ^ ((Decimal.digits x.shortest.1).length - 1)) x.shortest.2
          ≤ ratio x.shortest.1 x.shortest.2 :=
            Decimal.ratio_mono (pow_length_le (Binary64.shortest_ne_zero hx)) _
        _ ≤ Binary64.midway := Binary64.ratio_shortest_le hx hfinite h
        _ < ratio 1 top := htop'
    simp only [ratio, Nat.cast_one, one_mul] at hratio
    have := (zpow_lt_zpow_iff_right₀ (by norm_num : (1 : ℚ) < 10)).mp hratio
    omega

theorem readsSome_floatBody {x : Binary64} (hfinite : x.isFinite) :
    ReadsSome negative (floatBody x) := by
  rw [floatBody]
  split
  · exact readsSome_point negative (wholePart_digits 0) (by decide) (allDigits_zeros 1) (List.cons_ne_nil _ _)
  · rename_i hx
    dsimp only
    split
    · rename_i hplace
      simp only [Bool.and_eq_true, decide_eq_true_eq] at hplace
      exact readsSome_positional negative (Binary64.shortest_ne_zero hx) hplace.2
    · refine readsSome_scientific negative (place_le hx hfinite) ?_
      rw [Int.add_sub_cancel]
      exact scale_shortest hx hfinite

end Texts

theorem exists_readsFloat {x : Binary64} (hfinite : x.isFinite) : ∃ y, ReadsFloat x y := by
  obtain ⟨y, hy⟩ := readsSome_floatBody x.isNegative hfinite
  refine ⟨y, fun rest h => ?_⟩
  have hread := hy rest h
  rw [renderFloat_eq]
  cases hsign : x.isNegative with
  | true =>
    rw [hsign] at hread
    show head (45 :: (Utf8.encodeChars (floatBody x) ++ rest)) = _
    rw [head_minus, hread]
    rfl
  | false =>
    obtain ⟨b, more, hb, hdigit⟩ := encodeChars_floatBody x
    rw [hsign, hb] at hread
    show head (Utf8.encodeChars (floatBody x) ++ rest) = _
    rw [hb, List.cons_append, head_digit hdigit]
    exact congrArg _ hread

end HistoryKeeper.Json
