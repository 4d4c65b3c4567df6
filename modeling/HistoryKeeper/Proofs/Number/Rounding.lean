import Mathlib.Tactic.Ring
import Mathlib.Tactic.SplitIfs
import HistoryKeeper.Number.Binary64

/-!
# Rounding to doubles

`rounded num den` is the nearest double to `num / den` in units of 2^-1074, as if there were no
largest one; `ofRatio` is that double where it is below 2^1024 and infinite elsewhere
(`isFinite_ofRatio`, `magnitude_ofRatio`). Rounding is monotone, keeps doubles, and is off by at most
half of a 2^52nd part and half a unit (`rounded_mono`, `rounded_of_exact`, `rounded_near`).
-/

namespace HistoryKeeper

section RoundHalfEven

variable {num den num' den' m : Nat}

theorem roundHalfEven_cases (num den : Nat) :
    roundHalfEven num den = num / den ∧ 2 * (num % den) ≤ den ∨
      roundHalfEven num den = num / den + 1 ∧ den ≤ 2 * (num % den) := by
  simp only [roundHalfEven]
  split_ifs <;> omega

theorem div_le_roundHalfEven (num den : Nat) : num / den ≤ roundHalfEven num den := by
  rcases roundHalfEven_cases num den with ⟨h, _⟩ | ⟨h, _⟩ <;> omega

theorem le_roundHalfEven (hden : 0 < den) (h : m * den ≤ num) : m ≤ roundHalfEven num den :=
  Nat.le_trans ((Nat.le_div_iff_mul_le hden).mpr h) (div_le_roundHalfEven num den)

theorem roundHalfEven_mul_self (m : Nat) (hden : 0 < den) : roundHalfEven (m * den) den = m := by
  simp [roundHalfEven, Nat.mul_div_cancel m hden, hden]

theorem roundHalfEven_near (num : Nat) (hden : 0 < den) :
    2 * (roundHalfEven num den * den) ≤ 2 * num + den ∧
      2 * num ≤ 2 * (roundHalfEven num den * den) + den := by
  have hdiv := Nat.div_add_mod' num den
  have hmod := Nat.mod_lt num hden
  rcases roundHalfEven_cases num den with ⟨h, _⟩ | ⟨h, _⟩
  · rw [h]
    omega
  · rw [h, Nat.add_mul]
    omega

theorem roundHalfEven_mul_right {k : Nat} (hk : 0 < k) (num den : Nat) :
    roundHalfEven (num * k) (den * k) = roundHalfEven num den := by
  simp only [roundHalfEven, Nat.mul_div_mul_right num den hk, Nat.mul_mod_mul_right,
    ← Nat.mul_assoc, Nat.mul_lt_mul_right hk]

theorem roundHalfEven_le_of_le (den : Nat) (h : num ≤ num') :
    roundHalfEven num den ≤ roundHalfEven num' den := by
  have hdiv : num / den ≤ num' / den := Nat.div_le_div_right h
  rcases Nat.lt_or_eq_of_le hdiv with hlt | heq
  · have := div_le_roundHalfEven num' den
    rcases roundHalfEven_cases num den with ⟨h, _⟩ | ⟨h, _⟩ <;> omega
  · have hmod : num % den ≤ num' % den := by
      have := Nat.div_add_mod num den
      have := Nat.div_add_mod num' den
      rw [heq] at *
      omega
    simp only [roundHalfEven, heq]
    split_ifs <;> omega

theorem roundHalfEven_mono (hden : 0 < den) (hden' : 0 < den') (h : num * den' ≤ num' * den) :
    roundHalfEven num den ≤ roundHalfEven num' den' := by
  rw [← roundHalfEven_mul_right hden' num den, ← roundHalfEven_mul_right hden num' den',
    Nat.mul_comm den' den]
  exact roundHalfEven_le_of_le _ h

theorem roundHalfEven_le (hden : 0 < den) (h : num ≤ m * den) : roundHalfEven num den ≤ m :=
  Nat.le_trans (roundHalfEven_le_of_le den h) (Nat.le_of_eq (roundHalfEven_mul_self m hden))

end RoundHalfEven

namespace Binary64

theorem two_pow_52 : Nat.pow 2 52 = 4503599627370496 := rfl
theorem two_pow_53 : Nat.pow 2 53 = 9007199254740992 := rfl
theorem two_pow_63 : Nat.pow 2 63 = 9223372036854775808 := rfl
theorem two_pow_11 : Nat.pow 2 11 = 2048 := rfl

theorem two_pow_add (m k : Nat) : Nat.pow 2 (m + k) = Nat.pow 2 m * Nat.pow 2 k :=
  Nat.pow_add ..

theorem two_pow_pos (k : Nat) : 0 < Nat.pow 2 k := Nat.pow_pos (by decide)

theorem two_pow_le {m k : Nat} (h : m ≤ k) : Nat.pow 2 m ≤ Nat.pow 2 k :=
  Nat.pow_le_pow_right (by decide) h

/-- `unit` is too long to be written out, so its exponent stands behind a variable. -/
theorem unit_eq {k : Nat} (h : k = 1074) : unit = Nat.pow 2 k := by
  unfold unit
  generalize 1074 = places at *
  rw [h]

theorem unit_pos : 0 < unit := by
  obtain ⟨k, hk⟩ : ∃ k, k = 1074 := ⟨_, rfl⟩
  exact unit_eq hk ▸ two_pow_pos k

section Fields

variable {negative : Bool} {exponentField fraction : Nat}

theorem toNat_ofFields (hexponent : exponentField < 2048) (hfraction : fraction < Nat.pow 2 52) :
    (ofFields negative exponentField fraction).bits.toNat =
      (if negative then Nat.pow 2 63 else 0) + exponentField * Nat.pow 2 52 + fraction := by
  show (Nat.toUInt64 _).toNat = _
  rw [Nat.toUInt64, UInt64.toNat_ofNat']
  apply Nat.mod_eq_of_lt
  simp only [two_pow_52, two_pow_63] at *
  split <;> omega

theorem exponentField_ofFields (hexponent : exponentField < 2048)
    (hfraction : fraction < Nat.pow 2 52) :
    (ofFields negative exponentField fraction).exponentField = exponentField := by
  rw [Binary64.exponentField, toNat_ofFields hexponent hfraction]
  simp only [two_pow_52, two_pow_63, two_pow_11] at *
  split <;> omega

theorem fraction_ofFields (hexponent : exponentField < 2048) (hfraction : fraction < Nat.pow 2 52) :
    (ofFields negative exponentField fraction).fraction = fraction := by
  rw [Binary64.fraction, toNat_ofFields hexponent hfraction]
  simp only [two_pow_52, two_pow_63] at *
  split <;> omega

theorem isNegative_ofFields (hexponent : exponentField < 2048)
    (hfraction : fraction < Nat.pow 2 52) :
    (ofFields negative exponentField fraction).isNegative = negative := by
  rw [isNegative, toNat_ofFields hexponent hfraction]
  simp only [two_pow_52, two_pow_63] at *
  rcases negative with _ | _ <;> simp <;> omega

end Fields

section Finite

variable {x : Binary64}

theorem fraction_lt (x : Binary64) : x.fraction < Nat.pow 2 52 :=
  Nat.mod_lt _ (Nat.pow_pos (by decide))

theorem exponentField_lt (x : Binary64) : x.exponentField < 2048 :=
  Nat.mod_lt _ (by decide)

theorem significand_lt (x : Binary64) : x.significand < Nat.pow 2 53 := by
  have := x.fraction_lt
  simp only [significand, two_pow_52, two_pow_53] at *
  split <;> omega

theorem neg_magnitude (x : Binary64) : x.neg.magnitude = x.magnitude := by
  simp only [magnitude, significand, shift, neg, exponentField_ofFields x.exponentField_lt
    x.fraction_lt, fraction_ofFields x.exponentField_lt x.fraction_lt]

theorem neg_isNegative (x : Binary64) : x.neg.isNegative = !x.isNegative :=
  isNegative_ofFields x.exponentField_lt x.fraction_lt

/-- A double counts multiples of a power of two on 53 binary places. -/
theorem exists_magnitude (x : Binary64) :
    ∃ m k, m < Nat.pow 2 53 ∧ x.magnitude = m * Nat.pow 2 k :=
  ⟨_, _, x.significand_lt, rfl⟩

end Finite

/-! ### The nearest double -/

section Rounded

variable {num den num' den' : Nat}

/-- The nearest double to `num / den` in units of 2^-1074, however large. -/
def rounded (num den : Nat) : Nat :=
  roundHalfEven (num * unit) (den * Nat.pow 2 (droppedPlaces num den)) *
    Nat.pow 2 (droppedPlaces num den)

theorem lt_of_droppedPlaces (hden : 0 < den) :
    num * unit < den * Nat.pow 2 (53 + droppedPlaces num den) := by
  have hlog : num * unit / den < Nat.pow 2 ((num * unit / den).log2 + 1) := Nat.lt_log2_self
  have hpow : Nat.pow 2 ((num * unit / den).log2 + 1) ≤ Nat.pow 2 (53 + droppedPlaces num den) :=
    Nat.pow_le_pow_right (by decide) (by simp only [droppedPlaces]; omega)
  exact (Nat.div_lt_iff_lt_mul hden).mp (Nat.lt_of_lt_of_le hlog hpow) |>.trans_eq (Nat.mul_comm ..)

theorem le_of_droppedPlaces (hden : 0 < den) (h : droppedPlaces num den ≠ 0) :
    den * Nat.pow 2 (52 + droppedPlaces num den) ≤ num * unit := by
  simp only [droppedPlaces] at h ⊢
  have hlog : Nat.pow 2 (num * unit / den).log2 ≤ num * unit / den :=
    Nat.log2_self_le (by intro h0; simp [h0] at h)
  rw [show 52 + ((num * unit / den).log2 - 52) = (num * unit / den).log2 by omega, Nat.mul_comm]
  exact (Nat.le_div_iff_mul_le hden).mp hlog

theorem kept_le (hden : 0 < den) :
    roundHalfEven (num * unit) (den * Nat.pow 2 (droppedPlaces num den)) ≤ Nat.pow 2 53 := by
  refine roundHalfEven_le (Nat.mul_pos hden (two_pow_pos _)) ?_
  have := @lt_of_droppedPlaces num den hden
  rw [two_pow_add] at this
  exact Nat.le_of_lt (this.trans_eq (by ring))

theorem le_kept (hden : 0 < den) (h : droppedPlaces num den ≠ 0) :
    Nat.pow 2 52 ≤ roundHalfEven (num * unit) (den * Nat.pow 2 (droppedPlaces num den)) := by
  refine le_roundHalfEven (Nat.mul_pos hden (two_pow_pos _)) ?_
  have := le_of_droppedPlaces hden h
  rw [two_pow_add] at this
  exact Nat.le_trans (Nat.le_of_eq (by ring)) this

theorem rounded_near (hden : 0 < den) :
    Nat.pow 2 53 * (rounded num den * den) ≤
        (Nat.pow 2 53 + 1) * (num * unit) + Nat.pow 2 52 * den ∧
      Nat.pow 2 53 * (num * unit) ≤
        Nat.pow 2 53 * (rounded num den * den) + num * unit + Nat.pow 2 52 * den := by
  have hnear := roundHalfEven_near (num * unit)
    (Nat.mul_pos hden (two_pow_pos (droppedPlaces num den)))
  have hassoc : roundHalfEven (num * unit) (den * Nat.pow 2 (droppedPlaces num den)) *
      (den * Nat.pow 2 (droppedPlaces num den)) = rounded num den * den := by
    rw [rounded]
    ring
  have hgap : Nat.pow 2 52 * (den * Nat.pow 2 (droppedPlaces num den)) ≤
      num * unit + Nat.pow 2 52 * den := by
    by_cases h : droppedPlaces num den = 0
    · rw [h]
      simp
    · have := le_of_droppedPlaces hden h
      rw [two_pow_add] at this
      exact Nat.le_add_right_of_le (Nat.le_trans (Nat.le_of_eq (by ring)) this)
  rw [hassoc] at hnear
  simp only [two_pow_52, two_pow_53] at *
  omega

theorem droppedPlaces_mono (hden : 0 < den) (hden' : 0 < den') (h : num * den' ≤ num' * den) :
    droppedPlaces num den ≤ droppedPlaces num' den' := by
  have hdiv : num * unit / den ≤ num' * unit / den' := by
    rw [Nat.le_div_iff_mul_le hden']
    refine Nat.le_of_mul_le_mul_right ?_ hden
    calc num * unit / den * den' * den = num * unit / den * den * den' := by ring
      _ ≤ num * unit * den' := Nat.mul_le_mul_right _ (Nat.div_mul_le_self ..)
      _ = num * den' * unit := by ring
      _ ≤ num' * den * unit := Nat.mul_le_mul_right _ h
      _ = num' * unit * den := by ring
  simp only [droppedPlaces]
  refine Nat.sub_le_sub_right ?_ 52
  by_cases h0 : num * unit / den = 0
  · rw [h0]
    exact Nat.zero_le _
  · exact (Nat.le_log2 fun h => h0 (Nat.le_zero.mp (h ▸ hdiv))).mpr
      (Nat.le_trans (Nat.log2_self_le h0) hdiv)

theorem rounded_mono (hden : 0 < den) (hden' : 0 < den') (h : num * den' ≤ num' * den) :
    rounded num den ≤ rounded num' den' := by
  have hplaces := droppedPlaces_mono hden hden' h
  rcases Nat.lt_or_eq_of_le hplaces with hlt | heq
  · -- a power of two lies between the two
    calc rounded num den ≤ Nat.pow 2 53 * Nat.pow 2 (droppedPlaces num den) :=
          Nat.mul_le_mul_right _ (kept_le hden)
      _ = Nat.pow 2 (53 + droppedPlaces num den) := (two_pow_add ..).symm
      _ ≤ Nat.pow 2 (52 + droppedPlaces num' den') :=
          Nat.pow_le_pow_right (by decide) (by omega)
      _ = Nat.pow 2 52 * Nat.pow 2 (droppedPlaces num' den') := two_pow_add ..
      _ ≤ rounded num' den' := Nat.mul_le_mul_right _ (le_kept hden' (by omega))
  · rw [rounded, rounded, heq]
    refine Nat.mul_le_mul_right _ (roundHalfEven_mono (Nat.mul_pos hden (two_pow_pos _))
      (Nat.mul_pos hden' (two_pow_pos _)) ?_)
    calc num * unit * (den' * Nat.pow 2 (droppedPlaces num' den'))
        = num * den' * (unit * Nat.pow 2 (droppedPlaces num' den')) := by ring
      _ ≤ num' * den * (unit * Nat.pow 2 (droppedPlaces num' den')) := Nat.mul_le_mul_right _ h
      _ = num' * unit * (den * Nat.pow 2 (droppedPlaces num' den')) := by ring

theorem rounded_of_exact {m k : Nat} (hden : 0 < den) (hm : m < Nat.pow 2 53)
    (h : num * unit = m * Nat.pow 2 k * den) : rounded num den = m * Nat.pow 2 k := by
  rcases Nat.eq_zero_or_pos (droppedPlaces num den) with hp | hp
  · rw [rounded, hp, h]
    simp [roundHalfEven_mul_self _ hden]
  · have hle := le_of_droppedPlaces hden (Nat.ne_of_gt hp)
    have hplaces : droppedPlaces num den ≤ k := by
      have hlt : Nat.pow 2 (52 + droppedPlaces num den) < Nat.pow 2 (53 + k) := by
        refine Nat.lt_of_mul_lt_mul_right (a := den) ?_
        rw [two_pow_add 53]
        calc Nat.pow 2 (52 + droppedPlaces num den) * den
            = den * Nat.pow 2 (52 + droppedPlaces num den) := Nat.mul_comm ..
          _ ≤ m * Nat.pow 2 k * den := Nat.le_trans hle (Nat.le_of_eq h)
          _ < Nat.pow 2 53 * Nat.pow 2 k * den :=
              Nat.mul_lt_mul_of_pos_right (Nat.mul_lt_mul_of_pos_right hm (two_pow_pos k)) hden
      have := (Nat.pow_lt_pow_iff_right (a := 2) (by decide)).mp hlt
      omega
    obtain ⟨j, hj⟩ := Nat.exists_eq_add_of_le' hplaces
    have hsplit : num * unit = m * Nat.pow 2 j * (den * Nat.pow 2 (droppedPlaces num den)) := by
      rw [h, hj, two_pow_add]
      ring
    rw [rounded, hsplit, roundHalfEven_mul_self _ (Nat.mul_pos hden (two_pow_pos _)), hj,
      two_pow_add]
    ring

theorem rounded_magnitude (x : Binary64) : rounded x.magnitude unit = x.magnitude := by
  obtain ⟨m, k, hm, hx⟩ := x.exists_magnitude
  rw [hx, rounded_of_exact unit_pos hm rfl]

theorem rounded_unit_near (n : Nat) :
    Nat.pow 2 53 * rounded n unit ≤ (Nat.pow 2 53 + 1) * n + Nat.pow 2 52 ∧
      Nat.pow 2 53 * n ≤ Nat.pow 2 53 * rounded n unit + n + Nat.pow 2 52 := by
  obtain ⟨hup, hdown⟩ := @rounded_near n unit unit_pos
  refine ⟨Nat.le_of_mul_le_mul_right ?_ unit_pos, Nat.le_of_mul_le_mul_right ?_ unit_pos⟩
  · exact Nat.le_trans (Nat.le_of_eq (by ring)) (Nat.le_trans hup (Nat.le_of_eq (by ring)))
  · exact Nat.le_trans (Nat.le_of_eq (by ring)) (Nat.le_trans hdown (Nat.le_of_eq (by ring)))

theorem rounded_natural {n : Nat} (h : n < Nat.pow 2 53) : rounded n 1 = n * unit := by
  obtain ⟨k, hk⟩ : ∃ k, k = 1074 := ⟨_, rfl⟩
  rw [unit_eq hk]
  exact rounded_of_exact Nat.one_pos h (by rw [unit_eq hk, Nat.mul_one])

end Rounded

/-! ### The double -/

section OfRatio

variable {num den : Nat}

/-- 2^1024 in units of 2^-1074. -/
def beyond : Nat := Nat.pow 2 2098

theorem beyond_eq {m k : Nat} (h : m + k = 2098) : beyond = Nat.pow 2 m * Nat.pow 2 k := by
  unfold beyond
  generalize 2098 = places at *
  rw [← two_pow_add, h]

theorem beyond_le {m power : Nat} (hm : Nat.pow 2 52 ≤ m) (hpower : 2046 ≤ power) :
    beyond ≤ m * Nat.pow 2 power := by
  obtain ⟨k, hk⟩ : ∃ k, k = 2046 := ⟨_, rfl⟩
  rw [@beyond_eq 52 k (by omega)]
  exact Nat.mul_le_mul hm (two_pow_le (by omega))

theorem lt_beyond {m power : Nat} (hm : m < Nat.pow 2 53) (hpower : power ≤ 2045) :
    m * Nat.pow 2 power < beyond := by
  obtain ⟨k, hk⟩ : ∃ k, k = 2045 := ⟨_, rfl⟩
  rw [@beyond_eq 53 k (by omega)]
  exact Nat.lt_of_lt_of_le (Nat.mul_lt_mul_of_pos_right hm (two_pow_pos _))
    (Nat.mul_le_mul_left _ (two_pow_le (by omega)))

/-- A double is subnormal or has its first binary place set. -/
inductive Packs (negative : Bool) (value : Nat) (x : Binary64) : Prop
  | subnormal (hlt : value < Nat.pow 2 52) (hx : x = ofFields negative 0 value)
  | normal (m power : Nat) (hle : Nat.pow 2 52 ≤ m) (hlt : m < Nat.pow 2 53)
      (hpower : power ≤ 2045) (hvalue : value = m * Nat.pow 2 power)
      (hx : x = ofFields negative (power + 1) (m - Nat.pow 2 52))
  | infinite (hle : beyond ≤ value) (hx : x = infinity negative)

theorem packs_ofSignificand (negative : Bool) {m power : Nat} (hle : m ≤ Nat.pow 2 53)
    (hused : power ≠ 0 → Nat.pow 2 52 ≤ m) :
    Packs negative (m * Nat.pow 2 power) (ofSignificand negative m power) := by
  rw [ofSignificand]
  by_cases hcarry : m = Nat.pow 2 53
  · have hvalue : m * Nat.pow 2 power = Nat.pow 2 52 * Nat.pow 2 (power + 1) := by
      rw [hcarry, two_pow_add 52 1, Nat.mul_assoc, ← two_pow_add, Nat.add_comm]
    rw [hvalue]
    simp only [hcarry, if_true, Nat.lt_irrefl, if_false]
    split_ifs with hpower
    · exact .infinite (beyond_le (Nat.le_refl _) hpower) rfl
    · exact .normal _ _ (Nat.le_refl _) (Nat.pow_lt_pow_succ (by decide)) (by omega) rfl rfl
  · simp only [hcarry, if_false]
    split_ifs with hsmall hpower
    · have hzero : power = 0 := Classical.byContradiction fun h => absurd (hused h) (by omega)
      rw [hzero, show Nat.pow 2 0 = 1 from rfl, Nat.mul_one]
      exact .subnormal hsmall rfl
    · exact .infinite (beyond_le (Nat.le_of_not_lt hsmall) hpower) rfl
    · exact .normal m power (Nat.le_of_not_lt hsmall) (by omega) (by omega) rfl rfl

theorem packs_ofRatio (negative : Bool) (num : Nat) (hden : 0 < den) :
    Packs negative (rounded num den) (ofRatio negative num den) :=
  packs_ofSignificand negative (kept_le hden) (le_kept hden)

variable {negative : Bool} {value : Nat} {x : Binary64}

theorem Packs.isNegative (h : Packs negative value x) : x.isNegative = negative := by
  rcases h with ⟨hlt, rfl⟩ | ⟨m, power, hle, hlt, hpower, -, rfl⟩ | ⟨-, rfl⟩
  · exact isNegative_ofFields (Nat.zero_lt_succ _) hlt
  · refine isNegative_ofFields (by omega) ?_
    simp only [two_pow_52, two_pow_53] at *
    omega
  · exact isNegative_ofFields (Nat.lt_succ_self _) (two_pow_pos _)

theorem Packs.isFinite (h : Packs negative value x) : x.isFinite ↔ value < beyond := by
  rcases h with ⟨hlt, rfl⟩ | ⟨m, power, hle, hlt, hpower, hm, rfl⟩ | ⟨hle, rfl⟩
  · have hbeyond : value * Nat.pow 2 0 < beyond :=
      lt_beyond (Nat.lt_trans hlt (by decide)) (Nat.zero_le _)
    rw [show Nat.pow 2 0 = 1 from rfl, Nat.mul_one] at hbeyond
    simp [Binary64.isFinite, exponentField_ofFields (Nat.zero_lt_succ _) hlt, hbeyond]
  · have hfraction : m - Nat.pow 2 52 < Nat.pow 2 52 := by
      simp only [two_pow_52, two_pow_53] at *
      omega
    rw [hm, Binary64.isFinite, exponentField_ofFields (by omega) hfraction]
    simp only [lt_beyond hlt hpower, iff_true, decide_eq_true_eq]
    omega
  · simp [Binary64.isFinite, infinity,
      exponentField_ofFields (Nat.lt_succ_self 2047) (two_pow_pos 52), Nat.not_lt.mpr hle]

theorem Packs.magnitude (h : Packs negative value x) (hlt : value < beyond) :
    x.magnitude = value := by
  rcases h with ⟨hlt, rfl⟩ | ⟨m, power, hle, hlt, hpower, hm, rfl⟩ | ⟨hle, rfl⟩
  · simp only [Binary64.magnitude, significand, shift,
      exponentField_ofFields (Nat.zero_lt_succ _) hlt, fraction_ofFields (Nat.zero_lt_succ _) hlt,
      if_true]
    exact Nat.mul_one _
  · have hfraction : m - Nat.pow 2 52 < Nat.pow 2 52 := by
      simp only [two_pow_52, two_pow_53] at *
      omega
    have hexponent : power + 1 < 2048 := by omega
    simp only [Binary64.magnitude, significand, shift, exponentField_ofFields hexponent hfraction,
      fraction_ofFields hexponent hfraction, Nat.succ_ne_zero, if_false, Nat.add_sub_cancel]
    rw [hm, Nat.add_sub_cancel' hle]
  · omega

theorem isFinite_ofRatio (negative : Bool) (hden : 0 < den) :
    (ofRatio negative num den).isFinite ↔ rounded num den < beyond :=
  (packs_ofRatio negative num hden).isFinite

theorem magnitude_ofRatio (negative : Bool) (hden : 0 < den) (h : rounded num den < beyond) :
    (ofRatio negative num den).magnitude = rounded num den :=
  (packs_ofRatio negative num hden).magnitude h

theorem isNegative_ofRatio (negative : Bool) (num : Nat) (hden : 0 < den) :
    (ofRatio negative num den).isNegative = negative :=
  (packs_ofRatio negative num hden).isNegative

end OfRatio

end Binary64

end HistoryKeeper
