import HistoryKeeper.Proofs.Number.Rounding

/-!
# Arithmetic on doubles that are not negative

The results of `ofNat`, `add`, `sub`, `mul` and `div` as roundings of exact numbers.
-/

namespace HistoryKeeper.Binary64

section Rounded

variable {num den num' den' k : Nat}

theorem rounded_mul_right {c : Nat} (hden : 0 < den) (hc : 0 < c) :
    rounded (num * c) (den * c) = rounded num den := by
  have hmul : num * c * den = num * (den * c) := by ring
  exact Nat.le_antisymm (rounded_mono (Nat.mul_pos hden hc) hden (Nat.le_of_eq hmul))
    (rounded_mono hden (Nat.mul_pos hden hc) (Nat.le_of_eq hmul.symm))

/-- 2 to this power in units of 2^-1074. -/
def power (k : Nat) : Nat := Nat.pow 2 k * unit

theorem power_succ (k : Nat) : power (k + 1) = 2 * power k := by
  rw [power, power, two_pow_add k 1]
  simp only [show Nat.pow 2 1 = 2 from rfl]
  ring

theorem power_lt_beyond (hk : k < 1024) : power k < beyond := by
  obtain ⟨places, hplaces⟩ : ∃ places, places = 1074 := ⟨_, rfl⟩
  rw [power, @beyond_eq 1 (2097 - k + k) (by omega), unit_eq hplaces, ← two_pow_add,
    ← two_pow_add]
  exact Nat.pow_lt_pow_right (by decide) (by omega)

theorem rounded_two_pow (k : Nat) : rounded (Nat.pow 2 k) 1 = power k := by
  obtain ⟨places, hplaces⟩ : ∃ places, places = 1074 := ⟨_, rfl⟩
  have hunits : Nat.pow 2 k * unit = 1 * Nat.pow 2 (k + places) * 1 := by
    rw [unit_eq hplaces, two_pow_add]
    ring
  rw [power, rounded_of_exact Nat.one_pos (by decide) hunits, hunits]
  ring

theorem rounded_le_power (hden : 0 < den) (h : num ≤ Nat.pow 2 k * den) :
    rounded num den ≤ power k := by
  rw [← rounded_two_pow]
  exact rounded_mono hden Nat.one_pos (Nat.le_trans (Nat.le_of_eq (Nat.mul_one _)) h)

theorem rounded_natural_le_power (h : num ≤ Nat.pow 2 k) : rounded num 1 ≤ power k :=
  rounded_le_power Nat.one_pos (h.trans_eq (Nat.mul_one _).symm)

theorem rounded_unit_le_power (h : num ≤ power k) : rounded num unit ≤ power k :=
  rounded_le_power unit_pos h

end Rounded

section Operations

variable {x y : Binary64} {n : Nat}

theorem isNegative_ofNat (n : Nat) : (ofNat n).isNegative = false :=
  isNegative_ofRatio false n Nat.one_pos

theorem magnitude_ofNat (h : rounded n 1 < beyond) : (ofNat n).magnitude = rounded n 1 :=
  magnitude_ofRatio false Nat.one_pos h

theorem units_of_not_negative (h : x.isNegative = false) : x.units = x.magnitude := by
  simp [units, h]

theorem units_neg (h : x.isNegative = false) : x.neg.units = -x.magnitude := by
  simp [units, neg_isNegative, h, neg_magnitude]

theorem add_eq (hx : x.isNegative = false) (hy : y.isNegative = false) :
    x.add y = ofRatio false (x.magnitude + y.magnitude) unit := by
  have hsum : x.units + y.units = (x.magnitude + y.magnitude : Nat) := by
    rw [units_of_not_negative hx, units_of_not_negative hy, Int.natCast_add]
  rw [add, hsum, Int.natAbs_natCast, decide_eq_false (Int.not_lt.mpr (Int.natCast_nonneg _))]

theorem sub_eq (hx : x.isNegative = false) (hy : y.isNegative = false)
    (hle : y.magnitude ≤ x.magnitude) :
    x.sub y = ofRatio false (x.magnitude - y.magnitude) unit := by
  have hdifference : x.units + y.neg.units = (x.magnitude - y.magnitude : Nat) := by
    rw [units_of_not_negative hx, units_neg hy]
    omega
  rw [sub, add, hdifference, Int.natAbs_natCast,
    decide_eq_false (Int.not_lt.mpr (Int.natCast_nonneg _))]

theorem mul_eq (hx : x.isNegative = false) (hy : y.isNegative = false) :
    x.mul y = ofRatio false (x.magnitude * y.magnitude) (unit * unit) := by
  rw [mul, hx, hy]
  rfl

theorem div_eq (hx : x.isNegative = false) (hy : y.isNegative = false) :
    x.div y = ofRatio false x.magnitude y.magnitude := by
  rw [div, hx, hy]
  rfl

end Operations

end HistoryKeeper.Binary64
