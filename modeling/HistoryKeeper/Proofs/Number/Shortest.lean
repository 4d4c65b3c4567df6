import Mathlib.Algebra.Order.Field.Basic
import Mathlib.Algebra.Order.Field.Power
import Mathlib.Algebra.Order.Ring.Rat
import Mathlib.Tactic.Linarith
import HistoryKeeper.Number.Decimal
import HistoryKeeper.Proofs.Number.Arithmetic

/-!
# Shortest decimals and the largest double

The shortest decimal of a double does not lie above the numbers that round to it
(`holds_shortest`), so for all but the largest doubles it is at most `midway`, between the two
largest (`ratio_shortest_le`). A decimal up to there still gives a finite double when its digits and
its power of ten are rounded on their own (`isFinite_mul_power`).
-/

namespace HistoryKeeper

namespace Decimal

/-- `n · 10 ^ exponent` -/
def ratio (n : Nat) (exponent : Int) : ℚ :=
  n * 10 ^ exponent

theorem ratio_mul_pow (n zeros : Nat) (exponent : Int) :
    ratio (n * 10 ^ zeros) exponent = ratio n (exponent + zeros) := by
  rw [ratio, ratio, zpow_add₀ (by norm_num), zpow_natCast]
  push_cast
  ring

theorem ratio_mono {m n : Nat} (h : m ≤ n) (exponent : Int) : ratio m exponent ≤ ratio n exponent :=
  mul_le_mul_of_nonneg_right (by exact_mod_cast h) (zpow_nonneg (by norm_num) exponent)

theorem ratio_natCast (n k : Nat) : ratio n k = (n * 10 ^ k : Nat) := by
  rw [ratio, zpow_natCast]
  push_cast
  rfl

theorem stripZeros_mul_pow (fuel n : Nat) :
    (stripZeros fuel n).1 * 10 ^ (stripZeros fuel n).2 = n := by
  induction fuel generalizing n with
  | zero => simp [stripZeros]
  | succ fuel ih =>
    rw [stripZeros]
    split
    · have hzero : n % 10 = 0 := by simp_all
      have hn := ih (n / 10)
      dsimp only
      rw [pow_succ, ← mul_assoc, hn]
      omega
    · simp

end Decimal

namespace Binary64

open Decimal (ratio)

theorem gridPoint_pos (exponent : Int) (n : Nat) : 0 < (gridPoint exponent n).2 := by
  rw [gridPoint]
  split
  · exact Nat.one_pos
  · exact Nat.pow_pos (by decide)

theorem gridPoint_eq_mul (exponent : Int) (n : Nat) :
    gridPoint exponent n = (n * (gridPoint exponent 1).1, (gridPoint exponent 1).2) := by
  simp only [gridPoint]
  split <;> simp

theorem gridPoint_one_pos (exponent : Int) : 0 < (gridPoint exponent 1).1 := by
  rw [gridPoint]
  split
  · exact Nat.mul_pos Nat.one_pos (Nat.pow_pos (by decide))
  · exact Nat.one_pos

theorem gridPoint_eq (exponent : Int) (n : Nat) :
    ((gridPoint exponent n).1 : ℚ) = ratio n exponent * (gridPoint exponent n).2 := by
  rw [gridPoint, ratio]
  split
  · obtain ⟨k, rfl⟩ := Int.eq_ofNat_of_zero_le ‹_›
    simp
  · obtain ⟨k, hk⟩ := Int.eq_ofNat_of_zero_le (show 0 ≤ -exponent by omega)
    obtain rfl : exponent = -(k : Int) := by omega
    simp

namespace Interval

variable {i : Interval} {exponent : Int} {n : Nat}

/-- The number rounds to the double, or lies at an end of what does. -/
structure Holds (i : Interval) (point : ℚ) : Prop where
  low_le : i.low ≤ point * i.scale
  le_high : point * i.scale ≤ i.high

/-- The double's decimal on this grid is in the interval. -/
def HoldsPoint (i : Interval) (exponent : Int) (n : Nat) : Prop :=
  i.contains (gridPoint exponent n).1 (gridPoint exponent n).2 = true

theorem HoldsPoint.holds (h : i.HoldsPoint exponent n) : i.Holds (ratio n exponent) := by
  have hle : i.low * (gridPoint exponent n).2 ≤ (gridPoint exponent n).1 * i.scale ∧
      (gridPoint exponent n).1 * i.scale ≤ i.high * (gridPoint exponent n).2 := by
    simp only [HoldsPoint, contains] at h
    split at h <;> simp at h <;> omega
  have hpos : (0 : ℚ) < (gridPoint exponent n).2 := by exact_mod_cast gridPoint_pos exponent n
  have hpoint : ratio n exponent * i.scale * (gridPoint exponent n).2 =
      (gridPoint exponent n).1 * i.scale := by
    rw [gridPoint_eq]
    ring
  constructor
  · refine le_of_mul_le_mul_right ?_ hpos
    rw [hpoint]
    exact_mod_cast hle.1
  · refine le_of_mul_le_mul_right ?_ hpos
    rw [hpoint]
    exact_mod_cast hle.2

theorem holdsPoint_nearestOnGrid (h : i.nearestOnGrid exponent = some n) :
    i.HoldsPoint exponent n := by
  simp only [nearestOnGrid] at h
  split at h
  · cases h
  · cases h
    assumption
  · cases h
    assumption
  · split_ifs at h <;> cases h <;> assumption

/-- On a grid finer than the lower part of the interval, the point next below the value is in it. -/
theorem exists_nearestOnGrid (hvalue : i.value < i.high) (hscale : 0 < i.scale)
    (hfine : (gridPoint exponent 1).1 * i.scale + i.low * (gridPoint exponent 1).2 ≤
      i.value * (gridPoint exponent 1).2) :
    ∃ n, i.nearestOnGrid exponent = some n := by
  have hnum := gridPoint_one_pos exponent
  have hden := gridPoint_pos exponent 1
  set num := (gridPoint exponent 1).1 with hnum_def
  set den := (gridPoint exponent 1).2 with hden_def
  set below := i.value * den / (i.scale * num) with hbelow
  have hpos : 0 < i.scale * num := Nat.mul_pos hscale hnum
  have hle : below * num * i.scale ≤ i.value * den :=
    calc below * num * i.scale = below * (i.scale * num) := by ring
      _ ≤ i.value * den := Nat.div_mul_le_self ..
  have hlt : i.value * den < below * num * i.scale + num * i.scale :=
    calc i.value * den < (i.scale * num) * (below + 1) := Nat.lt_mul_div_succ _ hpos
      _ = below * num * i.scale + num * i.scale := by ring
  have hhigh : i.value * den < i.high * den := Nat.mul_lt_mul_of_pos_right hvalue hden
  have hfits : i.HoldsPoint exponent below := by
    rw [HoldsPoint, gridPoint_eq_mul exponent below, ← hnum_def, ← hden_def]
    simp only [contains]
    split <;> simp <;> omega
  simp only [nearestOnGrid]
  split
  · exact absurd hfits (by simp_all [HoldsPoint])
  · exact ⟨_, rfl⟩
  · exact ⟨_, rfl⟩
  · split_ifs <;> exact ⟨_, rfl⟩

theorem holdsPoint_firstGrid {count : Nat}
    (h : ∃ n, i.nearestOnGrid (exponent - count) = some n) :
    i.HoldsPoint (i.firstGrid count exponent).2 (i.firstGrid count exponent).1 := by
  induction count generalizing exponent with
  | zero =>
    obtain ⟨n, hn⟩ := h
    rw [Int.natCast_zero, Int.sub_zero] at hn
    rw [firstGrid, hn]
    exact holdsPoint_nearestOnGrid hn
  | succ count ih =>
    rw [firstGrid]
    split
    · exact holdsPoint_nearestOnGrid ‹_›
    · exact ih (by rwa [Int.sub_sub, Int.add_comm, ← Int.natCast_succ])

end Interval

/-! ### The last grid -/

/-- The coarsest exponent for a double of this many binary places, in units of 2^-1074. -/
def coarse (size : Nat) : Int :=
  let bits : Int := (size : Int) - 1074
  if 0 ≤ bits then bits / 3 + 1 else bits * 3 / 10 + 1

theorem ten_pow_le (k : Nat) : Nat.pow 10 k ≤ Nat.pow 2 (10 * (k / 3) + 4 * (k % 3)) := by
  have hten : 10 ^ 3 ≤ 2 ^ 10 := by decide
  have hsixteen : 10 ≤ 2 ^ 4 := by decide
  calc 10 ^ k = (10 ^ 3) ^ (k / 3) * 10 ^ (k % 3) := by
        rw [← Nat.pow_mul, ← Nat.pow_add, Nat.div_add_mod]
    _ ≤ (2 ^ 10) ^ (k / 3) * (2 ^ 4) ^ (k % 3) :=
        Nat.mul_le_mul (Nat.pow_le_pow_left hten _) (Nat.pow_le_pow_left hsixteen _)
    _ = 2 ^ (10 * (k / 3) + 4 * (k % 3)) := by rw [← Nat.pow_mul, ← Nat.pow_mul, ← Nat.pow_add]

theorem two_pow_le_ten_pow (k : Nat) : Nat.pow 2 (3 * k) ≤ Nat.pow 10 k := by
  calc 2 ^ (3 * k) = (2 ^ 3) ^ k := Nat.pow_mul ..
    _ ≤ 10 ^ k := Nat.pow_le_pow_left (by decide) k

/-- The last grid is finer than the double's neighbours, for doubles of any size. -/
theorem last_grid {size : Nat} (h : size < 2099) :
    (gridPoint (coarse size - 64) 1).1 * (4 * unit) ≤
      Nat.pow 2 (size - 52) * (gridPoint (coarse size - 64) 1).2 := by
  obtain ⟨places, hplaces⟩ : ∃ places, places = 1074 := ⟨_, rfl⟩
  have hfour : 4 * unit = Nat.pow 2 (2 + places) := by
    rw [unit_eq hplaces, two_pow_add]
  rw [hfour]
  unfold gridPoint
  split
  · rename_i hexponent
    simp only [one_mul, mul_one]
    calc Nat.pow 10 (coarse size - 64).toNat * Nat.pow 2 (2 + places)
        ≤ Nat.pow 2 (10 * ((coarse size - 64).toNat / 3) + 4 * ((coarse size - 64).toNat % 3)) *
            Nat.pow 2 (2 + places) := Nat.mul_le_mul_right _ (ten_pow_le _)
      _ ≤ Nat.pow 2 (size - 52) := by
          rw [← two_pow_add]
          exact two_pow_le (by simp only [coarse] at *; split at hexponent <;> omega)
  · rename_i hexponent
    simp only [one_mul]
    calc Nat.pow 2 (2 + places)
        ≤ Nat.pow 2 (size - 52) * Nat.pow 2 (3 * (-(coarse size - 64)).toNat) := by
          rw [← two_pow_add]
          exact two_pow_le (by simp only [coarse] at *; split at hexponent <;> omega)
      _ ≤ Nat.pow 2 (size - 52) * Nat.pow 10 (-(coarse size - 64)).toNat :=
          Nat.mul_le_mul_left _ (two_pow_le_ten_pow _)

section Interval

variable {x : Binary64}

theorem size_le (h : x.magnitude ≠ 0) : x.magnitude.log2 ≤ 52 + x.shift := by
  have hlt : x.magnitude < 2 ^ (53 + x.shift) := by
    rw [pow_add]
    exact Nat.mul_lt_mul_of_pos_right x.significand_lt (two_pow_pos x.shift)
  have := (Nat.log2_lt h).mpr hlt
  omega

theorem coarseExponent_eq (x : Binary64) : x.coarseExponent = coarse x.magnitude.log2 := rfl

theorem low_add_le (h : x.magnitude ≠ 0) :
    0 < x.interval.low ∧ x.interval.low + Nat.pow 2 x.shift ≤ x.interval.value := by
  have hgap : Nat.pow 2 x.shift ≤ x.magnitude :=
    Nat.le_mul_of_pos_left _ (Nat.pos_of_ne_zero fun h0 => h (by simp [magnitude, h0]))
  have hpos := two_pow_pos x.shift
  simp only [interval]
  split <;> omega

theorem exists_lastGrid (h : x.magnitude ≠ 0) :
    ∃ n, x.interval.nearestOnGrid (x.coarseExponent - 64) = some n := by
  have hsize := size_le h
  have hshift : x.shift ≤ 2046 := by
    have := x.exponentField_lt
    simp only [shift]
    omega
  have hgrid := @last_grid x.magnitude.log2 (by omega)
  rw [← coarseExponent_eq] at hgrid
  have hgap : Nat.pow 2 (x.magnitude.log2 - 52) ≤ Nat.pow 2 x.shift := two_pow_le (by omega)
  refine Interval.exists_nearestOnGrid ?_ (Nat.mul_pos (by decide) unit_pos) ?_
  · exact Nat.lt_add_of_pos_right (Nat.mul_pos (by decide) (two_pow_pos _))
  · calc (gridPoint (x.coarseExponent - 64) 1).1 * (4 * unit) +
          x.interval.low * (gridPoint (x.coarseExponent - 64) 1).2
        ≤ Nat.pow 2 x.shift * (gridPoint (x.coarseExponent - 64) 1).2 +
          x.interval.low * (gridPoint (x.coarseExponent - 64) 1).2 :=
          Nat.add_le_add_right (hgrid.trans (Nat.mul_le_mul_right _ hgap)) _
      _ = (x.interval.low + Nat.pow 2 x.shift) * (gridPoint (x.coarseExponent - 64) 1).2 := by ring
      _ ≤ x.interval.value * (gridPoint (x.coarseExponent - 64) 1).2 :=
          Nat.mul_le_mul_right _ (low_add_le h).2

/-- The shortest decimal is among the numbers that round to the double. -/
theorem holds_shortest (h : x.magnitude ≠ 0) :
    x.interval.Holds (ratio x.shortest.1 x.shortest.2) := by
  have hgrid := (Interval.holdsPoint_firstGrid (exists_lastGrid h)).holds
  unfold shortest
  dsimp only
  generalize x.interval.firstGrid 64 x.coarseExponent = grid at *
  rw [← Decimal.stripZeros_mul_pow 20 grid.1, Decimal.ratio_mul_pow] at hgrid
  exact hgrid

theorem shortest_ne_zero (h : x.magnitude ≠ 0) : x.shortest.1 ≠ 0 := by
  intro hzero
  have hlow := (holds_shortest h).low_le
  rw [hzero, ratio, Nat.cast_zero, zero_mul, zero_mul] at hlow
  exact absurd (low_add_le h).1 (Nat.not_lt.mpr (by exact_mod_cast hlow))

end Interval

/-- No finite double is farther from zero. -/
def IsLargest (x : Binary64) : Prop :=
  x.exponentField = 2046 ∧ x.fraction = Nat.pow 2 52 - 1

theorem eq_of_toNat_bits {x y : Binary64} (h : x.bits.toNat = y.bits.toNat) : x = y := by
  cases x
  cases y
  exact congrArg mk (UInt64.toNat_inj.mp h)

theorem eq_of_isLargest {x : Binary64} (h : x.IsLargest) :
    x = ofFields false 2046 (Nat.pow 2 52 - 1) ∨ x = ofFields true 2046 (Nat.pow 2 52 - 1) := by
  have hbits : x.bits.toNat < 2 ^ 64 := x.bits.toNat_lt
  have hfields : ∀ negative, (ofFields negative 2046 (Nat.pow 2 52 - 1)).bits.toNat =
      (if negative then Nat.pow 2 63 else 0) + 2046 * Nat.pow 2 52 + (Nat.pow 2 52 - 1) :=
    fun negative => toNat_ofFields (by decide) (by decide)
  obtain ⟨hexponent, hfraction⟩ := h
  simp only [exponentField, fraction, two_pow_52, two_pow_11] at hexponent hfraction
  by_cases hsign : x.bits.toNat < 9223372036854775808
  · refine .inl (eq_of_toNat_bits ?_)
    rw [hfields]
    simp only [two_pow_52, two_pow_63, if_neg, Bool.false_eq_true, not_false_eq_true]
    omega
  · refine .inr (eq_of_toNat_bits ?_)
    rw [hfields]
    simp only [two_pow_52, two_pow_63, if_true]
    omega

theorem shortest_of_isLargest {x : Binary64} (h : x.IsLargest) :
    x.shortest = (17976931348623157, 292) := by
  have hshortest : ∀ negative, (ofFields negative 2046 (Nat.pow 2 52 - 1)).shortest =
      (17976931348623157, 292) := by decide +kernel
  rcases eq_of_isLargest h with rfl | rfl
  · exact hshortest false
  · exact hshortest true

/-- The number in the middle between the two largest doubles. -/
def midway : Nat := (Nat.pow 2 54 - 3) * Nat.pow 2 970

theorem midway_eq {k : Nat} (h : k = 970) : midway = (Nat.pow 2 54 - 3) * Nat.pow 2 k := by
  unfold midway
  generalize 970 = places at *
  rw [h]

/-- Long powers are multiplied from shorter ones, which can be written out. -/
theorem ten_pow_add (m k : Nat) : Nat.pow 10 (m + k) = Nat.pow 10 m * Nat.pow 10 k :=
  Nat.pow_add ..

theorem size64_mul_le_midway {k : Nat} (h : k = 288) : Word.size64 * Nat.pow 10 k ≤ midway := by
  obtain ⟨places, hplaces⟩ : ∃ places, places = 970 := ⟨_, rfl⟩
  rw [midway_eq hplaces, show k = 144 + 144 by omega,
    show places = 250 + 240 + (240 + 240) by omega]
  simp only [ten_pow_add, two_pow_add]
  decide

theorem size64_le_midway : Word.size64 ≤ midway := by
  obtain ⟨k, hk⟩ : ∃ k, k = 288 := ⟨_, rfl⟩
  exact (Nat.le_mul_of_pos_right _ (Nat.pow_pos (by decide))).trans (size64_mul_le_midway hk)

theorem midway_lt {k : Nat} (h : k = 309) : midway < Nat.pow 10 k := by
  obtain ⟨places, hplaces⟩ : ∃ places, places = 970 := ⟨_, rfl⟩
  rw [midway_eq hplaces, show k = 155 + 154 by omega,
    show places = 250 + 240 + (240 + 240) by omega]
  simp only [ten_pow_add, two_pow_add]
  decide

theorem midway_units {k : Nat} (h : k = 2045) :
    midway * (4 * unit) = (4 * (Nat.pow 2 53 - 2) + 2) * Nat.pow 2 k := by
  obtain ⟨low, hlow⟩ : ∃ low, low = 970 := ⟨_, rfl⟩
  obtain ⟨places, hplaces⟩ : ∃ places, places = 1074 := ⟨_, rfl⟩
  rw [midway_eq hlow, unit_eq hplaces, show k = low + 1 + places by omega, two_pow_add,
    two_pow_add low 1]
  simp only [two_pow_53, show Nat.pow 2 54 = 18014398509481984 from rfl,
    show Nat.pow 2 1 = 2 from rfl]
  ring

theorem high_le {x : Binary64} (hfinite : x.isFinite) (h : ¬ x.IsLargest) :
    x.interval.high ≤ midway * x.interval.scale := by
  obtain ⟨k, hk⟩ : ∃ k, k = 2045 := ⟨_, rfl⟩
  have hhigh : x.interval.high = (4 * x.significand + 2) * Nat.pow 2 x.shift := by
    simp only [interval, magnitude]
    ring
  have hscale : x.interval.scale = 4 * unit := rfl
  rw [hhigh, hscale, midway_units hk]
  simp only [isFinite, decide_eq_true_eq] at hfinite
  have hsignificand := x.significand_lt
  rcases Nat.lt_or_eq_of_le (show x.shift ≤ k by simp only [shift]; omega) with hlt | heq
  · calc (4 * x.significand + 2) * Nat.pow 2 x.shift
        ≤ (2 * (4 * (Nat.pow 2 53 - 2) + 2)) * Nat.pow 2 (k - 1) :=
          Nat.mul_le_mul (by simp only [two_pow_53] at *; omega) (two_pow_le (by omega))
      _ = (4 * (Nat.pow 2 53 - 2) + 2) * Nat.pow 2 (1 + (k - 1)) := by
          rw [two_pow_add]
          simp only [show Nat.pow 2 1 = 2 from rfl]
          ring
      _ = (4 * (Nat.pow 2 53 - 2) + 2) * Nat.pow 2 k := by rw [Nat.add_sub_cancel' (by omega)]
  · rw [heq]
    refine Nat.mul_le_mul_right _ ?_
    have hfraction := x.fraction_lt
    simp only [shift] at heq
    have hne : x.fraction ≠ Nat.pow 2 52 - 1 := fun hf => h ⟨by omega, hf⟩
    simp only [significand, two_pow_52, two_pow_53] at *
    split <;> omega

theorem ratio_shortest_le {x : Binary64} (hx : x.magnitude ≠ 0) (hfinite : x.isFinite)
    (h : ¬ x.IsLargest) : ratio x.shortest.1 x.shortest.2 ≤ midway := by
  have hscale : (0 : ℚ) < x.interval.scale := by
    exact_mod_cast Nat.mul_pos (by decide : 0 < 4) unit_pos
  refine le_of_mul_le_mul_right ?_ hscale
  exact (holds_shortest hx).le_high.trans (by exact_mod_cast high_le hfinite h)

/-- The powers of ten that are doubles end at 10^308. The exponent is a variable in what follows, as
its power is too long to be written out. -/
theorem rounded_lt_beyond {n top : Nat} (htop : top = 308) (h : n ≤ Nat.pow 10 top) :
    rounded n 1 < beyond := by
  obtain ⟨shift, hshift⟩ : ∃ shift, shift = 971 := ⟨_, rfl⟩
  obtain ⟨places, hplaces⟩ : ∃ places, places = 1074 := ⟨_, rfl⟩
  have hlargest : Nat.pow 10 top ≤ (Nat.pow 2 53 - 1) * Nat.pow 2 shift := by
    rw [show top = 154 + 154 by omega, show shift = 251 + 240 + (240 + 240) by omega]
    simp only [ten_pow_add, two_pow_add]
    decide
  have hunits : (Nat.pow 2 53 - 1) * Nat.pow 2 shift * unit =
      (Nat.pow 2 53 - 1) * Nat.pow 2 (shift + places) * 1 := by
    rw [unit_eq hplaces, two_pow_add]
    ring
  calc rounded n 1 ≤ rounded ((Nat.pow 2 53 - 1) * Nat.pow 2 shift) 1 :=
        rounded_mono Nat.one_pos Nat.one_pos (Nat.mul_le_mul_right 1 (h.trans hlargest))
    _ = (Nat.pow 2 53 - 1) * Nat.pow 2 (shift + places) :=
        rounded_of_exact Nat.one_pos (by decide) hunits
    _ < beyond := lt_beyond (by decide) (by omega)

theorem isFinite_mul_mono {m n a b top : Nat} (htop : top = 308) (hmn : m ≤ n) (hab : a ≤ b)
    (hn : n ≤ Nat.pow 10 top) (hb : b ≤ Nat.pow 10 top) (h : ((ofNat n).mul (ofNat b)).isFinite) :
    ((ofNat m).mul (ofNat a)).isFinite := by
  have hpos : 0 < unit * unit := Nat.mul_pos unit_pos unit_pos
  rw [mul_eq (isNegative_ofNat _) (isNegative_ofNat _), isFinite_ofRatio false hpos] at h ⊢
  refine Nat.lt_of_le_of_lt (rounded_mono hpos hpos (Nat.mul_le_mul_right _ ?_)) h
  rw [magnitude_ofNat (rounded_lt_beyond htop hn), magnitude_ofNat (rounded_lt_beyond htop hb),
    magnitude_ofNat (rounded_lt_beyond htop (hmn.trans hn)),
    magnitude_ofNat (rounded_lt_beyond htop (hab.trans hb))]
  exact Nat.mul_le_mul (rounded_mono Nat.one_pos Nat.one_pos (by omega))
    (rounded_mono Nat.one_pos Nat.one_pos (by omega))

/-- For each power of ten the largest factor of 64 places that stays below `midway`. Up to 10^288
this is the largest of all. -/
theorem isFinite_midway : ∀ k ∈ List.range' 288 21,
    ((ofNat (min (midway / Nat.pow 10 k) (Word.size64 - 1))).mul (ofNat (Nat.pow 10 k))).isFinite =
      true := by
  decide +kernel

/-- The two roundings of a product do not lead from below `midway` out of the finite doubles. -/
theorem isFinite_mul_power {n k : Nat} (hn : n < Word.size64) (hk : k ≤ 308)
    (h : n * Nat.pow 10 k ≤ midway) : ((ofNat n).mul (ofNat (Nat.pow 10 k))).isFinite := by
  have hpower {a b : Nat} (h : a ≤ b) : Nat.pow 10 a ≤ Nat.pow 10 b :=
    Nat.pow_le_pow_right (by decide) h
  obtain ⟨least, hleast⟩ : ∃ least, least = 288 := ⟨_, rfl⟩
  obtain ⟨top, htop⟩ : ∃ top, top = 308 := ⟨_, rfl⟩
  obtain ⟨b, hb, hle, hbound⟩ : ∃ b ∈ List.range' 288 21, k ≤ b ∧ n * Nat.pow 10 b ≤ midway := by
    rcases Nat.lt_or_ge k 288 with hlt | hge
    · refine ⟨least, List.mem_range'_1.mpr (by omega), by omega, ?_⟩
      exact (Nat.mul_le_mul_right _ (Nat.le_of_lt hn)).trans (size64_mul_le_midway hleast)
    · exact ⟨k, List.mem_range'_1.mpr (by omega), Nat.le_refl k, h⟩
  have hquotient : n ≤ midway / Nat.pow 10 b :=
    (Nat.le_div_iff_mul_le (Nat.pow_pos (by decide))).mpr hbound
  have hword : Word.size64 - 1 ≤ Nat.pow 10 top :=
    Nat.le_trans (by decide) (hpower (show 20 ≤ top by omega))
  have hb' : b ≤ top := by
    have := List.mem_range'_1.mp hb
    omega
  exact isFinite_mul_mono htop (Nat.le_min.mpr ⟨hquotient, Nat.le_sub_one_of_lt hn⟩) (hpower hle)
    (Nat.le_trans (Nat.min_le_right ..) hword) (hpower hb') (isFinite_midway b hb)

end Binary64

end HistoryKeeper
