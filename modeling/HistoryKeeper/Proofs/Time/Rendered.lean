import Mathlib.Tactic.Linarith
import HistoryKeeper.Proofs.Number.Arithmetic
import HistoryKeeper.Proofs.Time.Duration
import HistoryKeeper.Time.Text

/-!
# Durations as text, and how far off they are

`Duration.text` decides on whole milliseconds between its forms but prints rounded doubles. So the
seconds it prints are the nearest tenth or hundredth to the exact rest, up to an error of the
doubles (`near_toBinary64`, `near_rest`), and at the end of a minute they come out as 60.
-/

namespace HistoryKeeper

/-- A count of which `10 ^ places` make one, with a point in front of the last `places` digits. -/
def Decimal.pointed (places n : Nat) : List Char :=
  digits (n / Nat.pow 10 places) ++ ['.'] ++ padded places (n % Nat.pow 10 places)

theorem Binary64.fixed_eq_pointed {places : Nat} (hplaces : places ≠ 0) {x : Binary64}
    (hx : x.isNegative = false) :
    x.fixed places =
      Decimal.pointed places (roundHalfEven (x.magnitude * Nat.pow 10 places) unit) := by
  simp [fixed, Decimal.pointed, hx, hplaces]

namespace Duration

open Binary64 (rounded unit unit_pos power)

variable (d : Duration)

theorem rounded_seconds_le : rounded d.seconds 1 ≤ power 64 :=
  Binary64.rounded_natural_le_power (Nat.le_of_lt d.seconds_lt)

theorem rounded_subsecond_le : rounded d.subsecond nanosPerSecond ≤ power 64 :=
  Binary64.rounded_le_power (by decide) (Nat.le_trans (Nat.le_of_lt d.subsecond_lt) (by decide))

theorem magnitude_ofNat_of_le {n : Nat} (h : n ≤ Nat.pow 2 64) :
    (Binary64.ofNat n).magnitude = rounded n 1 :=
  Binary64.magnitude_ofNat (Nat.lt_of_le_of_lt (Binary64.rounded_natural_le_power h)
    (Binary64.power_lt_beyond (by decide)))

theorem magnitude_seconds : (Binary64.ofNat d.seconds).magnitude = rounded d.seconds 1 :=
  magnitude_ofNat_of_le (Nat.le_of_lt d.seconds_lt)

theorem div_subsecond :
    (Binary64.ofNat d.subsecond).div (Binary64.ofNat nanosPerSecond) =
      Binary64.ofRatio false (d.subsecond * unit) (nanosPerSecond * unit) := by
  have hsmall : d.subsecond < Nat.pow 2 53 := Nat.lt_trans d.subsecond_lt (by decide)
  have hsecond : nanosPerSecond < Nat.pow 2 53 := by decide
  rw [Binary64.div_eq (Binary64.isNegative_ofNat _) (Binary64.isNegative_ofNat _),
    magnitude_ofNat_of_le (Nat.le_trans (Nat.le_of_lt hsmall) (by decide)),
    magnitude_ofNat_of_le (Nat.le_trans (Nat.le_of_lt hsecond) (by decide)),
    Binary64.rounded_natural hsmall, Binary64.rounded_natural hsecond]

theorem magnitude_div_subsecond :
    ((Binary64.ofNat d.subsecond).div (Binary64.ofNat nanosPerSecond)).magnitude =
      rounded d.subsecond nanosPerSecond := by
  have hscale : rounded (d.subsecond * unit) (nanosPerSecond * unit) =
      rounded d.subsecond nanosPerSecond := Binary64.rounded_mul_right (by decide) unit_pos
  rw [div_subsecond, Binary64.magnitude_ofRatio false (Nat.mul_pos (by decide) unit_pos), hscale]
  rw [hscale]
  exact Nat.lt_of_le_of_lt d.rounded_subsecond_le (Binary64.power_lt_beyond (by decide))

theorem toBinary64_eq :
    d.toBinary64 = Binary64.ofRatio false
      (rounded d.seconds 1 + rounded d.subsecond nanosPerSecond) unit := by
  rw [toBinary64, Binary64.add_eq (Binary64.isNegative_ofNat _), magnitude_seconds,
    magnitude_div_subsecond]
  rw [div_subsecond]
  exact Binary64.isNegative_ofRatio _ _ (Nat.mul_pos (by decide) unit_pos)

theorem isNegative_toBinary64 : d.toBinary64.isNegative = false := by
  rw [toBinary64_eq]
  exact Binary64.isNegative_ofRatio _ _ unit_pos

theorem parts_le : rounded d.seconds 1 + rounded d.subsecond nanosPerSecond ≤ power 65 := by
  have hseconds := d.rounded_seconds_le
  have hsubsecond := d.rounded_subsecond_le
  rw [Binary64.power_succ 64]
  omega

theorem rounded_parts_le :
    rounded (rounded d.seconds 1 + rounded d.subsecond nanosPerSecond) unit ≤ power 65 :=
  Binary64.rounded_unit_le_power d.parts_le

theorem magnitude_toBinary64 :
    d.toBinary64.magnitude =
      rounded (rounded d.seconds 1 + rounded d.subsecond nanosPerSecond) unit := by
  rw [toBinary64_eq]
  exact Binary64.magnitude_ofRatio false unit_pos (Nat.lt_of_le_of_lt
    d.rounded_parts_le (Binary64.power_lt_beyond (by decide)))

/-- Two numbers are at most `slack` apart. -/
def Within (slack a b : Nat) : Prop := a ≤ b + slack ∧ b ≤ a + slack

theorem nanos_units :
    d.nanos * unit = nanosPerSecond * (d.seconds * unit) + d.subsecond * unit := by
  rw [nanos_eq]
  ring

/-- Numbers of this size, in units of 2^-1074, are small beside one. -/
theorem two_pow_200_le_unit : Nat.pow 2 200 ≤ unit := by
  obtain ⟨k, hk⟩ : ∃ k, k = 1074 := ⟨_, rfl⟩
  rw [Binary64.unit_eq hk]
  exact Binary64.two_pow_le (by omega)

/-- The double is off by a 2^52nd part and less than a 2^10th of a nanosecond. -/
theorem near_toBinary64 :
    Within (d.nanos * unit + Nat.pow 2 42 * unit)
      (Nat.pow 2 52 * (nanosPerSecond * d.toBinary64.magnitude))
      (Nat.pow 2 52 * (d.nanos * unit)) := by
  obtain ⟨hseconds, hseconds'⟩ := @Binary64.rounded_near d.seconds 1 Nat.one_pos
  obtain ⟨hsubsecond, hsubsecond'⟩ :=
    @Binary64.rounded_near d.subsecond nanosPerSecond (by decide)
  obtain ⟨hsum, hsum'⟩ :=
    Binary64.rounded_unit_near (rounded d.seconds 1 + rounded d.subsecond nanosPerSecond)
  have hlong : d.nanos * unit ≤ Nat.pow 2 94 * unit :=
    Nat.mul_le_mul_right _ (Nat.le_trans (Nat.le_of_lt d.nanos_lt) (by decide))
  have hunit := two_pow_200_le_unit
  rw [← magnitude_toBinary64] at hsum hsum'
  rw [nanos_units] at *
  simp only [nanosPerSecond, Nat.pow_eq] at *
  constructor <;> linarith

/-- Whole minutes. -/
def minutes : Nat := d.nanos / (60 * nanosPerSecond)

/-- The nanoseconds beyond the whole minutes. -/
def rest : Nat := d.nanos % (60 * nanosPerSecond)

theorem minutes_eq : d.minutes = d.seconds / 60 := by
  rw [minutes, seconds, Nat.div_div_eq_div_mul, Nat.mul_comm]

theorem nanos_eq_minutes : d.nanos = d.minutes * 60 * nanosPerSecond + d.rest := by
  rw [Nat.mul_assoc]
  exact (Nat.div_add_mod' ..).symm

theorem magnitude_minutes :
    (Binary64.ofNat (d.minutes * 60)).magnitude = rounded (d.minutes * 60) 1 := by
  have := d.seconds_lt
  refine magnitude_ofNat_of_le ?_
  rw [minutes_eq]
  simp only [Word.size64, show Nat.pow 2 64 = 18446744073709551616 from rfl] at *
  omega

/-- Rounding is monotone, so the whole minutes come out no longer than the duration. -/
theorem rounded_minutes_le : rounded (d.minutes * 60) 1 ≤ d.toBinary64.magnitude := by
  calc rounded (d.minutes * 60) 1
      ≤ rounded d.seconds 1 := by
        refine Binary64.rounded_mono Nat.one_pos Nat.one_pos ?_
        rw [minutes_eq]
        omega
    _ = rounded (rounded d.seconds 1) unit := by
        rw [← magnitude_seconds, Binary64.rounded_magnitude]
    _ ≤ d.toBinary64.magnitude := by
        rw [magnitude_toBinary64]
        exact Binary64.rounded_mono unit_pos unit_pos
          (Nat.mul_le_mul_right _ (Nat.le_add_right ..))

/-- What is printed behind the minutes. -/
def seconds64 : Binary64 := d.toBinary64.sub (Binary64.ofNat (d.minutes * 60))

theorem seconds64_eq :
    d.seconds64 = Binary64.ofRatio false
      (d.toBinary64.magnitude - rounded (d.minutes * 60) 1) unit := by
  rw [seconds64, Binary64.sub_eq d.isNegative_toBinary64 (Binary64.isNegative_ofNat _) (by
    rw [magnitude_minutes]
    exact d.rounded_minutes_le), magnitude_minutes]

theorem isNegative_seconds64 : d.seconds64.isNegative = false := by
  rw [seconds64_eq]
  exact Binary64.isNegative_ofRatio _ _ unit_pos

theorem magnitude_seconds64 :
    d.seconds64.magnitude =
      rounded (d.toBinary64.magnitude - rounded (d.minutes * 60) 1) unit := by
  have hwhole := d.rounded_parts_le
  rw [← magnitude_toBinary64] at hwhole
  rw [seconds64_eq]
  exact Binary64.magnitude_ofRatio false unit_pos (Nat.lt_of_le_of_lt
    (Binary64.rounded_unit_le_power (Nat.le_trans (Nat.sub_le ..) hwhole))
    (Binary64.power_lt_beyond (by decide)))

/-- The rest is off by less than a 2^51st part of the whole duration and a 2^8th of a
nanosecond. -/
theorem near_rest :
    Within (3 * (d.nanos * unit) + Nat.pow 2 45 * unit)
      (Nat.pow 2 53 * (nanosPerSecond * d.seconds64.magnitude))
      (Nat.pow 2 53 * (d.rest * unit)) := by
  obtain ⟨hwhole, hwhole'⟩ := d.near_toBinary64
  obtain ⟨hminutes, hminutes'⟩ := @Binary64.rounded_near (d.minutes * 60) 1 Nat.one_pos
  obtain ⟨difference, hdifference⟩ := Nat.exists_eq_add_of_le d.rounded_minutes_le
  obtain ⟨hrest, hrest'⟩ := Binary64.rounded_unit_near difference
  have hmagnitude : d.seconds64.magnitude = rounded difference unit := by
    rw [magnitude_seconds64, hdifference, Nat.add_sub_cancel_left]
  have hunits : d.nanos * unit =
      nanosPerSecond * (d.minutes * 60 * unit) + d.rest * unit := by
    rw [nanos_eq_minutes]
    ring
  have hlong : d.nanos * unit ≤ Nat.pow 2 94 * unit :=
    Nat.mul_le_mul_right _ (Nat.le_trans (Nat.le_of_lt d.nanos_lt) (by decide))
  have hunit := two_pow_200_le_unit
  rw [hmagnitude]
  simp only [nanosPerSecond, Nat.pow_eq] at *
  constructor <;> linarith

/-! ### The printed counts -/

/-- The hundredths of a second that are printed below a minute. -/
def hundredths : Nat := roundHalfEven (d.toBinary64.magnitude * Nat.pow 10 2) unit

/-- The tenths of a second that are printed behind the minutes. -/
def tenths : Nat := roundHalfEven (d.seconds64.magnitude * Nat.pow 10 1) unit

theorem text_of_millis (h : d.millis < 1000) :
    d.text = String.ofList (Decimal.digits d.millis ++ ['m', 's']) := by
  rw [text, if_pos h]

theorem text_of_seconds (h : 1000 ≤ d.millis) (hminute : d.millis < 60000) :
    d.text = String.ofList (Decimal.pointed 2 d.hundredths ++ ['s']) := by
  rw [text, if_neg (Nat.not_lt.mpr h), if_pos hminute,
    Binary64.fixed_eq_pointed (by decide) d.isNegative_toBinary64, hundredths]

theorem text_of_minutes (h : 60000 ≤ d.millis) :
    d.text = String.ofList
      (Decimal.digits d.minutes ++ ['m', ' '] ++ Decimal.pointed 1 d.tenths ++ ['s']) := by
  have hrest : d.seconds64.fixed 1 = Decimal.pointed 1 d.tenths :=
    Binary64.fixed_eq_pointed (by decide) d.isNegative_seconds64
  rw [text, if_neg (by omega), if_neg (by omega), ← hrest, seconds64, minutes_eq]

/-- Below a minute the doubles are exact enough for the nearest hundredth. -/
theorem near_hundredths (h : d.nanos < 60 * nanosPerSecond) :
    Within 5000000 (d.hundredths * 10000000) d.nanos := by
  obtain ⟨hnear, hnear'⟩ := d.near_toBinary64
  obtain ⟨hround, hround'⟩ := roundHalfEven_near (d.toBinary64.magnitude * Nat.pow 10 2) unit_pos
  rw [← hundredths] at hround hround'
  simp only [nanosPerSecond, Nat.pow_eq] at *
  constructor
  · have hcount : 2 ^ 52 * (2 * (d.hundredths * 10000000)) ≤
        2 ^ 52 * (2 * d.nanos + 10000000) + 2 * d.nanos + 2 ^ 43 :=
      Nat.le_of_mul_le_mul_right (by linarith) unit_pos
    omega
  · have hcount : 2 ^ 52 * (2 * d.nanos) ≤
        2 ^ 52 * (2 * (d.hundredths * 10000000) + 10000000) + 2 * d.nanos + 2 ^ 43 :=
      Nat.le_of_mul_le_mul_right (by linarith) unit_pos
    omega

theorem near_tenths :
    Within (50000000 + d.nanos / 2 ^ 51) (d.tenths * 100000000) d.rest := by
  obtain ⟨hnear, hnear'⟩ := d.near_rest
  obtain ⟨hround, hround'⟩ := roundHalfEven_near (d.seconds64.magnitude * Nat.pow 10 1) unit_pos
  rw [← tenths] at hround hround'
  simp only [nanosPerSecond, Nat.pow_eq] at *
  constructor
  · have hcount : 2 ^ 53 * (2 * (d.tenths * 100000000)) ≤
        2 ^ 53 * (2 * d.rest + 100000000) + 6 * d.nanos + 2 ^ 46 :=
      Nat.le_of_mul_le_mul_right (by linarith) unit_pos
    omega
  · have hcount : 2 ^ 53 * (2 * d.rest) ≤
        2 ^ 53 * (2 * (d.tenths * 100000000) + 100000000) + 6 * d.nanos + 2 ^ 46 :=
      Nat.le_of_mul_le_mul_right (by linarith) unit_pos
    omega

/-- The end of the last hundredth below a minute. The double of 59.995 seconds is a little less. -/
theorem hundredths_lt_iff (h : d.nanos < 60 * nanosPerSecond) :
    d.hundredths < 6000 ↔ d.nanos ≤ 59995000000 := by
  obtain ⟨hnear, hnear'⟩ := d.near_hundredths h
  rcases Nat.lt_trichotomy d.nanos 59995000000 with hlt | heq | hgt
  · omega
  · have hcase : d = ⟨59995000000, by decide⟩ := by
      obtain ⟨nanos, hnanos⟩ := d
      simp only at heq
      subst heq
      rfl
    have hcount : d.hundredths = 5999 := by
      rw [hcase]
      decide +kernel
    omega
  · omega

/-- Below a second whole milliseconds are printed. Below a minute it is the nearest hundredth of a
second, which is 60.00 beyond 59.995 seconds. From there on it is the whole minutes and the nearest
tenth of what is left, which is 60.0 from about 59.95 seconds on: by as much as doubles of this size
are off, a 2^51st part. No count is negative. -/
theorem text_rounds :
    (d.millis < 1000 → d.text = String.ofList (Decimal.digits d.millis ++ ['m', 's'])) ∧
      (1000 ≤ d.millis → d.millis < 60000 → ∃ hundredths,
        d.text = String.ofList (Decimal.pointed 2 hundredths ++ ['s']) ∧
          Within 5000000 (hundredths * 10000000) d.nanos ∧
          (hundredths < 6000 ↔ d.nanos ≤ 59995000000)) ∧
      (60000 ≤ d.millis → ∃ tenths,
        d.text = String.ofList (Decimal.digits (d.nanos / (60 * nanosPerSecond)) ++ ['m', ' '] ++
          Decimal.pointed 1 tenths ++ ['s']) ∧
          Within (50000000 + d.nanos / 2 ^ 51) (tenths * 100000000)
            (d.nanos % (60 * nanosPerSecond)) ∧
          (d.nanos % (60 * nanosPerSecond) + d.nanos / 2 ^ 51 < 59950000000 → tenths < 600) ∧
          (59950000000 + d.nanos / 2 ^ 51 < d.nanos % (60 * nanosPerSecond) → 600 ≤ tenths)) := by
  refine ⟨d.text_of_millis, fun h hminute => ?_, fun h => ?_⟩
  · have hnanos : d.nanos < 60 * nanosPerSecond := by
      simp only [millis, nanosPerSecond] at *
      omega
    exact ⟨d.hundredths, d.text_of_seconds h hminute, d.near_hundredths hnanos,
      d.hundredths_lt_iff hnanos⟩
  · obtain ⟨hnear, hnear'⟩ := d.near_tenths
    rw [rest] at hnear hnear'
    exact ⟨d.tenths, d.text_of_minutes h, ⟨hnear, hnear'⟩, fun _ => by omega, fun _ => by omega⟩

/-- 59.995 seconds are below 60.00, three minutes and 4.1 seconds below 3m 60.0s. -/
theorem text_rounds_of_both :
    (∃ hundredths < 6000, (⟨59995000000, by decide⟩ : Duration).text =
        String.ofList (Decimal.pointed 2 hundredths ++ ['s'])) ∧
      ∃ tenths < 600, (⟨184100000000, by decide⟩ : Duration).text =
        String.ofList (['3', 'm', ' '] ++ Decimal.pointed 1 tenths ++ ['s']) := by
  obtain ⟨-, hseconds, -⟩ := text_rounds ⟨59995000000, by decide⟩
  obtain ⟨-, -, hminutes⟩ := text_rounds ⟨184100000000, by decide⟩
  obtain ⟨hundredths, htext, -, hlt⟩ := hseconds (by decide) (by decide)
  obtain ⟨tenths, htext', -, hlt', -⟩ := hminutes (by decide)
  exact ⟨⟨hundredths, hlt.mpr (by decide), htext⟩, tenths, hlt' (by decide), htext'⟩

/-- 59.999 seconds come out as `60.00s` and 119.96 seconds as `1m 60.0s`, so the printed seconds are
not always below 60, in neither form. -/
theorem sixty_seconds :
    (⟨59999000000, by decide⟩ : Duration).text = String.ofList ['6', '0', '.', '0', '0', 's'] ∧
      (⟨119960000000, by decide⟩ : Duration).text =
        String.ofList ['1', 'm', ' ', '6', '0', '.', '0', 's'] ∧
      ¬ (∀ d : Duration, 1000 ≤ d.millis → d.millis < 60000 → ∃ hundredths < 6000,
        d.text = String.ofList (Decimal.pointed 2 hundredths ++ ['s'])) ∧
      ¬ (∀ d : Duration, 60000 ≤ d.millis → ∃ tenths < 600,
        d.text = String.ofList (Decimal.digits (d.nanos / (60 * nanosPerSecond)) ++ ['m', ' '] ++
          Decimal.pointed 1 tenths ++ ['s'])) := by
  have hseconds : (⟨59999000000, by decide⟩ : Duration).text =
      String.ofList ['6', '0', '.', '0', '0', 's'] := by
    rw [text_of_seconds _ (by decide) (by decide)]
    exact congrArg String.ofList (by decide +kernel)
  have hminutes : (⟨119960000000, by decide⟩ : Duration).text =
      String.ofList ['1', 'm', ' ', '6', '0', '.', '0', 's'] := by
    rw [text_of_minutes _ (by decide)]
    exact congrArg String.ofList (by decide +kernel)
  refine ⟨hseconds, hminutes, fun hall => ?_, fun hall => ?_⟩
  · obtain ⟨hundredths, hlt, htext⟩ := hall ⟨59999000000, by decide⟩ (by decide) (by decide)
    have hlist := String.ofList_injective (hseconds.symm.trans htext)
    exact absurd hlist ((by decide +kernel : ∀ whole < 60, ∀ part < 100,
      ['6', '0', '.', '0', '0', 's'] ≠
        Decimal.digits whole ++ ['.'] ++ Decimal.padded 2 part ++ ['s'])
      (hundredths / 100) (by omega) (hundredths % 100) (Nat.mod_lt _ (by decide)))
  · obtain ⟨tenths, hlt, htext⟩ := hall ⟨119960000000, by decide⟩ (by decide)
    have hlist := String.ofList_injective (hminutes.symm.trans htext)
    exact absurd hlist ((by decide +kernel : ∀ n < 600,
      ['1', 'm', ' ', '6', '0', '.', '0', 's'] ≠
        Decimal.digits 1 ++ ['m', ' '] ++ Decimal.pointed 1 n ++ ['s']) tenths hlt)

end Duration

end HistoryKeeper
