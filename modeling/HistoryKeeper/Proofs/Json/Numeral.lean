import HistoryKeeper.Json.Numeral
import HistoryKeeper.Proofs.Text.Utf8

/-!
# Integers read back

`readNumeral_digits`: the decimal digits of a number below 2^64 are read as this number, whatever
follows them, as long as it does not go on with the numeral (`EndsNumeral`). Of more digits the first
are read and the others counted: what they stand for is not above the number (`gather_places_le`).
-/

namespace HistoryKeeper.Json

/-- What can follow a number: no digit, no point, no exponent. -/
def EndsNumeral (rest : Bytes) : Prop :=
  ∀ b ∈ rest.head?, isDigit b = false ∧ b ≠ 46 ∧ b ≠ 101 ∧ b ≠ 69

/-- The values of the decimal digits of a number. -/
def places (n : Nat) : List Nat :=
  (Utf8.encodeChars (Decimal.digits n)).map digitValue

theorem utf8EncodeChar_digitChar {d : Nat} (h : d < 10) :
    ∃ b, String.utf8EncodeChar d.digitChar = [b] ∧ isDigit b = true ∧ digitValue b = d := by
  have : ∀ d < 10, String.utf8EncodeChar d.digitChar = [UInt8.ofNat (48 + d)] ∧
      isDigit (UInt8.ofNat (48 + d)) = true ∧ digitValue (UInt8.ofNat (48 + d)) = d := by decide
  exact ⟨_, this d h⟩

theorem digits_of_lt {n : Nat} (h : n < 10) : Decimal.digits n = [n.digitChar] :=
  Nat.toDigits_of_lt_base h

theorem digits_of_le {n : Nat} (h : 10 ≤ n) :
    Decimal.digits n = Decimal.digits (n / 10) ++ [(n % 10).digitChar] :=
  Nat.toDigits_of_base_le (by decide) h

theorem places_of_lt {n : Nat} (h : n < 10) : places n = [n] := by
  obtain ⟨b, hb, -, hv⟩ := utf8EncodeChar_digitChar h
  rw [places, digits_of_lt h, Utf8.encodeChars_cons, hb]
  simp [hv]

theorem places_of_le {n : Nat} (h : 10 ≤ n) : places n = places (n / 10) ++ [n % 10] := by
  obtain ⟨b, hb, -, hv⟩ := utf8EncodeChar_digitChar (Nat.mod_lt n (by decide))
  rw [places, digits_of_le h, Utf8.encodeChars_append, Utf8.encodeChars_cons, hb]
  simp [hv, places]

/-- Characters that are decimal digits. -/
def AllDigits (cs : List Char) : Prop :=
  ∀ c ∈ cs, ∃ d < 10, c = d.digitChar

/-- The values of digits. -/
def values (cs : List Char) : List Nat :=
  (Utf8.encodeChars cs).map digitValue

section AllDigits

variable {cs ds : List Char}

theorem allDigits_digits (n : Nat) : AllDigits (Decimal.digits n) := by
  induction n using Nat.strongRecOn with
  | ind n ih =>
    intro c hc
    by_cases hn : n < 10
    · rw [digits_of_lt hn] at hc
      exact ⟨n, hn, List.mem_singleton.mp hc⟩
    · rw [digits_of_le (by omega)] at hc
      rcases List.mem_append.mp hc with hc | hc
      · exact ih (n / 10) (by omega) c hc
      · exact ⟨n % 10, Nat.mod_lt n (by decide), List.mem_singleton.mp hc⟩

theorem AllDigits.append (hc : AllDigits cs) (hd : AllDigits ds) : AllDigits (cs ++ ds) :=
  fun c h => (List.mem_append.mp h).elim (hc c) (hd c)

theorem AllDigits.take (h : AllDigits cs) (n : Nat) : AllDigits (cs.take n) :=
  fun c hc => h c (List.mem_of_mem_take hc)

theorem AllDigits.drop (h : AllDigits cs) (n : Nat) : AllDigits (cs.drop n) :=
  fun c hc => h c (List.mem_of_mem_drop hc)

theorem allDigits_zeros (n : Nat) : AllDigits (List.replicate n '0') :=
  fun _ hc => ⟨0, by decide, List.eq_of_mem_replicate hc⟩

theorem AllDigits.isDigit_of_mem (h : AllDigits cs) : ∀ b ∈ Utf8.encodeChars cs, isDigit b = true := by
  intro b hb
  obtain ⟨c, hc, hbc⟩ := List.mem_flatMap.mp hb
  obtain ⟨d, hd, rfl⟩ := h c hc
  obtain ⟨b', hb', hdigit, -⟩ := utf8EncodeChar_digitChar hd
  rw [hb', List.mem_singleton] at hbc
  rwa [hbc]

theorem isDigit_of_mem_digits (n : Nat) :
    ∀ b ∈ Utf8.encodeChars (Decimal.digits n), isDigit b = true :=
  (allDigits_digits n).isDigit_of_mem

theorem values_append (cs ds : List Char) : values (cs ++ ds) = values cs ++ values ds := by
  rw [values, Utf8.encodeChars_append, List.map_append]
  rfl

theorem values_cons {d : Nat} (h : d < 10) (cs : List Char) :
    values (d.digitChar :: cs) = d :: values cs := by
  obtain ⟨b, hb, -, hv⟩ := utf8EncodeChar_digitChar h
  rw [values, Utf8.encodeChars_cons, hb, List.singleton_append, List.map_cons, hv]
  rfl

theorem AllDigits.length_values (h : AllDigits cs) : (values cs).length = cs.length := by
  induction cs with
  | nil => rfl
  | cons c cs ih =>
    obtain ⟨d, hd, rfl⟩ := h c (List.mem_cons_self ..)
    rw [values_cons hd, List.length_cons, List.length_cons,
      ih fun c hc => h c (List.mem_cons_of_mem _ hc)]

theorem AllDigits.lt_ten (h : AllDigits cs) : ∀ d ∈ values cs, d < 10 := by
  intro d hd
  obtain ⟨b, hb, rfl⟩ := List.mem_map.mp hd
  have hdigit := h.isDigit_of_mem b hb
  simp only [isDigit, Bool.and_eq_true, decide_eq_true_eq, UInt8.le_iff_toNat_le] at hdigit
  have : b.toNat ≤ 57 := hdigit.2
  simp only [digitValue]
  omega

end AllDigits

theorem places_ne_nil (n : Nat) : places n ≠ [] := by
  by_cases hn : n < 10
  · rw [places_of_lt hn]; exact List.cons_ne_nil _ _
  · rw [places_of_le (by omega)]; exact List.append_ne_nil_of_right_ne_nil _ (List.cons_ne_nil _ _)

theorem pow_length_le {n : Nat} (h : n ≠ 0) :
    Nat.pow 10 ((Decimal.digits n).length - 1) ≤ n := by
  induction n using Nat.strongRecOn with
  | ind n ih =>
    by_cases hn : n < 10
    · rw [digits_of_lt hn]
      exact Nat.pos_of_ne_zero h
    · have hfront := ih (n / 10) (by omega) (by omega)
      have hlength : 0 < (Decimal.digits (n / 10)).length :=
        List.length_pos_iff.mpr Nat.toDigits_ne_nil
      rw [digits_of_le (by omega), List.length_append, List.length_singleton, Nat.add_sub_cancel,
        show (Decimal.digits (n / 10)).length = (Decimal.digits (n / 10)).length - 1 + 1 by omega]
      calc Nat.pow 10 ((Decimal.digits (n / 10)).length - 1 + 1)
          = Nat.pow 10 ((Decimal.digits (n / 10)).length - 1) * 10 := rfl
        _ ≤ n := by omega

theorem head?_places {n : Nat} (h : n ≠ 0) : (places n).head? ≠ some 0 := by
  induction n using Nat.strongRecOn with
  | ind n ih =>
    by_cases hn : n < 10
    · rw [places_of_lt hn]
      simpa using h
    · have hhead := ih (n / 10) (by omega) (by omega)
      obtain ⟨d, ds, hd⟩ := List.exists_cons_of_ne_nil (places_ne_nil (n / 10))
      rw [places_of_le (by omega), hd]
      rwa [hd] at hhead

/-! ### Gathering digits -/

theorem gather_append (limit s : Nat) (xs ys : List Nat) :
    gather limit s (xs ++ ys) =
      if (gather limit s xs).2 = 0 then gather limit (gather limit s xs).1 ys
      else ((gather limit s xs).1, (gather limit s xs).2 + ys.length) := by
  induction xs generalizing s with
  | nil => simp [gather]
  | cons d xs ih =>
    simp only [List.cons_append, gather]
    split
    · exact ih (s * 10 + d)
    · simp [Nat.add_right_comm]

theorem gather_lt {limit s : Nat} (hs : s < limit) (ds : List Nat) :
    (gather limit s ds).1 < limit := by
  induction ds generalizing s with
  | nil => exact hs
  | cons d ds ih =>
    rw [gather]
    split
    · exact ih ‹_›
    · exact hs

theorem significand_lt (ds : List Nat) : (gather significandLimit 0 ds).1 < Word.size64 :=
  gather_lt (by decide) ds

theorem gather_left_le (limit s : Nat) (ds : List Nat) : (gather limit s ds).2 ≤ ds.length := by
  induction ds generalizing s with
  | nil => exact Nat.le_refl _
  | cons d ds ih =>
    rw [gather]
    split
    · exact Nat.le_succ_of_le (ih _)
    · exact Nat.le_refl _

theorem gather_left_eq_zero {limit s k : Nat} {ds : List Nat} (hs : s < Nat.pow 10 k)
    (hds : ∀ d ∈ ds, d < 10) (hlimit : Nat.pow 10 (k + ds.length) ≤ limit) :
    (gather limit s ds).2 = 0 := by
  induction ds generalizing s k with
  | nil => rfl
  | cons d ds ih =>
    have hd := hds d (List.mem_cons_self ..)
    have hsucc : Nat.pow 10 (k + 1) = Nat.pow 10 k * 10 := rfl
    have hpow : Nat.pow 10 (k + 1) ≤ Nat.pow 10 (k + (d :: ds).length) :=
      Nat.pow_le_pow_right (by decide) (by simp)
    rw [gather, if_pos (by omega)]
    exact ih (k := k + 1) (by omega) (fun d hd => hds d (List.mem_cons_of_mem _ hd))
      (by rwa [Nat.add_assoc, Nat.add_comm 1])

theorem gather_places {limit n : Nat} (h : n < limit) : gather limit 0 (places n) = (n, 0) := by
  induction n using Nat.strongRecOn with
  | ind n ih =>
    by_cases hn : n < 10
    · rw [places_of_lt hn]
      simp [gather, h]
    · have hback : n / 10 * 10 + n % 10 = n := by omega
      rw [places_of_le (by omega), gather_append, ih (n / 10) (by omega) (by omega)]
      simp [gather, hback, h]

theorem gather_places_le (limit n : Nat) :
    (gather limit 0 (places n)).1 * Nat.pow 10 (gather limit 0 (places n)).2 ≤ n := by
  induction n using Nat.strongRecOn with
  | ind n ih =>
    by_cases hn : n < 10
    · rw [places_of_lt hn]
      simp only [gather]
      split <;> simp
    · have hfront := ih (n / 10) (by omega)
      rw [places_of_le (by omega), gather_append]
      generalize gather limit 0 (places (n / 10)) = g at *
      split
      · have hg : g.1 ≤ n / 10 := by
          rw [‹g.2 = 0›] at hfront
          exact Nat.le_trans (Nat.le_of_eq (Nat.mul_one g.1).symm) hfront
        simp only [gather]
        split <;> simp <;> omega
      · calc g.1 * Nat.pow 10 (g.2 + 1) = g.1 * Nat.pow 10 g.2 * 10 := (Nat.mul_assoc ..).symm
          _ ≤ n := by omega

theorem takeWhile_append_of_all {p : UInt8 → Bool} {bytes rest : Bytes}
    (h : ∀ b ∈ bytes, p b = true) (hr : ∀ b ∈ rest.head?, p b = false) :
    (bytes ++ rest).takeWhile p = bytes ∧ (bytes ++ rest).dropWhile p = rest := by
  rw [List.takeWhile_append_of_pos h, List.dropWhile_append_of_pos h]
  cases rest with
  | nil => simp
  | cons b rest => simp [hr b rfl]

theorem AllDigits.spanDigits_eq {cs : List Char} (h : AllDigits cs) {rest : Bytes}
    (hrest : ∀ b ∈ rest.head?, isDigit b = false) :
    spanDigits (Utf8.encodeChars cs ++ rest) = (values cs, rest) := by
  obtain ⟨htake, hdrop⟩ := takeWhile_append_of_all h.isDigit_of_mem hrest
  rw [spanDigits, htake, hdrop, values]

theorem spanDigits_digits (n : Nat) {rest : Bytes} (h : EndsNumeral rest) :
    spanDigits (Utf8.encodeChars (Decimal.digits n) ++ rest) = (places n, rest) :=
  (allDigits_digits n).spanDigits_eq fun b hb => (h b hb).1

/-- What a numeral begins with: digits, the first of them zero only if it stands alone. -/
structure WholePart (cs : List Char) : Prop where
  allDigits : AllDigits cs
  ne_nil : values cs ≠ []
  zero_alone : (values cs).head? = some 0 → values cs = [0]

theorem wholePart_cons {d : Nat} {cs : List Char} (hd : d < 10) (hcs : AllDigits cs)
    (hzero : d = 0 → cs = []) : WholePart (d.digitChar :: cs) where
  allDigits c hc := (List.mem_cons.mp hc).elim (fun he => ⟨d, hd, he⟩) (hcs c)
  ne_nil := by
    rw [values_cons hd]
    exact List.cons_ne_nil _ _
  zero_alone h := by
    rw [values_cons hd, List.head?_cons] at h
    obtain rfl := Option.some.inj h
    rw [hzero rfl]
    rfl

theorem exists_digits (n : Nat) : ∃ d < 10, ∃ cs, Decimal.digits n = d.digitChar :: cs ∧
    AllDigits cs ∧ places n = d :: values cs ∧ (n ≠ 0 → d ≠ 0) := by
  obtain ⟨c, cs, hcs⟩ : ∃ c cs, Decimal.digits n = c :: cs :=
    List.exists_cons_of_ne_nil Nat.toDigits_ne_nil
  have hall := allDigits_digits n
  rw [hcs] at hall
  obtain ⟨d, hd, rfl⟩ := hall c (List.mem_cons_self ..)
  have hplaces : places n = d :: values cs := by
    rw [← values_cons hd, ← hcs]
    rfl
  refine ⟨d, hd, cs, hcs, fun c hc => hall c (List.mem_cons_of_mem _ hc), hplaces, ?_⟩
  rintro hn rfl
  exact head?_places hn (by rw [hplaces]; rfl)

theorem wholePart_digits (n : Nat) : WholePart (Decimal.digits n) := by
  by_cases hn : n = 0
  · rw [hn, digits_of_lt (by decide)]
    exact wholePart_cons (by decide) nofun fun _ => rfl
  · obtain ⟨d, hd, cs, hcs, hall, -, hne⟩ := exists_digits n
    rw [hcs]
    exact wholePart_cons hd hall fun h0 => absurd h0 (hne hn)

section WholePart

variable {cs : List Char} {rest : Bytes}

/-- Behind the whole part a numeral is read on by what follows. -/
theorem WholePart.readNumeral_eq (h : WholePart cs) (negative : Bool) :
    (∀ b ∈ rest.head?, isDigit b = false) →
    readNumeral negative (Utf8.encodeChars cs ++ rest) =
      match rest with
      | 46 :: rest => do
        let (x, rest) ← readFraction negative (gather significandLimit 0 (values cs)).1
          (gather significandLimit 0 (values cs)).2 rest
        return (.float x, rest)
      | 101 :: _ | 69 :: _ => do
        let (x, rest) ← readPower negative (gather significandLimit 0 (values cs)).1
          (gather significandLimit 0 (values cs)).2 rest
        return (.float x, rest)
      | rest =>
        if (gather significandLimit 0 (values cs)).2 = 0 then
          .ok (ofSignificand negative (gather significandLimit 0 (values cs)).1, rest)
        else do
          let x ← toBinary64 negative (gather significandLimit 0 (values cs)).1
            (gather significandLimit 0 (values cs)).2
          return (.float x, rest) := by
  intro hrest
  have hspan := h.allDigits.spanDigits_eq hrest
  unfold readNumeral
  rw [hspan]
  split
  · exact absurd (Prod.ext_iff.mp ‹_›).1 h.ne_nil
  · exact absurd (Prod.ext_iff.mp ‹_›).1 h.ne_nil
  · rename_i d ds rest' heq
    have hvalues : values cs = 0 :: d :: ds := (Prod.ext_iff.mp heq).1
    exact absurd (h.zero_alone (by rw [hvalues]; rfl)) (by rw [hvalues]; simp)
  · rename_i heq
    cases heq
    rfl

theorem WholePart.readNumeral_point (h : WholePart cs) (negative : Bool) (rest : Bytes) :
    readNumeral negative (Utf8.encodeChars cs ++ 46 :: rest) = (do
      let (x, rest) ← readFraction negative (gather significandLimit 0 (values cs)).1
        (gather significandLimit 0 (values cs)).2 rest
      return (.float x, rest)) :=
  h.readNumeral_eq negative (by intro b hb; cases hb; decide)

theorem WholePart.readNumeral_power (h : WholePart cs) (negative : Bool) (rest : Bytes) :
    readNumeral negative (Utf8.encodeChars cs ++ 101 :: rest) = (do
      let (x, rest) ← readPower negative (gather significandLimit 0 (values cs)).1
        (gather significandLimit 0 (values cs)).2 (101 :: rest)
      return (.float x, rest)) :=
  h.readNumeral_eq negative (by intro b hb; cases hb; decide)

end WholePart

theorem readNumeral_digits (negative : Bool) {n : Nat} (hn : n < Word.size64) {rest : Bytes}
    (h : EndsNumeral rest) :
    readNumeral negative (Utf8.encodeChars (Decimal.digits n) ++ rest) =
      .ok (ofSignificand negative n, rest) := by
  have hg : gather significandLimit 0 (values (Decimal.digits n)) = (n, 0) := gather_places hn
  rw [(wholePart_digits n).readNumeral_eq negative fun b hb => (h b hb).1, hg]
  split
  · exact absurd rfl (h 46 rfl).2.1
  · exact absurd rfl (h 101 rfl).2.2.1
  · exact absurd rfl (h 69 rfl).2.2.2
  · rfl

theorem ofSignificand_natAbs {n : Int} (h₁ : -Word.size63 ≤ n) (h₂ : n < 0) :
    ofSignificand true n.natAbs = .integer n := by
  have h0 : n.natAbs ≠ 0 := by omega
  have hlow : ¬ Word.size63 < n.natAbs := by simp only [Word.size63] at *; omega
  have hn : -(n.natAbs : Int) = n := by omega
  have hfits : ¬(n.natAbs = 0 || decide (Word.size63 < n.natAbs)) = true := by
    simp only [Bool.or_eq_true, decide_eq_true_eq, not_or]
    exact ⟨h0, hlow⟩
  unfold ofSignificand
  rw [if_neg nofun, if_neg hfits, hn]

end HistoryKeeper.Json
