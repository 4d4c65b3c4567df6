import HistoryKeeper.Proofs.Codec.NormalForm

/-!
# Keys told apart by their text

The store knows a key by its text only, so two keys with one text would be one entry.
`ValueType.keys_told_apart`: keys of one type never have the same text, and no text key has the text
of a number, a boolean or an optional number. The text of a JSON key is never read back, so it may be
nested deeper than any reader goes; that is why the round trip of values is not enough here, and
`Json.text_injective` reads with a reader that goes as deep as the keys.
-/

namespace HistoryKeeper

namespace Json

theorem head?_toBytes_ofInt (n : Int) : (ofInt n).toBytes.head? ≠ some 34 := by
  intro h
  change (Utf8.encodeChars (Decimal.ofInt n)).head? = some 34 at h
  unfold Decimal.ofInt at h
  split at h
  · cases h
  · obtain ⟨b, more, hb, hdigit⟩ := Reader.encodeChars_digits n.natAbs
    rw [hb] at h
    cases h
    cases hdigit

theorem text_string_ne {j : Json} (h : j.toBytes.head? ≠ some 34) (s : String) :
    (string s).text ≠ j.text := by
  intro he
  have hbytes : (string s).toBytes = j.toBytes :=
    congrArg Utf8.encodeChars (String.ofList_injective he)
  refine h ?_
  rw [← hbytes]
  exact congrArg List.head? (encodeChars_renderString s)

end Json

namespace ValueType

variable {t u : ValueType}

/-- Keys that their text tells: those without a double, of any depth. -/
def Telling : (t : ValueType) → t.Carrier → Prop
  | float, _ => False
  | byteMap, _ => False
  | json, (j : Json) => j.Exact
  | _, _ => True

theorem encodeKey_of_telling {key : t.Carrier} (h : t.Telling key) :
    ∃ text, encodeKey t key = .ok text := by
  cases t with
  | float | byteMap => exact absurd h id
  | json => exact ⟨_, rfl⟩
  | _ => exact encodeKey_of_storable trivial

theorem encodeKey_injective_of_telling {k₁ k₂ : t.Carrier} (h₁ : t.Telling k₁) (h₂ : t.Telling k₂)
    (h : encodeKey t k₁ = encodeKey t k₂) : k₁ = k₂ := by
  cases t with
  | float | byteMap => exact absurd h₁ id
  | json => exact Json.text_injective h₁ h₂ (Except.ok.inj h)
  | _ => exact encodeKey_injective trivial trivial h

/-- The types of text. -/
def texty : List ValueType := [keyText, text]

/-- The types of numbers, booleans and optional numbers. -/
def scalar : List ValueType := [natural32, natural64, integer64, boolean, optional32]

theorem encodeKey_texty (h : t ∈ texty) (k : t.Carrier) :
    ∃ s, encodeKey t k = .ok (Json.string s).text := by
  simp only [texty, List.mem_cons, List.not_mem_nil, or_false] at h
  rcases h with rfl | rfl <;> exact ⟨k, rfl⟩

theorem encodeKey_scalar (h : t ∈ scalar) (k : t.Carrier) :
    ∃ j : Json, encodeKey t k = .ok j.text ∧ j.toBytes.head? ≠ some 34 := by
  simp only [scalar, List.mem_cons, List.not_mem_nil, or_false] at h
  rcases h with rfl | rfl | rfl | rfl | rfl
  · exact ⟨_, rfl, Json.head?_toBytes_ofInt _⟩
  · exact ⟨_, rfl, Json.head?_toBytes_ofInt _⟩
  · exact ⟨_, rfl, Json.head?_toBytes_ofInt _⟩
  · exact ⟨_, rfl, by cases k <;> decide⟩
  · cases k with
    | none => exact ⟨_, rfl, by decide⟩
    | some n => exact ⟨_, rfl, Json.head?_toBytes_ofInt _⟩

/-- Every key has a text, which no other key of its type has; and a text key never has the text of a
number, a boolean or an optional number. -/
theorem keys_told_apart :
    (∀ (t : ValueType) (k₁ k₂ : t.Carrier), t.Telling k₁ → t.Telling k₂ →
      (∃ text, encodeKey t k₁ = .ok text) ∧ (encodeKey t k₁ = encodeKey t k₂ → k₁ = k₂)) ∧
    ∀ t ∈ texty, ∀ u ∈ scalar, ∀ (k₁ : t.Carrier) (k₂ : u.Carrier),
      encodeKey t k₁ ≠ encodeKey u k₂ := by
  refine ⟨fun t k₁ k₂ h₁ h₂ => ⟨encodeKey_of_telling h₁, encodeKey_injective_of_telling h₁ h₂⟩,
    fun t ht u hu k₁ k₂ h => ?_⟩
  obtain ⟨s, hs⟩ := encodeKey_texty ht k₁
  obtain ⟨j, hj, hhead⟩ := encodeKey_scalar hu k₂
  rw [hs, hj] at h
  exact Json.text_string_ne hhead s (Except.ok.inj h)

/-- `["1"]` and `[1]` are different keys, and so are `"1"` and `1`. -/
theorem keys_told_apart_of_one :
    encodeKey json (.array [.string "1"]) ≠ encodeKey json (.array [.ofNat 1]) ∧
    encodeKey text "1" ≠ encodeKey natural32 (1 : UInt32) := by
  have htext : Telling json (.array [.string "1"]) := by
    constructor <;> simp [Json.WellFormed, Json.WellFormedItems, Json.HasFloat, Json.HasFloatItems]
  have hnumber : Telling json (.array [.ofNat 1]) := by
    constructor <;> simp [Json.WellFormed, Json.WellFormedItems, Json.HasFloat, Json.HasFloatItems,
      Json.ofNat, Json.ofInt, Json.Number.InRange]
  refine ⟨fun h => ?_, keys_told_apart.2 _ (by decide) _ (by decide) _ _⟩
  have hsame := (keys_told_apart.1 json _ _ htext hnumber).2 h
  cases (List.cons.inj (Json.array.inj hsame)).1

end ValueType

end HistoryKeeper
