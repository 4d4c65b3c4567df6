import HistoryKeeper.Proofs.Codec.RoundTrip
import HistoryKeeper.Proofs.Json.Accepted

/-!
# Normal forms of stored values

`Codec.round_trip`: what a codec writes for a value it reads as that value, and whatever bytes it
reads can be written in a normal form, which is read as the same value and is its own normal form.
The values are those without a double. That a JSON value is not nested too deep is asked for the
first half only: of a value that was read it is known.
-/

namespace HistoryKeeper

namespace ValueType

variable {t : ValueType} {v : t.Carrier}

/-- Neither a double nor a map with bytes as keys, nor a JSON value with a double inside. -/
def FloatFree : (t : ValueType) → t.Carrier → Prop
  | float, _ => False
  | byteMap, _ => False
  | json, (j : Json) => ¬ j.HasFloat
  | _, _ => True

theorem storable_of_readAll {bytes : Bytes} (h : t.reader.readAll bytes = .ok v)
    (hv : t.FloatFree v) : t.Storable v := by
  cases t with
  | float | byteMap => exact hv
  | json =>
    have haccepted := Json.Reader.of_readAll Json.Reader.yields_anyValue h
    exact ⟨haccepted.exact hv, haccepted.depth⟩
  | _ => trivial

end ValueType

namespace Codec

variable {c : Codec} {v : c.Carrier} {bytes : Bytes}

/-- The bytes as the codec itself writes what they are read as. -/
def normalize (c : Codec) (bytes : Bytes) : Except CodecError Bytes := do
  c.serialize (← c.deserialize bytes)

theorem storable_of_deserialize (h : c.deserialize bytes = .ok v) (hv : c.valueType.FloatFree v) :
    c.valueType.Storable v := by
  cases c with
  | json t =>
    simp only [deserialize] at h
    cases hread : t.reader.readAll bytes with
    | error fault => rw [hread] at h; cases h
    | ok w =>
      rw [hread] at h
      cases h
      exact ValueType.storable_of_readAll hread hv
  | utf8 => trivial

theorem normalize_of_deserialize {normal : Bytes} (h : c.deserialize bytes = .ok v)
    (hnormal : c.serialize v = .ok normal) : c.normalize bytes = .ok normal := by
  unfold normalize
  rw [h]
  exact hnormal

/-- Values survive being stored, and stored forms have a normal form. -/
theorem round_trip (c : Codec) :
    (∀ v, c.valueType.Storable v →
      ∃ bytes, c.serialize v = .ok bytes ∧ c.deserialize bytes = .ok v) ∧
    ∀ bytes v, c.deserialize bytes = .ok v → c.valueType.FloatFree v →
      ∃ normal, c.normalize bytes = .ok normal ∧ c.deserialize normal = .ok v ∧
        c.normalize normal = .ok normal := by
  refine ⟨fun v hv => deserialize_serialize hv, fun bytes v hread hv => ?_⟩
  obtain ⟨normal, hnormal, hback⟩ := deserialize_serialize (storable_of_deserialize hread hv)
  exact ⟨normal, normalize_of_deserialize hread hnormal, hback,
    normalize_of_deserialize hback hnormal⟩

/-- `[ 7,null ]` is read, and its normal form is `[7,null]`. -/
theorem round_trip_of_blanks :
    (json .json).deserialize [91, 32, 55, 44, 110, 117, 108, 108, 32, 93] =
      .ok (.array [.ofNat 7, .null]) ∧
    (∃ normal, (json .json).normalize [91, 32, 55, 44, 110, 117, 108, 108, 32, 93] = .ok normal ∧
      (json .json).deserialize normal = .ok (.array [.ofNat 7, .null]) ∧
      (json .json).normalize normal = .ok normal) ∧
    ∃ bytes, (json .json).serialize (.array [.ofNat 7, .null]) = .ok bytes ∧
      (json .json).deserialize bytes = .ok (.array [.ofNat 7, .null]) := by
  have hread : (json .json).deserialize [91, 32, 55, 44, 110, 117, 108, 108, 32, 93] =
      .ok (.array [.ofNat 7, .null]) := rfl
  have hfree : (json .json).valueType.FloatFree (Json.array [.ofNat 7, .null]) :=
    fun h => by simp [Json.HasFloat, Json.HasFloatItems, Json.ofNat, Json.ofInt] at h
  have hnormal := (round_trip (json .json)).2 _ _ hread hfree
  exact ⟨hread, hnormal, (round_trip (json .json)).1 _ (storable_of_deserialize hread hfree)⟩

end Codec

end HistoryKeeper
