import HistoryKeeper.Codec.Codec
import HistoryKeeper.Proofs.Json.RoundTrip

/-!
# Stored forms tell keys and values

`Storable` are the values that every codec for their type takes and gives back
(`Codec.deserialize_serialize`). On them the stored form of a key tells the key
(`encodeKey_injective`).
-/

namespace HistoryKeeper

namespace ValueType

open Json (Reader)
open Json.Reader

/-- Neither doubles nor maps with bytes as keys, and JSON values only as deep as their text is
read. -/
def Storable : (t : ValueType) → t.Carrier → Prop
  | float, _ => False
  | byteMap, _ => False
  | json, (j : Json) => j.Exact ∧ j.depth ≤ nestingLimit
  | _, _ => True

theorem reads_readText (s : String) : Reads readText (Json.string s).toBytes s :=
  reads_string s "a string"

theorem reads_readNatural32 (n : UInt32) :
    Reads readNatural32 (Json.ofNat n.toNat).toBytes n := by
  refine (reads_natural Word.size32 n.toNat_lt (by decide) "u32").bind fun rest => ?_
  rw [Nat.toUInt32_eq, UInt32.ofNat_toNat]
  rfl

theorem reads_readTexts (ss : List String) :
    Reads (array readText "a sequence") (Json.array (ss.map .string)).toBytes ss := by
  intro rest _
  obtain ⟨body, hbody, hread⟩ := reads_array readText Json.string ss
    (fun s _ => startsValue_renderString s) (fun s _ => reads_readText s) rest
  rw [hbody, List.cons_append, array, bind_ok (head_openArray _)]
  exact hread

theorem toBytes_pair (j k : Json) :
    (Json.array [j, k]).toBytes = 91 :: (j.toBytes ++ 44 :: (k.toBytes ++ [93])) := by
  rw [Json.toBytes, Json.render, Json.renderItems, Json.renderItems]
  simp only [List.cons_append, Utf8.encodeChars_cons, Utf8.encodeChars_append]
  rfl

theorem reads_readPair (s : String) (n : UInt32) :
    Reads readPair (Json.array [.string s, .ofNat n.toNat]).toBytes (s, n) := by
  intro rest _
  have hfirst : StartsValue (Json.string s).toBytes := startsValue_renderString s
  have hsecond : StartsValue (Json.ofNat n.toNat).toBytes := startsValue_ofInt n.toNat
  have hclose : closeArray (93 :: rest) = .ok ((), rest) := by
    rw [closeArray, bind_ok (peekToken_cons rfl _)]
    rfl
  rw [toBytes_pair, List.cons_append, readPair, bind_ok (head_openArray _)]
  simp only [List.append_assoc, List.cons_append, List.nil_append]
  show (moreItems true >>= fun more => _ : Reader (String × UInt32)) _ = _
  rw [bind_ok (moreItems_first hfirst _)]
  show (readText >>= fun s => _ : Reader (String × UInt32)) _ = _
  rw [bind_ok (reads_readText s _ (endsNumeral_cons (by decide) _)),
    bind_ok (moreItems_comma hsecond _)]
  show (readNatural32 >>= fun n => closeArray >>= fun _ => pure (s, n) :
    Reader (String × UInt32)) _ = _
  rw [bind_ok (reads_readNatural32 n _ (endsNumeral_cons (by decide) _)), bind_ok hclose]
  rfl

theorem reads_readOptional_none : Reads readOptional Json.null.toBytes none :=
  fun _ _ => rfl

theorem match_null {β : Type} {b : UInt8} (h : b ≠ 110) (onNull onValue : β) :
    (match some b with
      | some 110 => onNull
      | _ => onValue) = onValue := by
  split
  · exact absurd (Option.some.inj ‹_›) h
  · rfl

theorem reads_readOptional_some (n : UInt32) :
    Reads readOptional (Json.ofNat n.toNat).toBytes (some n) := by
  intro rest hrest
  have hread := reads_readNatural32 n rest hrest
  obtain ⟨b, more, hb, hdigit⟩ := encodeChars_digits n.toNat
  have hb' : (Json.ofNat n.toNat).toBytes = b :: more := hb
  have hnull : b ≠ 110 := by
    rintro rfl
    exact absurd hdigit (by decide)
  have hblank : isBlank b = false := by
    rcases digit_cases hdigit with
      rfl | rfl | rfl | rfl | rfl | rfl | rfl | rfl | rfl | rfl <;> rfl
  rw [hb', List.cons_append] at hread ⊢
  rw [readOptional, bind_ok (peekToken_cons hblank _)]
  refine (congrFun (match_null hnull _ _) _).trans ?_
  rw [bind_ok hread]
  rfl

/-- The JSON form of a storable value reads back as that value. -/
theorem reads_reader : ∀ {t : ValueType} {v : t.Carrier}, t.Storable v →
    ∃ j, t.toJson v = .ok j ∧ Reads t.reader j.toBytes v
  | keyText, (s : String), _ => ⟨.string s, rfl, reads_readText s⟩
  | text, (s : String), _ => ⟨.string s, rfl, reads_readText s⟩
  | natural32, (n : UInt32), _ => ⟨.ofNat n.toNat, rfl, reads_readNatural32 n⟩
  | natural64, (n : UInt64), _ => by
    refine ⟨.ofNat n.toNat, rfl, (reads_natural Word.size64 n.toNat_lt (by decide)
      "u64").bind fun rest => ?_⟩
    rw [Nat.toUInt64_eq, UInt64.ofNat_toNat]
    rfl
  | integer64, (n : Int64), _ => by
    have hlow : -(Word.size63 : Int) ≤ n.toInt := n.le_toInt
    have hhigh : n.toInt ≤ (Word.size63 : Int) - 1 := by
      have : n.toInt < (Word.size63 : Int) := n.toInt_lt
      omega
    refine ⟨.ofInt n.toInt, rfl, (reads_integer hlow hhigh (by decide) (by decide)
      "i64").bind fun rest => ?_⟩
    rw [show n.toInt.toInt64 = n from Int64.ofInt_toInt n]
    rfl
  | boolean, (b : Bool), _ => ⟨.bool b, rfl, reads_boolean b "a boolean"⟩
  | texts, (ss : List String), _ => ⟨.array (ss.map .string), rfl, reads_readTexts ss⟩
  | pair, ((s, n) : String × UInt32), _ =>
    ⟨.array [.string s, .ofNat n.toNat], rfl, reads_readPair s n⟩
  | optional32, none, _ => ⟨.null, rfl, reads_readOptional_none⟩
  | optional32, some (n : UInt32), _ => ⟨.ofNat n.toNat, rfl, reads_readOptional_some n⟩
  | json, (j : Json), h => ⟨j, rfl, Json.reads_value h.1 h.2⟩

end ValueType

theorem encodeKey_of_storable {t : ValueType} {key : t.Carrier} (h : t.Storable key) :
    ∃ text, encodeKey t key = .ok text := by
  obtain ⟨j, hj, -⟩ := ValueType.reads_reader h
  exact ⟨j.text, by rw [encodeKey, hj]⟩

theorem encodeKey_injective {t : ValueType} {k₁ k₂ : t.Carrier} (h₁ : t.Storable k₁)
    (h₂ : t.Storable k₂) (h : encodeKey t k₁ = encodeKey t k₂) : k₁ = k₂ := by
  obtain ⟨j₁, hj₁, hread₁⟩ := ValueType.reads_reader h₁
  obtain ⟨j₂, hj₂, hread₂⟩ := ValueType.reads_reader h₂
  rw [encodeKey, encodeKey, hj₁, hj₂] at h
  have hbytes : j₁.toBytes = j₂.toBytes :=
    congrArg Utf8.encodeChars (String.ofList_injective (Except.ok.inj h))
  have hback₁ := Json.Reader.readAll_of_reads hread₁
  have hback₂ := Json.Reader.readAll_of_reads hread₂
  rw [hbytes, hback₂] at hback₁
  exact (Except.ok.inj hback₁).symm

namespace Codec

theorem deserialize_serialize_json {t : ValueType} {v : t.Carrier} (h : t.Storable v) :
    ∃ bytes, (json t).serialize v = .ok bytes ∧ (json t).deserialize bytes = .ok v := by
  obtain ⟨j, hj, hread⟩ := ValueType.reads_reader h
  have hback := Json.Reader.readAll_of_reads hread
  refine ⟨j.toBytes, ?_, ?_⟩
  · simp only [serialize, hj]
  · simp only [deserialize, hback]

theorem deserialize_utf8 (s : String) : utf8.deserialize (Utf8.encode s) = .ok s := by
  simp only [deserialize, Utf8.decode_encode]

/-- What a codec makes of a storable value it turns back into that value. -/
theorem deserialize_serialize {c : Codec} {v : c.Carrier} (h : c.valueType.Storable v) :
    ∃ bytes, c.serialize v = .ok bytes ∧ c.deserialize bytes = .ok v := by
  cases c with
  | json t => exact deserialize_serialize_json h
  | utf8 => exact ⟨Utf8.encode v, rfl, deserialize_utf8 v⟩

end Codec

end HistoryKeeper
