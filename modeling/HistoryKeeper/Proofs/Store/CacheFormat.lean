import HistoryKeeper.Proofs.Json.Reading
import HistoryKeeper.Proofs.Json.Yields
import HistoryKeeper.Proofs.Text.Base64
import HistoryKeeper.Store.CacheFile

/-!
# The format of cache files

What is written for entries loads as those entries (`CacheFile.decode_encode`), and whatever loads is
an ordered table (`CacheFile.ordered_of_decode`).
-/

namespace HistoryKeeper

/-- What a cache file holds: entries, or else the bytes that are none. -/
abbrev CacheContent := Except Bytes Entries

theorem CacheContent.map_eq_ok {x : CacheContent} {f : Entries → Entries} {t : Entries}
    (h : x.map f = .ok t) : ∃ before, x = .ok before ∧ f before = t := by
  cases x with
  | error bytes => cases h
  | ok before =>
    cases h
    exact ⟨before, rfl, rfl⟩

namespace CacheFile

open Json (Reader EndsNumeral)
open Json.Reader

theorem yields_readField (key : String) {seen : Option Nat × Option (Table String String)}
    (h : ∀ values ∈ seen.2, values.Ordered) :
    Yields (readField key seen) fun seen => ∀ values ∈ seen.2, values.Ordered := by
  obtain ⟨version, values⟩ := seen
  simp only [readField]
  split
  · split
    · exact yields_fail_bind _ _ _
    · exact (yields_any _).bind fun _ _ => (yields_any _).bind fun _ _ => yields_pure h
  · split
    · split
      · exact yields_fail_bind _ _ _
      · refine (yields_any _).bind fun _ _ => (yields_table _ _).bind fun values hvalues => ?_
        refine yields_pure fun v hv => ?_
        cases hv
        exact hvalues
    · exact (yields_any _).bind fun _ _ => (yields_any _).bind fun _ _ => yields_pure h

theorem yields_readDocument : Yields readDocument fun document => document.values.Ordered := by
  refine (yields_any _).bind fun h _ => ?_
  cases h with
  | openObject =>
    refine (yields_objectBody (fun key _ h => yields_readField key h) (by simp)).bind
      fun seen hseen => ?_
    obtain ⟨version, values⟩ := seen
    cases version with
    | none => exact yields_fail _ _
    | some version =>
      cases values with
      | none => exact yields_fail _ _
      | some values =>
        exact (yields_any _).bind fun _ _ => yields_pure (hseen values rfl)
  | openArray =>
    refine (yields_any _).bind fun more _ => ?_
    have hrest : Yields (do
        let version ← readVersion
        if !(← moreItems false) then
          fail (.invalidLength 1 "struct CacheFileContents with 2 elements")
        let values ← readValues
        closeArray
        return { version, values : Document }) fun document => document.values.Ordered := by
      refine (yields_any _).bind fun version _ => (yields_any _).bind fun more _ => ?_
      have hvalues : Yields (do
          let values ← readValues
          closeArray
          return { version, values : Document }) fun document => document.values.Ordered :=
        (yields_table _ _).bind fun values h => (yields_any _).bind fun _ _ => yields_pure h
      cases more with
      | false => exact yields_fail_bind _ _ _
      | true => exact hvalues
    cases more with
    | false => exact yields_fail_bind _ _ _
    | true => exact hrest
  | _ => exact yields_fail _ _

theorem keys_of_decodeValues {values : Table String String} {entries : Entries}
    (h : decodeValues values = .ok entries) : entries.map (·.1) = values.map (·.1) := by
  induction values generalizing entries with
  | nil => cases h; rfl
  | cons x values ih =>
    obtain ⟨key, value⟩ := x
    simp only [decodeValues] at h
    split at h
    · cases h
    · cases hrest : decodeValues values with
      | error e => rw [hrest] at h; cases h
      | ok rest =>
        rw [hrest] at h
        cases h
        rw [List.map_cons, List.map_cons, ih hrest]

theorem ordered_of_keys {α β : Type} {t : Table String α} {u : Table String β}
    (h : t.map (·.1) = u.map (·.1)) (hu : u.Ordered) : t.Ordered := by
  have hkeys : (u.map (·.1)).Pairwise (· < ·) := List.pairwise_map.mpr hu
  rw [← h] at hkeys
  exact List.pairwise_map.mp hkeys

theorem ordered_of_decode {content : Bytes} {entries : Entries}
    (h : decode content = .ok entries) : entries.Ordered := by
  unfold decode at h
  split at h
  · cases h
  · rename_i document hdocument
    split at h
    · cases h
    · exact ordered_of_keys (keys_of_decodeValues h) (of_readAll yields_readDocument hdocument)

/-- The values as they are written. -/
def valueTexts (entries : Entries) : Table String String :=
  entries.mapValues fun value => String.ofList (Base64.encode value)

theorem decodeValues_valueTexts (entries : Entries) :
    decodeValues (valueTexts entries) = .ok entries := by
  induction entries with
  | nil => rfl
  | cons x entries ih =>
    obtain ⟨key, value⟩ := x
    have hvalue : Base64.decode (Utf8.encode (String.ofList (Base64.encode value))) = .ok value := by
      rw [Utf8.encode, String.toList_ofList, Base64.decode_encode]
    change decodeValues ((key, String.ofList (Base64.encode value)) :: valueTexts entries) = _
    simp only [decodeValues, hvalue, ih]
    rfl

theorem map_encode (entries : Entries) : (entries.map fun (key, value) =>
    (key, Json.string (String.ofList (Base64.encode value)))) =
      (valueTexts entries).map fun x => (x.1, .string x.2) := by
  simp only [valueTexts, Table.mapValues, List.map_map]
  rfl

theorem encode_eq (entries : Entries) : encode entries =
    123 :: (Utf8.encodeChars (Json.renderString "version") ++ 58 :: ((Json.ofNat version).toBytes ++
      44 :: (Utf8.encodeChars (Json.renderString "entries") ++ 58 ::
        ((Json.object ((valueTexts entries).map fun x => (x.1, .string x.2))).toBytes ++
          [125])))) := by
  have hopen : String.utf8EncodeChar '\x7b' = [123] := rfl
  have hclose : String.utf8EncodeChar '\x7d' = [125] := rfl
  have hcomma : String.utf8EncodeChar ',' = [44] := rfl
  have hcolon : String.utf8EncodeChar ':' = [58] := rfl
  simp only [encode, map_encode, Json.toBytes, Json.render, Json.renderFields, List.cons_append,
    List.append_assoc, Utf8.encodeChars_cons, Utf8.encodeChars_append, Utf8.encodeChars_nil, hopen,
    hclose, hcomma, hcolon, List.nil_append]

theorem reads_readVersion : Reads readVersion (Json.ofNat version).toBytes version :=
  reads_natural Word.size32 (n := version) (by decide) (by decide) "u32"

theorem reads_readValues {values : Table String String} (h : values.Ordered) :
    Reads readValues (Json.object (values.map fun x => (x.1, .string x.2))).toBytes values := by
  intro rest _
  obtain ⟨body, hbody, hread⟩ := reads_table (Json.Reader.string "a string")
    (f := Json.string) h (fun x _ => reads_string x.2 "a string") rest
  rw [hbody, List.cons_append, readValues, table, bind_ok (head_openObject _)]
  exact hread

theorem readField_version {bytes rest : Bytes} {n : Nat} (h : Reads readVersion bytes n)
    (hrest : EndsNumeral rest) (values : Option (Table String String)) :
    readField "version" (none, values) (58 :: (bytes ++ rest)) = .ok ((some n, values), rest) := by
  show (colon >>= fun _ => readVersion >>= fun n => pure (some n, values) : Reader _) _ = _
  rw [bind_ok (colon_cons _), bind_ok (h rest hrest)]
  rfl

theorem readField_entries {bytes rest : Bytes} {values : Table String String}
    (h : Reads readValues bytes values) (hrest : EndsNumeral rest) (version : Option Nat) :
    readField "entries" (version, none) (58 :: (bytes ++ rest)) =
      .ok ((version, some values), rest) := by
  have hname : "entries" ≠ "version" := by decide
  simp only [readField, if_neg hname]
  show (colon >>= fun _ => readValues >>= fun values => pure (version, some values) : Reader _) _ = _
  rw [bind_ok (colon_cons _), bind_ok (h rest hrest)]
  rfl

theorem readDocument_fields {versionText valuesText : Bytes} {n : Nat}
    {values : Table String String} (hversion : Reads readVersion versionText n)
    (hvalues : Reads readValues valuesText values) :
    readDocument (123 :: (Utf8.encodeChars (Json.renderString "version") ++ 58 :: (versionText ++
      44 :: (Utf8.encodeChars (Json.renderString "entries") ++ 58 :: (valuesText ++ [125]))))) =
        .ok (⟨n, values⟩, []) := by
  have hfields : ∀ fuel, fields readField (fuel + 3) true (none, none)
      (Utf8.encodeChars (Json.renderString "version") ++ 58 :: (versionText ++
        44 :: (Utf8.encodeChars (Json.renderString "entries") ++ 58 :: (valuesText ++ [125])))) =
          .ok ((some n, some values), [125]) := by
    intro fuel
    rw [fields, bind_ok (nextKey_first "version" _)]
    show (readField "version" (none, none) >>= fun acc => fields readField (fuel + 2) false acc :
      Reader _) _ = _
    rw [bind_ok (readField_version hversion (endsNumeral_cons (by decide) _) none), fields,
      bind_ok (nextKey_comma "entries" _)]
    show (readField "entries" (some n, none) >>= fun acc =>
      fields readField (fuel + 1) false acc : Reader _) _ = _
    rw [bind_ok (readField_entries hvalues (endsNumeral_cons (by decide) []) (some n))]
    exact fields_close readField fuel false _ []
  have hbody : ∀ bytes : Bytes, 2 ≤ bytes.length →
      objectBody readField (none, none) bytes =
        fields readField (bytes.length - 2 + 3) true (none, none) bytes := by
    intro bytes hlength
    show fields readField (bytes.length + 1) true (none, none) bytes = _
    rw [show bytes.length + 1 = bytes.length - 2 + 3 by omega]
  rw [readDocument, bind_ok (head_openObject _)]
  have hrun := (hbody _ (by simp only [List.length_append, List.length_cons]; omega)).trans
    (hfields _)
  show (objectBody readField (none, none) >>= fun seen => _ : Reader Document) _ = _
  rw [bind_ok hrun]
  rfl

theorem decode_encode {entries : Entries} (h : entries.Ordered) :
    decode (encode entries) = .ok entries := by
  have hordered : (valueTexts entries).Ordered := h.mapValues _
  have hread : readDocument.readAll (encode entries) = .ok ⟨version, valueTexts entries⟩ := by
    rw [encode_eq]
    exact readAll_of_run (readDocument_fields reads_readVersion (reads_readValues hordered))
  unfold decode
  simp only [hread, ne_eq, not_true_eq_false, if_false]
  exact decodeValues_valueTexts entries

theorem encode_injective {t u : Entries} (ht : t.Ordered) (hu : u.Ordered)
    (h : encode t = encode u) : t = u := by
  have hdecode := decode_encode ht
  rw [h, decode_encode hu] at hdecode
  exact (Except.ok.inj hdecode).symm

end CacheFile

end HistoryKeeper
