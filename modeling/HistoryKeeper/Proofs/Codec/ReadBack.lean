import HistoryKeeper.Keeper.Handle
import HistoryKeeper.Proofs.Codec.RoundTrip
import HistoryKeeper.Proofs.Json.FloatText

/-!
# Which stored values can be read

A codec may write what it does not read. `Codec.reads_back` says when: a double that is not finite is
written as null, which is no double, and a JSON value is written however deep it is nested, but read
only up to `nestingLimit`. Every other value that is written is read again, though perhaps as another
one: two roundings can miss a double (`exists_readsFloat`).
-/

namespace HistoryKeeper

namespace Json

open Reader

section Outcomes

variable {α β : Type} {fault : Fault} {p : Prop} {r : Except Fault α}

/-- There is a value or a fault, and the property decides which. -/
structure HingesOn (p : Prop) (fault : Fault) (r : Except Fault α) : Prop where
  ok : p → ∃ x, r = .ok x
  refused : ¬ p → r = .error fault

theorem HingesOn.congr {q : Prop} (h : HingesOn p fault r) (hpq : p ↔ q) : HingesOn q fault r :=
  ⟨fun hq => h.ok (hpq.mpr hq), fun hq => h.refused (mt hpq.mp hq)⟩

theorem HingesOn.obstacle [Decidable p] (h : HingesOn p fault r) :
    ((if p then none else some fault) = none → ∃ x, r = .ok x) ∧
      ∀ found, (if p then none else some fault) = some found → r = .error found := by
  by_cases hp : p
  · rw [if_pos hp]
    exact ⟨fun _ => h.ok hp, nofun⟩
  · rw [if_neg hp]
    exact ⟨nofun, fun found hfound => Option.some.inj hfound ▸ h.refused hp⟩

theorem HingesOn.map (h : HingesOn p fault r) (f : α → β) : HingesOn p fault (f <$> r) where
  ok hp := by
    obtain ⟨x, rfl⟩ := h.ok hp
    exact ⟨f x, rfl⟩
  refused hp := by
    rw [h.refused hp]
    rfl

/-- The first item that is refused decides, and all that are refused have the same fault. -/
theorem hingesOn_mapM {g : β → Except Fault α} {p : β → Prop} {xs : List β}
    (h : ∀ x ∈ xs, HingesOn (p x) fault (g x)) :
    HingesOn (∀ x ∈ xs, p x) fault (xs.mapM g) := by
  induction xs with
  | nil => exact ⟨fun _ => ⟨[], rfl⟩, fun hp => absurd nofun hp⟩
  | cons x xs ih =>
    rw [List.mapM_cons]
    have hx := h x (List.mem_cons_self ..)
    have hxs := ih fun y hy => h y (List.mem_cons_of_mem _ hy)
    by_cases hp : p x
    · obtain ⟨y, hy⟩ := hx.ok hp
      rw [hy]
      refine HingesOn.congr (r := (y :: ·) <$> xs.mapM g) (hxs.map _) ?_
      simp [hp]
    · rw [hx.refused hp]
      exact ⟨fun hall => absurd (hall x (List.mem_cons_self ..)) hp, fun _ => rfl⟩

end Outcomes

/-- What is not nested too deep is read, everything else is refused for that. -/
theorem hingesOn_rereadWithin (back : Binary64 → Binary64) (n : Nat) (j : Json) :
    HingesOn (j.depth ≤ n) .tooDeep (rereadWithin back n j) := by
  induction n generalizing j with
  | zero =>
    cases j with
    | number x => cases x <;> exact ⟨fun _ => ⟨_, rfl⟩, fun h => absurd (Nat.zero_le _) h⟩
    | array | object => exact ⟨fun h => by simp [depth] at h, fun _ => rfl⟩
    | _ => exact ⟨fun _ => ⟨_, rfl⟩, fun h => absurd (Nat.zero_le _) h⟩
  | succ n ih =>
    cases j with
    | number x => cases x <;> exact ⟨fun _ => ⟨_, rfl⟩, fun h => absurd (Nat.zero_le _) h⟩
    | array items =>
      have hitems := hingesOn_mapM fun k (_ : k ∈ items) => ih k
      exact (hitems.map array).congr (@depth_le_succ_iff (array items) n).symm
    | object fields =>
      have hfields := hingesOn_mapM fun x (_ : x ∈ fields) => (ih x.2).map (x.1, ·)
      refine (hfields.map object).congr ?_
      rw [depth_le_succ_iff, parts, List.forall_mem_map]
    | _ => exact ⟨fun _ => ⟨_, rfl⟩, fun h => absurd (Nat.zero_le _) h⟩

theorem hingesOn_parse {j : Json} (h : j.WellFormed) :
    HingesOn (j.depth ≤ nestingLimit) .tooDeep (parse j.toBytes) := by
  choose! back hback using fun x => @exists_readsFloat x
  rw [parse, anyValue, readAll_of_gives (gives_valueWithin h (fun _ => hback) nestingLimit)]
  exact hingesOn_rereadWithin back nestingLimit j

/-- Reading the text of a double hinges on its being finite. -/
theorem hingesOn_float (x : Binary64) (expected : String) :
    HingesOn (x.isFinite = true) (.invalidType .null expected)
      ((float expected).readAll (ofBinary64 x).toBytes) := by
  rw [ofBinary64]
  split
  · rename_i hfinite
    obtain ⟨y, hy⟩ := exists_readsFloat hfinite
    have hread : Reads (float expected) (number (.float x)).toBytes y := by
      intro rest h
      have hhead : head ((number (.float x)).toBytes ++ rest) = _ := hy rest h
      rw [float, bind_ok hhead]
      rfl
    exact ⟨fun _ => ⟨y, readAll_of_reads hread⟩, fun h => absurd hfinite h⟩
  · exact ⟨fun h => absurd h ‹_›, fun _ => rfl⟩

end Json

namespace ValueType

/-- What keeps the stored form of a value from being read. -/
def obstacle : (t : ValueType) → t.Carrier → Option Json.Fault
  | float, (x : Binary64) => if x.isFinite then none else some (.invalidType .null "f64")
  | json, (j : Json) => if j.depth ≤ Json.Reader.nestingLimit then none else some .tooDeep
  | _, _ => none

/-- Values that there can be: the numbers in a JSON value are in range, its fields in order. -/
def Proper : (t : ValueType) → t.Carrier → Prop
  | json, (j : Json) => j.WellFormed
  | _, _ => True

theorem readAll_stored {t : ValueType} {v : t.Carrier} {j : Json} (hproper : t.Proper v)
    (h : t.toJson v = .ok j) :
    (t.obstacle v = none → ∃ w, t.reader.readAll j.toBytes = .ok w) ∧
      ∀ fault, t.obstacle v = some fault → t.reader.readAll j.toBytes = .error fault := by
  cases t with
  | float =>
    cases h
    exact (Json.hingesOn_float v "f64").obstacle
  | json =>
    cases h
    exact (Json.hingesOn_parse hproper).obstacle
  | byteMap =>
    cases v with
    | nil =>
      cases h
      exact ⟨fun _ => ⟨[], rfl⟩, nofun⟩
    | cons => cases h
  | optional32 =>
    obtain ⟨k, hk, hread⟩ := @reads_reader optional32 v trivial
    obtain rfl := Except.ok.inj (h.symm.trans hk)
    exact ⟨fun _ => ⟨v, Json.Reader.readAll_of_reads hread⟩, nofun⟩
  | _ =>
    obtain ⟨k, hk, hread⟩ := reads_reader (v := v) trivial
    obtain rfl := Except.ok.inj (h.symm.trans hk)
    exact ⟨fun _ => ⟨v, Json.Reader.readAll_of_reads hread⟩, nofun⟩

end ValueType

namespace Codec

/-- A stored value is read, with `deserialize` and as the answer to a read, unless it is a double
that is not finite or a JSON value nested too deep; then every read is refused, and the fault says
why. -/
theorem reads_back (c : Codec) (v : c.Carrier) (bytes : Bytes) (hproper : c.valueType.Proper v)
    (h : c.serialize v = .ok bytes) :
    (c.valueType.obstacle v = none → ∃ w, c.deserialize bytes = .ok w ∧
        c.decodeAnswer (.ok (some bytes)) = .ok (some w)) ∧
      ∀ fault, c.valueType.obstacle v = some fault →
        c.deserialize bytes = .error (.decode .value fault.message) ∧
        c.decodeAnswer (.ok (some bytes)) = .error (.codec (.decode .value fault.message)) := by
  suffices hdeserialize :
      (c.valueType.obstacle v = none → ∃ w, c.deserialize bytes = .ok w) ∧
        ∀ fault, c.valueType.obstacle v = some fault →
          c.deserialize bytes = .error (.decode .value fault.message) by
    refine ⟨fun hnone => ?_, fun fault hfault => ?_⟩
    · obtain ⟨w, hw⟩ := hdeserialize.1 hnone
      exact ⟨w, hw, by rw [decodeAnswer, hw]⟩
    · have hrefused := hdeserialize.2 fault hfault
      exact ⟨hrefused, by rw [decodeAnswer, hrefused]⟩
  cases c with
  | json t =>
    cases hj : t.toJson v with
    | error fault => simp [serialize, hj] at h
    | ok j =>
      simp only [serialize, hj] at h
      cases h
      have hread := @ValueType.readAll_stored t v j hproper hj
      refine ⟨fun hnone => ?_, fun fault hfault => ?_⟩
      · obtain ⟨w, hw⟩ := hread.1 hnone
        exact ⟨w, by simp only [deserialize, hw]⟩
      · simp only [deserialize, hread.2 fault hfault]
  | utf8 =>
    cases h
    exact ⟨fun _ => ⟨v, deserialize_utf8 v⟩, fun fault hfault => by cases hfault⟩

/-- One and a half is written as `1.5` and read again; what is no number is written as `null`, and
that is refused. -/
theorem reads_back_of_two :
    (json .float).serialize ⟨4609434218613702656⟩ = .ok [49, 46, 53] ∧
    (∃ w, (json .float).deserialize [49, 46, 53] = .ok w) ∧
    (json .float).serialize .nan = .ok [110, 117, 108, 108] ∧
    (json .float).deserialize [110, 117, 108, 108] =
      .error (.decode .value "invalid type: null, expected f64") := by
  have hwritten : (json .float).serialize ⟨4609434218613702656⟩ = .ok [49, 46, 53] := by
    decide +kernel
  have hnull : (json .float).serialize .nan = .ok [110, 117, 108, 108] := by decide +kernel
  obtain ⟨w, hw, -⟩ := ((json .float).reads_back _ _ trivial hwritten).1 (by decide +kernel)
  exact ⟨hwritten, ⟨w, hw⟩, hnull, (((json .float).reads_back _ _ trivial hnull).2
    (.invalidType .null "f64") (by decide +kernel)).1⟩

/-- Not everything that is written can be read. -/
theorem written_not_read : ¬ ∀ (c : Codec) (v : c.Carrier) (bytes : Bytes), c.valueType.Proper v →
    c.serialize v = .ok bytes → ∃ w, c.deserialize bytes = .ok w := by
  intro h
  have hnull : (json .float).serialize .nan = .ok [110, 117, 108, 108] := by decide +kernel
  have hrefused : (json .float).deserialize [110, 117, 108, 108] =
      .error (.decode .value "invalid type: null, expected f64") := rfl
  obtain ⟨w, hw⟩ := h (json .float) .nan _ trivial hnull
  rw [hrefused] at hw
  cases hw

end Codec

end HistoryKeeper
