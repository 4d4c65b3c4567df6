import HistoryKeeper.Proofs.Json.Reading

/-!
# The JSON round trip

`gives_valueWithin`: what the text of a well-formed value is read as. Items and fields are read one
level deeper than the value, and past the last level there are none (`reread`, `rereadWithin`).

`reads_value`: the text of a well-formed value without doubles reads back as that value, if the
reader may go as deep as the value is nested. So the text tells the value (`text_injective`).
-/

namespace HistoryKeeper.Json

theorem wellFormedItems_iff {items : List Json} :
    WellFormedItems items ↔ ∀ j ∈ items, j.WellFormed := by
  induction items with
  | nil => simp [WellFormedItems]
  | cons j items ih => simp [WellFormedItems, ih]

theorem wellFormedFields_iff {fields : List (String × Json)} :
    WellFormedFields fields ↔ ∀ x ∈ fields, x.2.WellFormed := by
  induction fields with
  | nil => simp [WellFormedFields]
  | cons x fields ih => simp [WellFormedFields, ih]

theorem hasFloatItems_iff {items : List Json} :
    HasFloatItems items ↔ ∃ j ∈ items, j.HasFloat := by
  induction items with
  | nil => simp [HasFloatItems]
  | cons j items ih => simp [HasFloatItems, ih]

theorem hasFloatFields_iff {fields : List (String × Json)} :
    HasFloatFields fields ↔ ∃ x ∈ fields, x.2.HasFloat := by
  induction fields with
  | nil => simp [HasFloatFields]
  | cons x fields ih => simp [HasFloatFields, ih]

theorem depthItems_le_iff {items : List Json} {n : Nat} :
    depthItems items ≤ n ↔ ∀ j ∈ items, j.depth ≤ n := by
  induction items with
  | nil => simp [depthItems]
  | cons j items ih => simp [depthItems, ih]

theorem depthFields_le_iff {fields : List (String × Json)} {n : Nat} :
    depthFields fields ≤ n ↔ ∀ x ∈ fields, x.2.depth ≤ n := by
  induction fields with
  | nil => simp [depthFields]
  | cons x fields ih => simp [depthFields, ih]

/-- Values whose text tells them apart. -/
structure Exact (j : Json) : Prop where
  wellFormed : j.WellFormed
  noFloat : ¬ j.HasFloat

/-- The items of an array, the values of an object. -/
def parts : Json → List Json
  | array items => items
  | object fields => fields.map (·.2)
  | _ => []

section Parts

variable {j k : Json}

theorem WellFormed.part (h : j.WellFormed) (hk : k ∈ j.parts) : k.WellFormed := by
  cases j with
  | array items => exact wellFormedItems_iff.mp h k hk
  | object fields =>
    obtain ⟨x, hx, rfl⟩ := List.mem_map.mp hk
    exact wellFormedFields_iff.mp h.2 x hx
  | _ => exact absurd hk List.not_mem_nil

theorem hasFloat_of_part (hk : k ∈ j.parts) (h : k.HasFloat) : j.HasFloat := by
  cases j with
  | array items => exact hasFloatItems_iff.mpr ⟨k, hk, h⟩
  | object fields =>
    obtain ⟨x, hx, rfl⟩ := List.mem_map.mp hk
    exact hasFloatFields_iff.mpr ⟨x, hx, h⟩
  | _ => exact absurd hk List.not_mem_nil

theorem Exact.part (h : j.Exact) (hk : k ∈ j.parts) : k.Exact :=
  ⟨h.wellFormed.part hk, fun hf => h.noFloat (hasFloat_of_part hk hf)⟩

theorem depth_le_succ_iff {n : Nat} : j.depth ≤ n + 1 ↔ ∀ k ∈ j.parts, k.depth ≤ n := by
  cases j with
  | array items => simp [depth, parts, depthItems_le_iff]
  | object fields =>
    simp only [depth, parts, Nat.add_le_add_iff_right, depthFields_le_iff, List.forall_mem_map]
  | _ => simp [depth, parts]

end Parts

open Reader

theorem head_null (rest : Bytes) : head (null.toBytes ++ rest) = .ok (.null, rest) := rfl

theorem head_bool (b : Bool) (rest : Bytes) :
    head ((bool b).toBytes ++ rest) = .ok (.bool b, rest) := by
  cases b <;> rfl

theorem toBytes_array (items : List Json) : ∃ body, (array items).toBytes = 91 :: body := by
  cases items with
  | nil => exact ⟨_, rfl⟩
  | cons j items =>
    refine ⟨Utf8.encodeChars (j.render ++ renderItems items), ?_⟩
    rw [toBytes, render, List.cons_append, Utf8.encodeChars_cons]
    rfl

theorem toBytes_object (fields : List (String × Json)) :
    ∃ body, (object fields).toBytes = 123 :: body := by
  cases fields with
  | nil => exact ⟨_, rfl⟩
  | cons x fields =>
    refine ⟨Utf8.encodeChars (renderString x.1 ++ ':' :: x.2.render ++ renderFields fields), ?_⟩
    rw [toBytes, render]
    simp only [List.cons_append, List.append_assoc, Utf8.encodeChars_cons]
    rfl

theorem startsValue_toBytes (j : Json) : StartsValue j.toBytes := by
  cases j with
  | null => exact ⟨110, _, rfl, rfl, by decide⟩
  | bool b => cases b <;> exact ⟨_, _, rfl, by decide, by decide⟩
  | number n =>
    cases n with
    | integer n => exact startsValue_ofInt n
    | float x => exact startsValue_renderFloat x
  | string s => exact startsValue_renderString s
  | array items =>
    obtain ⟨body, hbody⟩ := toBytes_array items
    exact ⟨91, body, hbody, rfl, by decide⟩
  | object fields =>
    obtain ⟨body, hbody⟩ := toBytes_object fields
    exact ⟨123, body, hbody, rfl, by decide⟩

/-- The text of one double is read as another. -/
def ReadsFloat (x y : Binary64) : Prop :=
  ∀ rest, EndsNumeral rest →
    head (Utf8.encodeChars (renderFloat x) ++ rest) = .ok (.number (.float y), rest)

/-- What the text of a value comes to, where `back` tells the doubles that are read and `inner` what
the items and fields come to, if there may be any. -/
def reread (back : Binary64 → Binary64) (inner : Option (Json → Except Fault Json)) :
    Json → Except Fault Json
  | number (.float x) => .ok (number (.float (back x)))
  | array items =>
    match inner with
    | some item => array <$> items.mapM item
    | none => .error .tooDeep
  | object fields =>
    match inner with
    | some value => object <$> eachField value fields
    | none => .error .tooDeep
  | j => .ok j

/-- The same for arrays and objects inside one another up to this deep. -/
def rereadWithin (back : Binary64 → Binary64) : (depth : Nat) → Json → Except Fault Json
  | 0 => reread back none
  | depth + 1 => reread back (some (rereadWithin back depth))

section Gives

variable {j : Json} {back : Binary64 → Binary64}

theorem gives_valueWith (h : j.WellFormed)
    (hback : j.HasFloat → ∀ x, x.isFinite → ReadsFloat x (back x))
    (inner : Option (Reader Json × (Json → Except Fault Json)))
    (hinner : ∀ p ∈ inner, ∀ k ∈ j.parts, Gives p.1 k.toBytes (p.2 k)) :
    Gives (valueWith (inner.map (·.1))) j.toBytes (reread back (inner.map (·.2)) j) := by
  intro rest hrest
  cases j with
  | null => rw [valueWith, bind_ok (head_null rest)]; rfl
  | bool b => rw [valueWith, bind_ok (head_bool b rest)]; rfl
  | number n =>
    cases n with
    | integer n =>
      have hhead : head ((number (.integer n)).toBytes ++ rest) = _ := head_integer h.1 h.2 hrest
      rw [valueWith, bind_ok hhead]; rfl
    | float x =>
      have hhead : head ((number (.float x)).toBytes ++ rest) = _ := hback trivial x h rest hrest
      rw [valueWith, bind_ok hhead]; rfl
  | string s =>
    have hhead : head ((string s).toBytes ++ rest) = _ := head_string s rest
    rw [valueWith, bind_ok hhead]; rfl
  | array items =>
    cases inner with
    | none =>
      obtain ⟨body, hbody⟩ := toBytes_array items
      rw [hbody, List.cons_append, valueWith, bind_ok (head_openArray _)]
      rfl
    | some p =>
      obtain ⟨body, hbody, hread⟩ := gives_array p.1 id p.2 items
        (fun x _ => startsValue_toBytes x) (hinner p rfl) rest
      rw [List.map_id] at hbody
      rw [hbody, List.cons_append, valueWith, bind_ok (head_openArray _)]
      show (arrayBody p.1 >>= fun items => pure (array items) : Reader Json) _ =
        (·, rest) <$> (array <$> items.mapM p.2)
      rw [bind_map hread]
      cases items.mapM p.2 <;> rfl
  | object fields =>
    cases inner with
    | none =>
      obtain ⟨body, hbody⟩ := toBytes_object fields
      rw [hbody, List.cons_append, valueWith, bind_ok (head_openObject _)]
      rfl
    | some p =>
      obtain ⟨body, hbody, hread⟩ := gives_table p.1 id p.2 h.1
        (fun x hx => hinner p rfl x.2 (List.mem_map_of_mem hx)) rest
      simp only [id_eq, Prod.mk.eta, List.map_id'] at hbody
      rw [hbody, List.cons_append, valueWith, bind_ok (head_openObject _)]
      show (tableBody p.1 >>= fun fields => pure (object fields) : Reader Json) _ =
        (·, rest) <$> (object <$> eachField p.2 fields)
      rw [bind_map hread]
      cases eachField p.2 fields <;> rfl

/-- What the text of a value is read as by a reader that goes this deep. -/
theorem gives_valueWithin (h : j.WellFormed)
    (hback : j.HasFloat → ∀ x, x.isFinite → ReadsFloat x (back x)) (n : Nat) :
    Gives (valueWithin n) j.toBytes (rereadWithin back n j) := by
  induction n generalizing j with
  | zero => exact gives_valueWith h hback none nofun
  | succ n ih =>
    refine gives_valueWith h hback (some (valueWithin n, rereadWithin back n)) ?_
    rintro p ⟨rfl⟩ k hk
    exact ih (h.part hk) fun hf => hback (hasFloat_of_part hk hf)

theorem rereadWithin_exact (h : j.Exact) {n : Nat} (hn : j.depth ≤ n) :
    rereadWithin back n j = .ok j := by
  induction n generalizing j with
  | zero =>
    cases j with
    | number n =>
      cases n with
      | integer n => rfl
      | float x => exact absurd trivial h.noFloat
    | array items => simp [depth] at hn
    | object fields => simp [depth] at hn
    | _ => rfl
  | succ n ih =>
    have hparts : ∀ k ∈ j.parts, rereadWithin back n k = .ok k := fun k hk =>
      ih (h.part hk) (depth_le_succ_iff.mp hn k hk)
    cases j with
    | number n =>
      cases n with
      | integer n => rfl
      | float x => exact absurd trivial h.noFloat
    | array items =>
      show array <$> items.mapM (rereadWithin back n) = _
      rw [mapM_ok (show ∀ k ∈ items, rereadWithin back n k = .ok k from hparts)]
      rfl
    | object fields =>
      show object <$> eachField (rereadWithin back n) fields = _
      rw [eachField_ok fun x hx => hparts x.2 (List.mem_map_of_mem hx)]
      rfl
    | _ => rfl

end Gives

/-- The text of a value reads back as that value, nested as deep as the reader goes. -/
theorem reads_value {j : Json} (h : j.Exact) {n : Nat} (hn : j.depth ≤ n) :
    Reads (valueWithin n) j.toBytes j := by
  have hgives : Gives (valueWithin n) j.toBytes (rereadWithin id n j) :=
    gives_valueWithin h.wellFormed (fun hf => absurd hf h.noFloat) n
  rwa [rereadWithin_exact h hn] at hgives

theorem parse_toBytes {j : Json} (h : j.Exact) (hdepth : j.depth ≤ nestingLimit) :
    parse j.toBytes = .ok j :=
  readAll_of_reads (reads_value h hdepth)

theorem toBytes_injective {j k : Json} (hj : j.Exact) (hk : k.Exact) (h : j.toBytes = k.toBytes) :
    j = k := by
  have hj' := readAll_of_reads (reads_value hj (Nat.le_max_left j.depth k.depth))
  have hk' := readAll_of_reads (reads_value hk (Nat.le_max_right j.depth k.depth))
  rw [h, hk'] at hj'
  exact (Except.ok.inj hj').symm

theorem text_injective {j k : Json} (hj : j.Exact) (hk : k.Exact) (h : j.text = k.text) :
    j = k :=
  toBytes_injective hj hk (congrArg Utf8.encodeChars (String.ofList_injective h))

end HistoryKeeper.Json
