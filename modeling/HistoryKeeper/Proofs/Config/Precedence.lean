import Mathlib.Data.List.Induction
import HistoryKeeper.Proofs.Config.Validated

/-!
# Which layer has its way at a path

Merged layers are read by paths of field names. A layer `Covers` a path if it has a value there, or
something other than an object on the way to it; from the layers below, it lets nothing through. So
what is no object in the merged layers is what the last layer that covers its path has there
(`getPath?_mergeLayers`), and objects are merged with what lies below them.

Both come from one law for two values: unless the upper one `Blocks` the path, its value there is
laid onto the one of the lower (`getPath?_overlay`).
-/

namespace HistoryKeeper.Json

def IsObject (j : Json) : Prop :=
  ∃ fields, j = .object fields

/-- Something other than an object stands on the way to the path. -/
def Blocks (j : Json) (path : List String) : Prop :=
  ∃ ahead v, ahead <+: path ∧ ahead ≠ path ∧ j.getPath? ahead = some v ∧ ¬ v.IsObject

/-- Nothing below can be seen at the path. -/
def Covers (j : Json) (path : List String) : Prop :=
  (∃ v, j.getPath? path = some v) ∨ j.Blocks path

variable {base upper j v : Json} {key : String} {path : List String}

theorem isObject_object (fields : List (String × Json)) : IsObject (object fields) :=
  ⟨fields, rfl⟩

theorem get?_of_not_isObject (h : ¬ j.IsObject) (key : String) : j.get? key = none := by
  cases j with
  | object fields => exact absurd (isObject_object fields) h
  | _ => rfl

theorem overlay_of_not_isObject (h : ¬ upper.IsObject) (base : Json) : overlay base upper = upper :=
  overlay_of_not_object fun fields hfields => h ⟨fields, hfields⟩

theorem isObject_overlay (h : upper.IsObject) (base : Json) : (overlay base upper).IsObject := by
  obtain ⟨fields, rfl⟩ := h
  cases base <;> exact ⟨_, rfl⟩

theorem get?_overlayFields {upper : List (String × Json)} (hordered : Table.Ordered upper)
    (fields : List (String × Json)) (key : String) :
    Table.get? (overlayFields fields upper) key =
      Option.merge overlay (Table.get? fields key) (Table.get? upper key) := by
  induction upper generalizing fields with
  | nil => cases hbelow : Table.get? fields key <;> simp [overlayFields, hbelow]
  | cons x upper ih =>
    obtain ⟨key', value⟩ := x
    rw [overlayFields, ih hordered.tail]
    by_cases hkey : key = key'
    · -- the other fields of an ordered table have other names
      subst hkey
      have hother : Table.get? upper key = none := Table.get?_eq_none_of_lt hordered.head
      rw [Table.get?_insert_self, hother, Table.get?_cons, if_pos rfl]
      cases Table.get? fields key <;> rfl
    · rw [Table.get?_insert_ne _ _ hkey, Table.get?_cons, if_neg hkey]

theorem get?_overlay (hupper : upper.Keyed) (hobject : upper.IsObject) (base : Json)
    (key : String) :
    (overlay base upper).get? key = Option.merge overlay (base.get? key) (upper.get? key) := by
  obtain ⟨fields, rfl⟩ := hobject
  cases hupper with
  | other h => exact absurd rfl (h fields)
  | object hordered _ =>
    by_cases hbase : base.IsObject
    · obtain ⟨below, rfl⟩ := hbase
      exact get?_overlayFields hordered below key
    · have hoverlay : overlay base (object fields) = object fields := by
        cases base with
        | object below => exact absurd (isObject_object below) hbase
        | _ => rfl
      rw [hoverlay, get?_of_not_isObject hbase]
      cases (object fields).get? key <;> rfl

theorem getPath?_cons (j : Json) (key : String) (path : List String) :
    j.getPath? (key :: path) = (j.get? key).bind (·.getPath? path) := rfl

theorem not_blocks_nil (j : Json) : ¬ j.Blocks [] := by
  rintro ⟨ahead, v, hprefix, hne, -⟩
  exact hne (List.prefix_nil.mp hprefix)

theorem blocks_cons :
    j.Blocks (key :: path) ↔ ¬ j.IsObject ∨ ∃ v, j.get? key = some v ∧ v.Blocks path := by
  constructor
  · rintro ⟨ahead, v, hprefix, hne, hv, hobject⟩
    cases ahead with
    | nil =>
      cases hv
      exact .inl hobject
    | cons key' ahead =>
      obtain ⟨rfl, hahead⟩ := List.cons_prefix_cons.mp hprefix
      obtain ⟨w, hw, hv⟩ := Option.bind_eq_some_iff.mp hv
      exact .inr ⟨w, hw, ahead, v, hahead, fun h => hne (h ▸ rfl), hv, hobject⟩
  · rintro (hobject | ⟨w, hw, ahead, v, hprefix, hne, hv, hobject⟩)
    · exact ⟨[], j, List.nil_prefix, nofun, rfl, hobject⟩
    · refine ⟨key :: ahead, v, List.cons_prefix_cons.mpr ⟨rfl, hprefix⟩, ?_, ?_, hobject⟩
      · simpa using hne
      · rw [getPath?_cons, hw]
        exact hv

theorem Blocks.getPath?_eq_none (h : j.Blocks path) : j.getPath? path = none := by
  induction path generalizing j with
  | nil => exact absurd h (not_blocks_nil j)
  | cons key path ih =>
    rw [getPath?_cons]
    rcases blocks_cons.mp h with hobject | ⟨v, hv, hblocks⟩
    · rw [get?_of_not_isObject hobject]
      rfl
    · rw [hv]
      exact ih hblocks

theorem Blocks.overlay (hupper : upper.Keyed) (h : upper.Blocks path) (base : Json) :
    (overlay base upper).Blocks path := by
  induction path generalizing base upper with
  | nil => exact absurd h (not_blocks_nil upper)
  | cons key path ih =>
    by_cases hobject : upper.IsObject
    · obtain ⟨v, hv, hblocks⟩ := (blocks_cons.mp h).resolve_left (not_not.mpr hobject)
      have hmerged := get?_overlay hupper hobject base key
      rw [hv] at hmerged
      refine blocks_cons.mpr (.inr ?_)
      cases hbelow : base.get? key with
      | none =>
        rw [hbelow] at hmerged
        exact ⟨v, hmerged, hblocks⟩
      | some below =>
        rw [hbelow] at hmerged
        exact ⟨_, hmerged, ih (hupper.of_get? hv) hblocks below⟩
    · rw [overlay_of_not_isObject hobject]
      exact h

theorem getPath?_overlay (hupper : upper.Keyed) (h : ¬ upper.Blocks path) (base : Json) :
    (overlay base upper).getPath? path =
      Option.merge overlay (base.getPath? path) (upper.getPath? path) := by
  induction path generalizing base upper with
  | nil => rfl
  | cons key path ih =>
    rw [blocks_cons, not_or, not_not] at h
    obtain ⟨hobject, hinner⟩ := h
    simp only [getPath?_cons, get?_overlay hupper hobject base key]
    cases hbelow : base.get? key with
    | none => cases hv : upper.get? key <;> simp
    | some below =>
      cases hv : upper.get? key with
      | none => cases hunder : below.getPath? path <;> simp [hunder]
      | some v =>
        exact ih (hupper.of_get? hv) (fun hblocks => hinner ⟨v, hv, hblocks⟩) below

theorem not_covers_iff : ¬ j.Covers path ↔ j.getPath? path = none ∧ ¬ j.Blocks path := by
  rw [Covers, not_or, not_exists, Option.eq_none_iff_forall_ne_some]

/-! ### Layers -/

/-- A layer has the value at the path, and no later one covers it. -/
def Prevails (layers : List Json) (path : List String) (v : Json) : Prop :=
  ∃ below layer above, layers = below ++ layer :: above ∧ layer.getPath? path = some v ∧
    ∀ later ∈ above, ¬ later.Covers path

theorem prevails_concat {layers : List Json} {layer : Json} :
    Prevails (layers ++ [layer]) path v ↔
      layer.getPath? path = some v ∨ ¬ layer.Covers path ∧ Prevails layers path v := by
  constructor
  · rintro ⟨below, l, above, hlayers, hv, habove⟩
    rcases List.eq_nil_or_concat above with rfl | ⟨above, last, rfl⟩
    · obtain ⟨-, hl⟩ := List.append_inj' hlayers rfl
      cases hl
      exact .inl hv
    · rw [List.concat_eq_append, ← List.cons_append, ← List.append_assoc] at hlayers
      obtain ⟨rfl, hl⟩ := List.append_inj' hlayers rfl
      cases hl
      exact .inr ⟨habove _ (by simp), below, l, above, rfl, hv, fun j hj => habove j (by simp [hj])⟩
  · rintro (hv | ⟨hlayer, below, l, above, rfl, hv, habove⟩)
    · exact ⟨layers, layer, [], rfl, hv, by simp⟩
    · refine ⟨below, l, above ++ [layer], by simp, hv, fun j hj => ?_⟩
      rcases List.mem_append.mp hj with hj | hj
      · exact habove j hj
      · exact List.mem_singleton.mp hj ▸ hlayer

theorem merge_eq_some_iff (hv : ¬ v.IsObject) (below : Option Json) (u : Json) :
    Option.merge overlay below (some u) = some v ↔ u = v := by
  have hoverlay : ∀ b, overlay b u = v ↔ u = v := by
    intro b
    by_cases hu : u.IsObject
    · constructor
      · rintro rfl
        exact absurd (isObject_overlay hu b) hv
      · rintro rfl
        exact absurd hu hv
    · rw [overlay_of_not_isObject hu]
  cases below with
  | none => simp
  | some b => simpa using hoverlay b

theorem mergeLayers_concat (layers : List Json) (layer : Json) :
    mergeLayers (layers ++ [layer]) = overlay (mergeLayers layers) layer := by
  simp [mergeLayers]

theorem getPath?_mergeLayers {layers : List Json} (hlayers : ∀ j ∈ layers, j.Keyed)
    (hpath : path ≠ []) (hv : ¬ v.IsObject) :
    (mergeLayers layers).getPath? path = some v ↔ Prevails layers path v := by
  induction layers using List.reverseRecOn with
  | nil =>
    obtain ⟨key, path, rfl⟩ := List.exists_cons_of_ne_nil hpath
    simp [mergeLayers, getPath?_cons, get?, Prevails]
  | append_singleton layers layer ih =>
    have hkeyed : layer.Keyed := hlayers layer (by simp)
    have ih := ih fun j hj => hlayers j (by simp [hj])
    rw [mergeLayers_concat, prevails_concat]
    by_cases hblocks : layer.Blocks path
    · simp [(hblocks.overlay hkeyed _).getPath?_eq_none, hblocks.getPath?_eq_none, Covers, hblocks]
    · rw [getPath?_overlay hkeyed hblocks]
      cases hu : layer.getPath? path with
      | none =>
        have hcovers : ¬ layer.Covers path := not_covers_iff.mpr ⟨hu, hblocks⟩
        have hmerge : Option.merge overlay ((mergeLayers layers).getPath? path) none =
            (mergeLayers layers).getPath? path := by
          cases (mergeLayers layers).getPath? path <;> rfl
        simp [hmerge, hcovers, ih]
      | some u =>
        have hcovers : layer.Covers path := .inl ⟨u, hu⟩
        simp [merge_eq_some_iff hv, hcovers]

/-- As long as the upper value has nothing at the path itself, it blocks the path unless all that it
has on the way there is objects. -/
theorem not_blocks_iff (hnone : j.getPath? path = none) :
    ¬ j.Blocks path ↔ ∀ ahead u, ahead <+: path → j.getPath? ahead = some u → u.IsObject := by
  constructor
  · intro h ahead u hprefix hu
    by_contra hobject
    refine h ⟨ahead, u, hprefix, ?_, hu, hobject⟩
    rintro rfl
    rw [hnone] at hu
    cases hu
  · rintro h ⟨ahead, u, hprefix, -, hu, hobject⟩
    exact hobject (h ahead u hprefix hu)

/-- At a path, merged layers have what is no object from the last layer that covers the path. Of two
values that are merged, both values at the path are merged, or the only one there is stays, but a
value of the lower one only if the upper one has nothing but objects on the way to it. -/
theorem merged_by_path :
    (∀ (layers : List Json) (path : List String) (v : Json), (∀ j ∈ layers, j.Keyed) → path ≠ [] →
      ¬ v.IsObject →
      ((mergeLayers layers).getPath? path = some v ↔
        ∃ below layer above, layers = below ++ layer :: above ∧ layer.getPath? path = some v ∧
          ∀ later ∈ above, ¬ later.Covers path)) ∧
    ∀ (base upper : Json) (path : List String), upper.Keyed →
      (∀ b u, base.getPath? path = some b → upper.getPath? path = some u →
        (overlay base upper).getPath? path = some (overlay b u)) ∧
      (∀ u, base.getPath? path = none → upper.getPath? path = some u →
        (overlay base upper).getPath? path = some u) ∧
      (upper.getPath? path = none →
        (∀ ahead u, ahead <+: path → upper.getPath? ahead = some u → u.IsObject) →
          (overlay base upper).getPath? path = base.getPath? path) ∧
      (upper.getPath? path = none →
        (¬ ∀ ahead u, ahead <+: path → upper.getPath? ahead = some u → u.IsObject) →
          (overlay base upper).getPath? path = none) := by
  refine ⟨fun layers path v hlayers hpath hv => getPath?_mergeLayers hlayers hpath hv, ?_⟩
  intro base upper path hupper
  have hopen : ∀ {u}, upper.getPath? path = some u → ¬ upper.Blocks path := by
    intro u hu hblocks
    rw [hblocks.getPath?_eq_none] at hu
    cases hu
  refine ⟨fun b u hb hu => ?_, fun u hb hu => ?_, fun hnone hobjects => ?_, fun hnone hobjects => ?_⟩
  · rw [getPath?_overlay hupper (hopen hu), hb, hu]
    rfl
  · rw [getPath?_overlay hupper (hopen hu), hb, hu]
    rfl
  · rw [getPath?_overlay hupper ((not_blocks_iff hnone).mpr hobjects), hnone]
    cases base.getPath? path <;> rfl
  · have hblocks : upper.Blocks path := not_not.mp (mt (not_blocks_iff hnone).mp hobjects)
    exact (hblocks.overlay hupper base).getPath?_eq_none

/-- A null takes the table of the defaults away, a table takes its place, and a number that of a table
in it. The last layer is about something else. -/
theorem merged_by_path_of_five :
    let cleared := object [("actor", null)]
    let refilled := object [("actor", object [("lock_timeout_ms", object [("secs", ofNat 1)])])]
    let fourth := object [("actor", object [("lock_timeout_ms", ofNat 2)])]
    let last := object [("caches", array [])]
    let layers := [Layer.builtin.value, cleared, refilled, fourth, last]
    (∀ j ∈ layers, j.Keyed) ∧
      (mergeLayers layers).getPath? ["actor", "lock_timeout_ms"] = some (ofNat 2) ∧
      (overlay Layer.builtin.value cleared).getPath? ["actor", "thread_name"] = none := by
  intro cleared refilled fourth last layers
  have hkeyed : ∀ j ∈ layers, j.Keyed := by
    have hwell : ∀ j ∈ [cleared, refilled, fourth, last], j.WellFormed := by
      simp [cleared, refilled, fourth, last, WellFormed, WellFormedFields, WellFormedItems, ofNat,
        ofInt, Number.InRange, Table.Ordered, Word.size63, Word.size64]
    intro j hj
    rcases List.mem_cons.mp hj with rfl | hj
    · exact Layer.keyed_builtin
    · exact (hwell j hj).keyed
  obtain ⟨hlayers, hvalues⟩ := merged_by_path
  refine ⟨hkeyed, ?_, ?_⟩
  · refine (hlayers layers _ _ hkeyed (by simp) ?_).mpr
      ⟨[Layer.builtin.value, cleared, refilled], fourth, [last], rfl, rfl, fun later hlater => ?_⟩
    · rintro ⟨fields, hfields⟩
      cases hfields
    · cases List.mem_singleton.mp hlater
      refine not_covers_iff.mpr ⟨rfl, fun hblocks => ?_⟩
      rcases blocks_cons.mp hblocks with hobject | ⟨v, hv, -⟩
      · exact hobject (isObject_object _)
      · cases hv
  · have hcleared : cleared.Keyed := hkeyed _ (by simp [layers])
    refine (hvalues Layer.builtin.value cleared _ hcleared).2.2.2 rfl fun hobjects => ?_
    obtain ⟨fields, hfields⟩ := hobjects ["actor"] null (by simp) rfl
    cases hfields

end HistoryKeeper.Json
