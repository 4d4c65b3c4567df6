import HistoryKeeper.Proofs.Config.Precedence

/-!
# Laws of merging

Merging objects is pointwise in their names (`get?_overlay`), and objects with ordered names are told
apart by what they have under them (`Keyed.ext`). So the laws of merging are proved name by name, by
induction on the uppermost value.

Layers may be merged in groups, unless a layer in between replaces an object by something else: then
what is below that layer comes back if the upper two are merged first (`overlay_assoc_iff`).
-/

namespace HistoryKeeper.Json

variable {a b c : Json}

theorem overlay_of_below_not_isObject (h : ¬ a.IsObject) (upper : Json) : overlay a upper = upper := by
  cases a with
  | object fields => exact absurd (isObject_object fields) h
  | _ => cases upper <;> rfl

theorem Keyed.ext (ha : a.Keyed) (hb : b.Keyed) (hao : a.IsObject) (hbo : b.IsObject)
    (h : ∀ key, a.get? key = b.get? key) : a = b := by
  obtain ⟨fields, rfl⟩ := hao
  obtain ⟨fields', rfl⟩ := hbo
  cases ha with
  | other hno => exact absurd rfl (hno fields)
  | object hordered _ =>
    cases hb with
    | other hno => exact absurd rfl (hno fields')
    | object hordered' _ => rw [hordered.ext hordered' h]

theorem overlay_self (ha : a.Keyed) : overlay a a = a := by
  induction ha with
  | other h => exact overlay_of_not_object h
  | @object fields hordered inner ih =>
    have hkeyed : (object fields).Keyed := .object hordered inner
    have hobject := isObject_object fields
    refine (hkeyed.overlay hkeyed).ext hkeyed (isObject_overlay hobject _) hobject fun key => ?_
    rw [get?_overlay hkeyed hobject]
    cases hv : (object fields).get? key with
    | none => rfl
    | some v => exact congrArg some (ih _ (Table.mem_of_get? hv))

/-- What `a` has below is covered by what `c` has on top, at each path where `b` has something other
than an object in between. -/
def Regroups (a b c : Json) : Prop :=
  ∀ path x y z, a.getPath? path = some x → b.getPath? path = some y → c.getPath? path = some z →
    x.IsObject → z.IsObject → ¬ y.IsObject → overlay x z = z

theorem Regroups.inner {x y z : Json} {key : String} (h : Regroups a b c) (ha : a.get? key = some x)
    (hb : b.get? key = some y) (hc : c.get? key = some z) : Regroups x y z := by
  intro path x' y' z' hx hy hz
  refine h (key :: path) x' y' z' ?_ ?_ ?_
  · rw [getPath?_cons, ha]
    exact hx
  · rw [getPath?_cons, hb]
    exact hy
  · rw [getPath?_cons, hc]
    exact hz

theorem overlay_assoc_of_regroups (ha : a.Keyed) (hb : b.Keyed) (hc : c.Keyed)
    (h : Regroups a b c) : overlay (overlay a b) c = overlay a (overlay b c) := by
  induction hc generalizing a b with
  | other hno =>
    rw [overlay_of_not_object hno, overlay_of_not_object hno, overlay_of_not_object hno]
  | @object fields hordered inner ih =>
    have hkeyed : (object fields).Keyed := .object hordered inner
    have hobject := isObject_object fields
    have hupper := isObject_overlay hobject b
    by_cases hao : a.IsObject
    · by_cases hbo : b.IsObject
      · have hlower := isObject_overlay hbo a
        refine ((ha.overlay hb).overlay hkeyed).ext (ha.overlay (hb.overlay hkeyed))
          (isObject_overlay hobject _) (isObject_overlay hupper _) fun key => ?_
        rw [get?_overlay hkeyed hobject, get?_overlay hb hbo,
          get?_overlay (hb.overlay hkeyed) hupper, get?_overlay hkeyed hobject]
        cases hx : a.get? key with
        | none => cases b.get? key <;> cases (object fields).get? key <;> rfl
        | some x =>
          cases hy : b.get? key with
          | none => cases (object fields).get? key <;> rfl
          | some y =>
            cases hz : (object fields).get? key with
            | none => rfl
            | some z =>
              have hinner := ih _ (Table.mem_of_get? hz) (ha.of_get? hx) (hb.of_get? hy)
                (h.inner hx hy hz)
              exact congrArg some hinner
      · -- `b` hides `a` from `c`, but is itself hidden by it
        rw [overlay_of_not_isObject hbo, overlay_of_below_not_isObject hbo]
        exact (h [] a b _ rfl rfl rfl hao hobject hbo).symm
    · rw [overlay_of_below_not_isObject hao, overlay_of_below_not_isObject hao]

/-- When it does not matter which two of three layers are merged first. -/
theorem overlay_assoc_iff (ha : a.Keyed) (hb : b.Keyed) (hc : c.Keyed) :
    overlay (overlay a b) c = overlay a (overlay b c) ↔ Regroups a b c := by
  refine ⟨fun h path x y z hx hy hz hxo hzo hyo => ?_, overlay_assoc_of_regroups ha hb hc⟩
  have hfree : ∀ {j v : Json}, j.getPath? path = some v → ¬ j.Blocks path := by
    intro j v hv hblocks
    rw [hblocks.getPath?_eq_none] at hv
    cases hv
  have hlower : (overlay a b).getPath? path = some y := by
    rw [getPath?_overlay hb (hfree hy), hx, hy]
    exact congrArg some (overlay_of_not_isObject hyo x)
  have hupper : (overlay b c).getPath? path = some z := by
    rw [getPath?_overlay hc (hfree hz), hy, hz]
    exact congrArg some (overlay_of_below_not_isObject hyo z)
  have hleft : (overlay (overlay a b) c).getPath? path = some z := by
    rw [getPath?_overlay hc (hfree hz), hlower, hz]
    exact congrArg some (overlay_of_below_not_isObject hyo z)
  have hright : (overlay a (overlay b c)).getPath? path = some (overlay x z) := by
    rw [getPath?_overlay (hb.overlay hc) (hfree hupper), hx, hupper]
    rfl
  rw [h, hright] at hleft
  exact Option.some_inj.mp hleft

/-- Over a null, a table starts anew; on its own it adds to what is there. -/
example :
    let table := object [("lock_timeout_ms", ofNat 1)]
    overlay (overlay table null) (object []) = object [] ∧
      overlay table (overlay null (object [])) = table :=
  ⟨rfl, rfl⟩

/-- Merging a value with itself or twice with the same one changes nothing, and layers may be merged
in groups if no layer in between replaces an object under one by something else. -/
theorem overlay_laws (ha : a.Keyed) (hb : b.Keyed) (hc : c.Keyed) :
    overlay a a = a ∧ overlay (overlay a b) b = overlay a b ∧
      ((∀ path x z, a.getPath? path = some x → c.getPath? path = some z → x.IsObject → z.IsObject →
          ∀ y, b.getPath? path = some y → y.IsObject) →
        overlay (overlay a b) c = overlay a (overlay b c)) := by
  refine ⟨overlay_self ha, ?_, fun h => ?_⟩
  · -- an object of `b` has an object of `b` in between
    have hregroups : Regroups a b b := by
      intro path x y z _ hy hz _ hzo hyo
      rw [hy] at hz
      cases hz
      exact absurd hzo hyo
    rw [overlay_assoc_of_regroups ha hb hb hregroups, overlay_self hb]
  · refine overlay_assoc_of_regroups ha hb hc fun path x y z hx hy hz hxo hzo hyo => ?_
    exact absurd (h path x z hx hz hxo hzo y hy) hyo

/-- Two layers for one table, with one in between that does not have it. -/
theorem overlay_laws_of_three :
    let a := object [("actor", object [("lock_timeout_ms", ofNat 1)])]
    let b := object [("caches", array [])]
    let c := object [("actor", object [("thread_name", string "keeper")])]
    a.Keyed ∧ b.Keyed ∧ c.Keyed ∧
      (∀ path x z, a.getPath? path = some x → c.getPath? path = some z → x.IsObject → z.IsObject →
        ∀ y, b.getPath? path = some y → y.IsObject) ∧
      overlay a a = a ∧ overlay (overlay a b) b = overlay a b ∧
      overlay (overlay a b) c = overlay a (overlay b c) := by
  intro a b c
  have hwell : a.WellFormed ∧ b.WellFormed ∧ c.WellFormed := by
    simp [a, b, c, WellFormed, WellFormedFields, WellFormedItems, ofNat, ofInt, Number.InRange,
      Table.Ordered, Word.size63, Word.size64]
  obtain ⟨ha, hb, hc⟩ := hwell
  have hpaths : ∀ path x z, a.getPath? path = some x → c.getPath? path = some z → x.IsObject →
      z.IsObject → ∀ y, b.getPath? path = some y → y.IsObject := by
    intro path x z _ hz _ _ y hy
    cases path with
    | nil =>
      cases hy
      exact isObject_object _
    | cons key path =>
      obtain ⟨w, hw, -⟩ := Option.bind_eq_some_iff.mp hz
      obtain ⟨w', hw', -⟩ := Option.bind_eq_some_iff.mp hy
      have hmem : (key, w) ∈ [("actor", object [("thread_name", string "keeper")])] :=
        Table.mem_of_get? hw
      cases List.mem_singleton.mp hmem
      cases hw'
  obtain ⟨hself, htwice, hgroups⟩ := overlay_laws ha.keyed hb.keyed hc.keyed
  exact ⟨ha.keyed, hb.keyed, hc.keyed, hpaths, hself, htwice, hgroups hpaths⟩

end HistoryKeeper.Json
