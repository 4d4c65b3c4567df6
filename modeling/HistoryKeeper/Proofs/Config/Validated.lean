import Mathlib.Data.List.TakeWhile
import HistoryKeeper.Config.Effective
import HistoryKeeper.Proofs.Data.Table
import HistoryKeeper.Proofs.Json.RoundTrip

/-!
# Settings of a built configuration

`Config.validate` looks its values up by name, `Settings.ofJson` decodes the same table field by
field. On an object whose names are in order the two see the same values (`ofJson_object`), and
merging keeps objects so, whatever kind of value a layer puts over another (`Keyed.overlay`). So
what validation lets through is within bounds (`settings_validated`).

An `actor` value that is an array is decoded by position but has no names to look up: nothing of it
is validated (`settings_unvalidated`).
-/

namespace HistoryKeeper

theorem ok_of_bind {ε α β : Type} {x : Except ε α} {f : α → Except ε β} {b : β}
    (h : (x >>= f) = .ok b) : ∃ a, x = .ok a ∧ f a = .ok b := by
  cases x with
  | error e => cases h
  | ok a => exact ⟨a, rfl, h⟩

namespace Json

/-- Wherever merging may get to, the fields of an object are in order. Arrays are replaced as they
are, so nothing is said about what they hold. -/
inductive Keyed : Json → Prop where
  | object {fields : List (String × Json)} (ordered : Table.Ordered fields)
      (inner : ∀ x ∈ fields, Keyed x.2) : Keyed (.object fields)
  | other {j : Json} (h : ∀ fields, j ≠ .object fields) : Keyed j

theorem WellFormed.keyed : {j : Json} → j.WellFormed → j.Keyed
  | .object _, h =>
    .object h.1 fun x hx =>
      have hsize := List.sizeOf_lt_of_mem hx
      have : sizeOf x.2 < sizeOf x := by cases x; simp
      (wellFormedFields_iff.mp h.2 x hx).keyed
  | .null, _ | .bool _, _ | .number _, _ | .string _, _ | .array _, _ => .other (by simp)
termination_by j => sizeOf j
decreasing_by simp; omega

theorem Keyed.of_get? {j v : Json} {key : String} (h : j.Keyed) (hv : j.get? key = some v) :
    v.Keyed := by
  cases h with
  | object _ inner => exact inner _ (Table.mem_of_get? hv)
  | other h => cases j <;> first | cases hv | exact absurd rfl (h _)

theorem overlay_of_not_object {base upper : Json} (h : ∀ fields, upper ≠ .object fields) :
    overlay base upper = upper := by
  cases upper <;> first | exact absurd rfl (h _) | cases base <;> rfl

theorem keyed_overlayFields {upper : List (String × Json)}
    (hupper : ∀ x ∈ upper, x.2.Keyed ∧ ∀ base : Json, base.Keyed → (overlay base x.2).Keyed)
    {fields : List (String × Json)} (hfields : (object fields).Keyed) :
    (object (overlayFields fields upper)).Keyed := by
  induction upper generalizing fields with
  | nil => exact hfields
  | cons x upper ih =>
    obtain ⟨key, value⟩ := x
    obtain ⟨hvalue, hmerged⟩ := hupper _ (List.mem_cons_self ..)
    refine ih (fun x hx => hupper x (List.mem_cons_of_mem _ hx)) ?_
    cases hfields with
    | other h => exact absurd rfl (h fields)
    | object ordered inner =>
      refine .object (ordered.insert key _) fun x hx => ?_
      rcases Table.mem_insert hx with rfl | hx
      · dsimp only
        split
        · exact hmerged _ (inner _ (Table.mem_of_get? ‹_›))
        · exact hvalue
      · exact inner x hx

theorem Keyed.overlay {base upper : Json} (hbase : base.Keyed) (hupper : upper.Keyed) :
    (overlay base upper).Keyed := by
  induction hupper generalizing base with
  | other h => rw [overlay_of_not_object h]; exact .other h
  | object ordered inner ih =>
    have hupper := Keyed.object ordered inner
    cases base with
    | object fields =>
      exact keyed_overlayFields (fun x hx => ⟨inner x hx, fun _ hb => ih x hx hb⟩) hbase
    | _ => exact hupper

theorem keyed_mergeLayers {layers : List Json} (h : ∀ j ∈ layers, j.Keyed) :
    (mergeLayers layers).Keyed := by
  suffices ∀ base : Json, base.Keyed → (layers.foldl Json.overlay base).Keyed from
    this null (.other (by simp))
  induction layers with
  | nil => exact fun _ hb => hb
  | cons j layers ih =>
    intro base hb
    exact ih (fun j hj => h j (List.mem_cons_of_mem _ hj)) _ (hb.overlay (h j (List.mem_cons_self ..)))

end Json

open Json (Keyed)

theorem Table.ordered_ofList {κ α : Type} [LT κ] [DecidableEq κ] [DecidableLT κ]
    [IsStrictTotalOrder κ (· < ·)] (entries : List (κ × α)) : (ofList entries).Ordered := by
  suffices ∀ t : Table κ α, t.Ordered →
      (entries.foldl (fun t x => t.insert x.1 x.2) t).Ordered from this [] .nil
  induction entries with
  | nil => exact fun _ ht => ht
  | cons x entries ih => exact fun t ht => ih _ (ht.insert ..)

theorem Table.mem_of_mem_ofList {κ α : Type} [LT κ] [DecidableEq κ] [DecidableLT κ]
    {entries : List (κ × α)} {x : κ × α} (h : x ∈ ofList entries) : x ∈ entries := by
  suffices ∀ t : Table κ α, x ∈ entries.foldl (fun t x => t.insert x.1 x.2) t →
      x ∈ t ∨ x ∈ entries from (this [] h).resolve_left List.not_mem_nil
  clear h
  induction entries with
  | nil => exact fun _ hx => .inl hx
  | cons y entries ih =>
    intro t hx
    rcases ih _ hx with hx | hx
    · rcases Table.mem_insert hx with rfl | hx
      · exact .inr (List.mem_cons_self ..)
      · exact .inl hx
    · exact .inr (List.mem_cons_of_mem _ hx)

namespace Toml

mutual

theorem Value.keyed_toJson : (v : Value) → v.toJson.Keyed
  | .table entries =>
    .object (Table.ordered_ofList _) fun x hx => keyed_entriesToJson entries x (Table.mem_of_mem_ofList hx)
  | .float x => by
    refine .other ?_
    unfold Value.toJson Json.ofBinary64
    split <;> simp
  | .string _ | .integer _ | .boolean _ | .datetime _ | .array _ =>
    .other (by simp [Value.toJson, Json.ofInt])

theorem keyed_entriesToJson : (entries : List (String × Value)) →
    ∀ x ∈ entriesToJson entries, x.2.Keyed
  | [], _, hx => nomatch hx
  | (_, v) :: entries, x, hx => by
    rcases List.mem_cons.mp hx with rfl | hx
    · exact v.keyed_toJson
    · exact keyed_entriesToJson entries x hx

end

end Toml

namespace Layer

theorem keyed_unlockInterval (millis : Nat) : (unlockInterval millis).Keyed := by
  refine .object (List.pairwise_singleton _ _) fun x hx => ?_
  rw [List.mem_singleton.mp hx]
  refine .object (List.pairwise_singleton _ _) fun x hx => ?_
  rw [List.mem_singleton.mp hx]
  exact .other (by simp [Json.ofNat, Json.ofInt])

theorem keyed_builtin : Layer.builtin.value.Keyed := by
  refine .object (List.pairwise_singleton _ _) fun x hx => ?_
  rw [List.mem_singleton.mp hx]
  refine .object (by simp only [Table.Ordered, List.pairwise_cons]; decide +kernel) fun x hx => ?_
  simp only [List.mem_cons, List.not_mem_nil, or_false] at hx
  rcases hx with rfl | rfl | rfl | rfl <;> exact .other (by simp [Json.ofNat, Json.ofInt])

theorem keyed_ofFile {path : Path} {d : Disk} {l : Layer} (h : ofFile path d = .ok l) :
    l.value.Keyed := by
  unfold ofFile ofContent at h
  repeat' split at h
  all_goals cases h
  exact Toml.Value.keyed_toJson _

theorem keyed_ofVariable {raw : String} {l : Layer} (h : ofVariable raw = .ok l) :
    l.value.Keyed := by
  unfold ofVariable at h
  split at h
  · cases h
  · cases h; exact keyed_unlockInterval _

end Layer

namespace Config

variable {inputs : ConfigInputs} {d : Disk}

theorem of_layers {ls : List Layer} (h : layers inputs d = .ok ls) {l : Layer} (hl : l ∈ ls) :
    l = .builtin ∨ (∃ path, Layer.ofFile path d = .ok l) ∨ (∃ raw, Layer.ofVariable raw = .ok l) ∨
      ∃ j ∈ inputs.overrides, l = .ofOverrides j := by
  have hcommand : l ∈ inputs.overrides.toList.map Layer.ofOverrides →
      ∃ j ∈ inputs.overrides, l = .ofOverrides j := by
    intro hl
    obtain ⟨j, hj, rfl⟩ := List.mem_map.mp hl
    exact ⟨j, Option.mem_toList.mp hj, rfl⟩
  -- the file and the variable may each be there or not
  unfold layers at h
  dsimp only at h
  split at h
  · obtain ⟨file, hfile, h⟩ := ok_of_bind h
    rw [pure_bind] at h
    split at h
    · obtain ⟨environment, henvironment, h⟩ := ok_of_bind h
      cases h
      simp only [List.append_assoc, List.mem_append, List.mem_singleton] at hl
      rcases hl with rfl | rfl | rfl | hl
      exacts [.inl rfl, .inr (.inl ⟨_, hfile⟩), .inr (.inr (.inl ⟨_, henvironment⟩)),
        .inr (.inr (.inr (hcommand hl)))]
    · cases h
      simp only [List.append_assoc, List.nil_append, List.mem_append, List.mem_singleton] at hl
      rcases hl with rfl | rfl | hl
      exacts [.inl rfl, .inr (.inl ⟨_, hfile⟩), .inr (.inr (.inr (hcommand hl)))]
  · rw [pure_bind] at h
    split at h
    · obtain ⟨environment, henvironment, h⟩ := ok_of_bind h
      cases h
      simp only [List.append_assoc, List.nil_append, List.mem_append, List.mem_singleton] at hl
      rcases hl with rfl | rfl | hl
      exacts [.inl rfl, .inr (.inr (.inl ⟨_, henvironment⟩)), .inr (.inr (.inr (hcommand hl)))]
    · cases h
      simp only [List.append_assoc, List.nil_append, List.mem_append, List.mem_singleton] at hl
      rcases hl with rfl | hl
      exacts [.inl rfl, .inr (.inr (.inr (hcommand hl)))]

theorem keyed_layers {ls : List Layer} (hoverrides : ∀ j ∈ inputs.overrides, j.WellFormed)
    (h : layers inputs d = .ok ls) : ∀ l ∈ ls, l.value.Keyed := by
  intro l hl
  rcases of_layers h hl with rfl | ⟨path, hfile⟩ | ⟨raw, hvariable⟩ | ⟨j, hj, rfl⟩
  exacts [Layer.keyed_builtin, Layer.keyed_ofFile hfile, Layer.keyed_ofVariable hvariable,
    (hoverrides j hj).keyed]

/-- What a configuration is built to, and that validation let it through. -/
theorem of_build {c : Config} (h : build inputs d = .ok c) :
    ∃ ls, layers inputs d = .ok ls ∧ c.value = Json.mergeLayers (ls.map (·.value)) ∧
      validate c.value = .ok () := by
  obtain ⟨ls, hls, h⟩ := ok_of_bind h
  obtain ⟨⟨⟩, hvalid, h⟩ := ok_of_bind h
  cases h
  exact ⟨ls, hls, rfl, hvalid⟩

theorem keyed_build {c : Config} (hoverrides : ∀ j ∈ inputs.overrides, j.WellFormed)
    (h : build inputs d = .ok c) : c.value.Keyed := by
  obtain ⟨ls, hls, hvalue, -⟩ := of_build h
  rw [hvalue]
  refine Json.keyed_mergeLayers fun j hj => ?_
  obtain ⟨l, hl, rfl⟩ := List.mem_map.mp hj
  exact keyed_layers hoverrides hls l hl

/-! ### What validation sees -/

/-- Refuse a value that is there and bad. -/
def refuseIf {α : Type} (value : Option α) (bad : α → Prop) [DecidablePred bad] (e : ConfigError) :
    Except ConfigError Unit :=
  match value with
  | some a => if bad a then .error e else .ok ()
  | none => .ok ()

theorem not_of_refuseIf {α : Type} {value : Option α} {bad : α → Prop} [DecidablePred bad]
    {e : ConfigError} (h : refuseIf value bad e = .ok ()) : ∀ a ∈ value, ¬ bad a := by
  rintro a rfl hbad
  rw [refuseIf, if_pos hbad] at h
  cases h

theorem validate_eq (value : Json) :
    validate value = (do
      let setting (name : String) := (value.get? "actor").bind (·.get? name)
      refuseIf ((setting "unlock_interval_ms").bind Json.natural?) (longestUnlockInterval < ·)
        .unlockIntervalTooLong
      refuseIf ((setting "lock_timeout_ms").bind Json.natural?) (· = 0) .lockTimeoutZero
      refuseIf ((setting "thread_name").bind Json.string?) (Text.isBlankText · = true)
        .threadNameBlank) := by
  unfold validate
  dsimp only
  generalize ((value.get? "actor").bind (·.get? "unlock_interval_ms")).bind Json.natural? = interval
  generalize ((value.get? "actor").bind (·.get? "lock_timeout_ms")).bind Json.natural? = timeout
  generalize ((value.get? "actor").bind (·.get? "thread_name")).bind Json.string? = name
  cases interval <;> cases timeout <;> cases name <;> dsimp only [refuseIf] <;>
    (try split_ifs) <;> rfl

/-- The bounds on the settings that an `actor` object has under their names and with their types. -/
structure Bounded (actor : Json) : Prop where
  unlockInterval : ∀ j ∈ actor.get? "unlock_interval_ms", ∀ millis ∈ j.natural?,
    millis ≤ longestUnlockInterval
  lockTimeout : ∀ j ∈ actor.get? "lock_timeout_ms", ∀ millis ∈ j.natural?, millis ≠ 0
  threadName : ∀ j ∈ actor.get? "thread_name", ∀ name ∈ j.string?, ¬ Text.isBlankText name = true

theorem bounded_of_validate {value actor : Json} (h : validate value = .ok ())
    (hactor : value.get? "actor" = some actor) : Bounded actor := by
  rw [validate_eq, hactor] at h
  obtain ⟨⟨⟩, hinterval, h⟩ := ok_of_bind h
  obtain ⟨⟨⟩, htimeout, hname⟩ := ok_of_bind h
  constructor
  · intro j hj millis hmillis
    exact not_lt.mp (not_of_refuseIf hinterval millis (Option.mem_bind_iff.mpr ⟨j, hj, hmillis⟩))
  · intro j hj millis hmillis
    exact not_of_refuseIf htimeout millis (Option.mem_bind_iff.mpr ⟨j, hj, hmillis⟩)
  · intro j hj name hname'
    exact not_of_refuseIf hname name (Option.mem_bind_iff.mpr ⟨j, hj, hname'⟩)

end Config

namespace Settings

theorem of_readField {seen after : Partial} {name : String} {j : Json}
    (h : readField seen name j = .ok after) :
    (name = "unlock_interval_ms" ∧
      ∃ v, natural j = .ok v ∧ after = { seen with unlockInterval := some v }) ∨
    (name = "lock_timeout_ms" ∧
      ∃ v, natural j = .ok v ∧ after = { seen with lockTimeout := some v }) ∨
    (name = "thread_name" ∧ ∃ v, text j = .ok v ∧ after = { seen with threadName := some v }) ∨
    (name = "pending_write_lookup" ∧
      ∃ v, boolean j = .ok v ∧ after = { seen with pendingLookup := some v }) ∨
    after = seen := by
  unfold readField at h
  split_ifs at h with h1 h2 h3 h4
  · obtain ⟨v, hv, h⟩ := ok_of_bind h
    cases h; exact .inl ⟨h1, v, hv, rfl⟩
  · obtain ⟨v, hv, h⟩ := ok_of_bind h
    cases h; exact .inr (.inl ⟨h2, v, hv, rfl⟩)
  · obtain ⟨v, hv, h⟩ := ok_of_bind h
    cases h; exact .inr (.inr (.inl ⟨h3, v, hv, rfl⟩))
  · obtain ⟨v, hv, h⟩ := ok_of_bind h
    cases h; exact .inr (.inr (.inr (.inl ⟨h4, v, hv, rfl⟩)))
  · cases h; exact .inr (.inr (.inr (.inr rfl)))

/-- The fields of a name, decoded by `read`, are all that fills a slot. -/
def Fills {α : Type} (slot : Partial → Option α) (name : String) (read : Json → Except Json.Fault α) :
    Prop :=
  ∀ {seen name' j after}, readField seen name' j = .ok after → ∀ {v}, slot after = some v →
    slot seen = some v ∨ name' = name ∧ read j = .ok v

theorem fills_unlockInterval : Fills Partial.unlockInterval "unlock_interval_ms" natural := by
  intro seen name' j after h v hv
  rcases of_readField h with ⟨rfl, u, hu, rfl⟩ | ⟨rfl, u, hu, rfl⟩ | ⟨rfl, u, hu, rfl⟩ |
    ⟨rfl, u, hu, rfl⟩ | rfl
  · cases hv; exact .inr ⟨rfl, hu⟩
  all_goals exact .inl hv

theorem fills_lockTimeout : Fills Partial.lockTimeout "lock_timeout_ms" natural := by
  intro seen name' j after h v hv
  rcases of_readField h with ⟨rfl, u, hu, rfl⟩ | ⟨rfl, u, hu, rfl⟩ | ⟨rfl, u, hu, rfl⟩ |
    ⟨rfl, u, hu, rfl⟩ | rfl
  · exact .inl hv
  · cases hv; exact .inr ⟨rfl, hu⟩
  all_goals exact .inl hv

theorem fills_threadName : Fills Partial.threadName "thread_name" text := by
  intro seen name' j after h v hv
  rcases of_readField h with ⟨rfl, u, hu, rfl⟩ | ⟨rfl, u, hu, rfl⟩ | ⟨rfl, u, hu, rfl⟩ |
    ⟨rfl, u, hu, rfl⟩ | rfl
  · exact .inl hv
  · exact .inl hv
  · cases hv; exact .inr ⟨rfl, hu⟩
  all_goals exact .inl hv

section
variable {α : Type} {slot : Partial → Option α} {name : String}
  {read : Json → Except Json.Fault α} {fields : List (String × Json)} {seen after : Partial} {v : α}

theorem Fills.mem (hfills : Fills slot name read)
    (h : fields.foldlM (fun seen (name, value) => readField seen name value) seen = .ok after)
    (hv : slot after = some v) :
    slot seen = some v ∨ ∃ j, (name, j) ∈ fields ∧ read j = .ok v := by
  induction fields generalizing seen with
  | nil => cases h; exact .inl hv
  | cons x fields ih =>
    obtain ⟨name', j⟩ := x
    obtain ⟨next, hnext, h⟩ := ok_of_bind h
    rcases ih h with hv | ⟨j', hj', hread⟩
    · rcases hfills hnext hv with hv | ⟨rfl, hread⟩
      · exact .inl hv
      · exact .inr ⟨j, List.mem_cons_self .., hread⟩
    · exact .inr ⟨j', List.mem_cons_of_mem _ hj', hread⟩

/-- With ordered names, the field that filled a slot is the one that looking up its name finds. -/
theorem Fills.get? (hfills : Fills slot name read) (hempty : slot {} = none)
    (ordered : Table.Ordered fields)
    (h : fields.foldlM (fun seen (name, value) => readField seen name value) {} = .ok after)
    (hv : required name (slot after) = .ok v) :
    ∃ j, Table.get? fields name = some j ∧ read j = .ok v := by
  have hslot : slot after = some v := by
    unfold required at hv
    split at hv
    · cases hv; assumption
    · cases hv
  rcases hfills.mem h hslot with hv | ⟨j, hj, hread⟩
  · rw [hempty] at hv; cases hv
  · exact ⟨j, ordered.get?_of_mem hj, hread⟩

end

/-- The settings of an object with ordered names are those that looking up their names finds. -/
theorem of_ofJson_object {fields : List (String × Json)} (ordered : Table.Ordered fields)
    {s : Settings} (h : ofJson (.object fields) = .ok s) :
    ∃ unlock lock name lookup, s = ofParts unlock lock name lookup ∧
      (∃ j, Table.get? fields "unlock_interval_ms" = some j ∧ natural j = .ok unlock) ∧
      (∃ j, Table.get? fields "lock_timeout_ms" = some j ∧ natural j = .ok lock) ∧
      ∃ j, Table.get? fields "thread_name" = some j ∧ text j = .ok name := by
  obtain ⟨seen, hseen, h⟩ := ok_of_bind h
  obtain ⟨unlock, hunlock, h⟩ := ok_of_bind h
  obtain ⟨lock, hlock, h⟩ := ok_of_bind h
  obtain ⟨name, hname, h⟩ := ok_of_bind h
  obtain ⟨lookup, -, h⟩ := ok_of_bind h
  cases h
  exact ⟨unlock, lock, name, lookup, rfl, fills_unlockInterval.get? rfl ordered hseen hunlock,
    fills_lockTimeout.get? rfl ordered hseen hlock, fills_threadName.get? rfl ordered hseen hname⟩

theorem natural?_of_natural {j : Json} {n : UInt64} (h : natural j = .ok n) :
    j.natural? = some n.toNat := by
  unfold natural at h
  split at h
  · rename_i m
    split_ifs at h with hm
    cases h
    simp only [Bool.and_eq_true, decide_eq_true_eq, Word.size64] at hm
    have hlt : m.toNat < UInt64.size := by have : UInt64.size = 18446744073709551616 := rfl; omega
    rw [Json.natural?, if_pos hm.1]
    simp [Nat.mod_eq_of_lt hlt]
  · cases h

theorem natural_ofNat (n : UInt64) : natural (.ofNat n.toNat) = .ok n := by
  have hlt := n.toNat_lt
  have hrange : (0 ≤ (n.toNat : Int) && (n.toNat : Int) < Word.size64) = true := by
    simp only [Bool.and_eq_true, decide_eq_true_eq, Word.size64]; omega
  rw [Json.ofNat, Json.ofInt, natural, if_pos hrange]
  simp

theorem ofJson_four (a b c d : Json) :
    ofJson (.array [a, b, c, d]) = (do
      let unlock ← natural a
      let lock ← natural b
      let name ← text c
      let lookup ← boolean d
      return ofParts unlock lock name lookup) := rfl

theorem string?_of_text {j : Json} {s : String} (h : text j = .ok s) : j.string? = some s := by
  cases j <;> cases h
  rfl

theorem exists_of_ofJson {j : Json} {s : Settings} (h : ofJson j = .ok s) :
    (∃ fields, j = .object fields) ∨ ∃ items, j = .array items := by
  cases j with
  | object fields => exact .inl ⟨fields, rfl⟩
  | array items => exact .inr ⟨items, rfl⟩
  | _ => cases h

end Settings

/-! ### The two together -/

theorem Text.isBlankText_of_trim {s : String} (h : Text.trim s = "") :
    Text.isBlankText s = true := by
  have htrim : Text.trimChars s.toList = [] := by
    simpa [Text.trim] using congrArg String.toList h
  have hdrop : ∀ c ∈ s.toList.dropWhile Text.isBlank, Text.isBlank c = true := by
    simpa [Text.trimChars, List.dropWhile_eq_nil_iff] using htrim
  refine List.all_eq_true.mpr fun c hc => ?_
  rw [← List.takeWhile_append_dropWhile (p := Text.isBlank) (l := s.toList)] at hc
  rcases List.mem_append.mp hc with hc | hc
  exacts [List.mem_takeWhile_imp hc, hdrop c hc]

namespace Config

variable {inputs : ConfigInputs} {d : Disk} {c : Config} {s : Settings}

/-- The settings of a configuration that was built are within the bounds, unless the layers have put
an array in the place of the `actor` object. -/
theorem settings_validated (hoverrides : ∀ j ∈ inputs.overrides, j.WellFormed)
    (hbuild : build inputs d = .ok c) (hsettings : c.settings = .ok s)
    (hactor : ∀ items, c.value.get? "actor" ≠ some (.array items)) :
    s.unlockInterval.nanos ≤ (Duration.ofMillis 3600000).nanos ∧ 0 < s.lockTimeout.nanos ∧
      Text.trim s.threadName ≠ "" := by
  obtain ⟨ls, -, -, hvalid⟩ := of_build hbuild
  have hread : Settings.ofJson ((c.value.get? "actor").getD .null) = .ok s := by
    unfold settings at hsettings
    split at hsettings <;> cases hsettings
    assumption
  obtain ⟨fields, hfields⟩ : ∃ fields, c.value.get? "actor" = some (.object fields) := by
    cases hget : c.value.get? "actor" with
    | none => rw [hget] at hread; cases hread
    | some actor =>
      rw [hget] at hread
      rcases Settings.exists_of_ofJson hread with ⟨fields, rfl⟩ | ⟨items, rfl⟩
      exacts [⟨fields, rfl⟩, absurd hget (hactor items)]
  have ordered : Table.Ordered fields := by
    cases (keyed_build hoverrides hbuild).of_get? hfields with
    | object ordered _ => exact ordered
    | other h => exact absurd rfl (h fields)
  rw [hfields] at hread
  obtain ⟨unlock, lock, name, lookup, rfl, ⟨j₁, hj₁, hunlock⟩, ⟨j₂, hj₂, hlock⟩, ⟨j₃, hj₃, hname⟩⟩ :=
    Settings.of_ofJson_object ordered hread
  have hbounded := bounded_of_validate hvalid hfields
  have hinterval := hbounded.unlockInterval j₁ hj₁ _ (Settings.natural?_of_natural hunlock)
  have htimeout := hbounded.lockTimeout j₂ hj₂ _ (Settings.natural?_of_natural hlock)
  refine ⟨?_, ?_, fun htrim => ?_⟩
  · exact Nat.mul_le_mul_right _ hinterval
  · exact Nat.mul_pos (Nat.pos_of_ne_zero htimeout) (by decide)
  · exact hbounded.threadName j₃ hj₃ _ (Settings.string?_of_text hname)
      (Text.isBlankText_of_trim htrim)

/-- With nothing configured but an interval in the environment. -/
theorem settings_validated_of_variable :
    ∃ s : Settings, s.unlockInterval = .ofMillis 75 ∧
      s.unlockInterval.nanos ≤ (Duration.ofMillis 3600000).nanos ∧ 0 < s.lockTimeout.nanos ∧
      Text.trim s.threadName ≠ "" :=
  ⟨{ Settings.standard with unlockInterval := .ofMillis 75 }, rfl,
    @settings_validated { file := none, environment := some "75", overrides := none }
      (.empty [] 0) _ _ (by simp) rfl rfl (by nofun)⟩

/-- The layer that puts an array of four settings in the place of the `actor` object. -/
def positional (unlock lock : UInt64) (name : String) (lookup : Bool) : Json :=
  .object [("actor", .array [.ofNat unlock.toNat, .ofNat lock.toNat, .string name, .bool lookup])]

theorem build_positional (unlock lock : UInt64) (name : String) (lookup : Bool) (d : Disk) :
    ∃ c, build { file := none, environment := none
                 overrides := some (positional unlock lock name lookup) } d = .ok c ∧
      c.value.get? "actor" = some (.array [.ofNat unlock.toNat, .ofNat lock.toNat, .string name,
        .bool lookup]) :=
  ⟨_, rfl, rfl⟩

/-- Four settings by position pass as they are, whatever they are. -/
theorem settings_unvalidated (unlock lock : UInt64) (name : String) (lookup : Bool) (d : Disk) :
    ∃ c, build { file := none, environment := none,
                 overrides := some (positional unlock lock name lookup) } d = .ok c ∧
      c.settings = .ok (.ofParts unlock lock name lookup) := by
  obtain ⟨c, hbuild, hactor⟩ := build_positional unlock lock name lookup d
  refine ⟨c, hbuild, ?_⟩
  unfold settings
  rw [hactor, Option.getD_some, Settings.ofJson_four, Settings.natural_ofNat,
    Settings.natural_ofNat]
  rfl

theorem unvalidated_array : ¬ ∀ (inputs : ConfigInputs) (d : Disk) (c : Config) (s : Settings),
    (∀ j ∈ inputs.overrides, j.WellFormed) → build inputs d = .ok c → c.settings = .ok s →
      s.unlockInterval.nanos ≤ (Duration.ofMillis 3600000).nanos ∧ 0 < s.lockTimeout.nanos ∧
        Text.trim s.threadName ≠ "" := by
  intro h
  obtain ⟨c, hbuild, hsettings⟩ := settings_unvalidated 7200000 0 "" true (.empty [] 0)
  have hwell : (positional 7200000 0 "" true).WellFormed := by
    simp [positional, Json.WellFormed, Json.WellFormedFields, Json.WellFormedItems, Json.ofNat,
      Json.ofInt, Json.Number.InRange, Table.Ordered, Word.size63, Word.size64]
  have hbounds := h _ _ c _ (by simpa using hwell) hbuild hsettings
  exact absurd hbounds.2.1 (by decide)

end Config

end HistoryKeeper
