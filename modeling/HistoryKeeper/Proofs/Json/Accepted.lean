import HistoryKeeper.Proofs.Json.RoundTrip
import HistoryKeeper.Proofs.Json.Yields

/-!
# What JSON text is accepted as

`yields_anyValue`: whatever a JSON text is read as is nested no deeper than the reader goes, and,
unless a double occurs in it, is a value that its own text tells (`Exact`): its integers fit 64 bits
and the fields of its objects are in order, however they stood in the text.
-/

namespace HistoryKeeper.Json

/-- If it is an integer, it fits 64 bits. -/
def Number.Fits (x : Number) : Prop :=
  ∀ n, x = .integer n → x.InRange

theorem Number.fits_float (x : Binary64) : (Number.float x).Fits :=
  nofun

theorem fits_ofSignificand (negative : Bool) {n : Nat} (h : n < Word.size64) :
    (ofSignificand negative n).Fits := by
  unfold ofSignificand
  split
  · exact fun _ _ => ⟨by omega, by omega⟩
  · split
    · exact Number.fits_float _
    · rename_i hfits
      simp only [Bool.or_eq_true, decide_eq_true_eq, not_or] at hfits
      exact fun _ _ => ⟨by omega, by omega⟩

theorem fits_readNumeral {negative : Bool} {bytes rest : Bytes} {x : Number}
    (h : readNumeral negative bytes = .ok (x, rest)) : x.Fits := by
  have hfloat : ∀ {read : Except Fault (Binary64 × Bytes)},
      (read >>= fun p => pure (.float p.1, p.2)) = Except.ok (x, rest) → x.Fits := by
    intro read hread
    cases read with
    | error fault => cases hread
    | ok p =>
      cases hread
      exact Number.fits_float _
  unfold readNumeral at h
  split at h
  · cases h
  · cases h
  · cases h
  · rename_i digits _ _ _ _ _
    have hlt := significand_lt digits
    generalize gather significandLimit 0 digits = gathered at h hlt
    obtain ⟨significand, left⟩ := gathered
    dsimp only at h
    split at h
    · exact hfloat h
    · exact hfloat h
    · exact hfloat h
    · split at h
      · cases h
        exact fits_ofSignificand negative hlt
      · cases hx : toBinary64 negative significand left with
        | error fault => rw [hx] at h; cases h
        | ok y =>
          rw [hx] at h
          cases h
          exact Number.fits_float y

namespace Reader

variable {α : Type}

def Head.Fits (h : Head) : Prop :=
  ∀ x, h = .number x → x.Fits

theorem yields_readNumeral (negative : Bool) : Yields (lift (readNumeral negative)) Number.Fits :=
  fun _ _ _ h => fits_readNumeral h

theorem yields_head : Yields head Head.Fits := by
  have hnumeral : ∀ negative, Yields (do return Head.number (← lift (readNumeral negative)))
      Head.Fits := fun negative =>
    (yields_readNumeral negative).bind fun x hx => yields_pure fun y hy => by cases hy; exact hx
  refine (yields_any _).bind fun b _ => ?_
  split
  · exact yields_fail _ _
  · exact (yields_any _).bind fun _ _ => (yields_any _).bind fun _ _ => yields_pure nofun
  · exact (yields_any _).bind fun _ _ => (yields_any _).bind fun _ _ => yields_pure nofun
  · exact (yields_any _).bind fun _ _ => (yields_any _).bind fun _ _ => yields_pure nofun
  · exact (yields_any _).bind fun _ _ => hnumeral true
  · exact (yields_any _).bind fun _ _ => (yields_any _).bind fun _ _ => yields_pure nofun
  · exact (yields_any _).bind fun _ _ => yields_pure nofun
  · exact (yields_any _).bind fun _ _ => yields_pure nofun
  · split
    · exact hnumeral false
    · exact yields_fail _ _

theorem yields_items {item : Reader α} {P : α → Prop} (hitem : Yields item P) (fuel : Nat)
    (first : Bool) : Yields (items item fuel first) fun xs => ∀ x ∈ xs, P x := by
  induction fuel generalizing first with
  | zero => exact yields_fail _ _
  | succ fuel ih =>
    refine (yields_any _).bind fun more _ => ?_
    split
    · exact hitem.bind fun x hx => (ih false).bind fun xs hxs =>
        yields_pure (List.forall_mem_cons.mpr ⟨hx, hxs⟩)
    · exact (yields_any _).bind fun _ _ => yields_pure nofun

theorem yields_arrayBody {item : Reader α} {P : α → Prop} (hitem : Yields item P) :
    Yields (arrayBody item) fun xs => ∀ x ∈ xs, P x :=
  (yields_any _).bind fun _ _ => yields_items hitem _ true

end Reader

/-- What a reader that goes `n` deep makes of a text. -/
structure Accepted (n : Nat) (j : Json) : Prop where
  exact : ¬ j.HasFloat → j.Exact
  depth : j.depth ≤ n

section
variable {n : Nat} {items : List Json} {fields : List (String × Json)}

theorem accepted_number {x : Number} (h : x.Fits) : (number x).Accepted n where
  exact hfloat := by
    cases x with
    | integer k => exact ⟨h k rfl, hfloat⟩
    | float y => exact absurd trivial hfloat
  depth := Nat.zero_le n

theorem accepted_array (h : ∀ j ∈ items, j.Accepted n) : (array items).Accepted (n + 1) where
  exact hfloat := by
    refine ⟨wellFormedItems_iff.mpr fun j hj => ((h j hj).exact fun hf => ?_).wellFormed, hfloat⟩
    exact hfloat (hasFloatItems_iff.mpr ⟨j, hj, hf⟩)
  depth := Nat.succ_le_succ (depthItems_le_iff.mpr fun j hj => (h j hj).depth)

theorem accepted_object (hord : Table.Ordered fields) (h : ∀ x ∈ fields, x.2.Accepted n) :
    (object fields).Accepted (n + 1) where
  exact hfloat := by
    refine ⟨⟨hord, wellFormedFields_iff.mpr fun x hx => ((h x hx).exact fun hf => ?_).wellFormed⟩,
      hfloat⟩
    exact hfloat (hasFloatFields_iff.mpr ⟨x, hx, hf⟩)
  depth := Nat.succ_le_succ (depthFields_le_iff.mpr fun x hx => (h x hx).depth)

end

namespace Reader

theorem yields_valueWith {n : Nat} {inner : Option (Reader Json)}
    (h : ∀ reader, inner = some reader → ∃ m, n = m + 1 ∧ Yields reader (Accepted m)) :
    Yields (valueWith inner) (Accepted n) := by
  refine yields_head.bind fun head hhead => ?_
  split
  · exact yields_pure ⟨fun hfloat => ⟨trivial, hfloat⟩, Nat.zero_le n⟩
  · exact yields_pure ⟨fun hfloat => ⟨trivial, hfloat⟩, Nat.zero_le n⟩
  · exact yields_pure (accepted_number (hhead _ rfl))
  · exact yields_pure ⟨fun hfloat => ⟨trivial, hfloat⟩, Nat.zero_le n⟩
  · rename_i reader
    obtain ⟨m, rfl, hreader⟩ := h reader rfl
    exact (yields_arrayBody hreader).bind fun items hitems => yields_pure (accepted_array hitems)
  · rename_i reader
    obtain ⟨m, rfl, hreader⟩ := h reader rfl
    exact (yields_tableBody hreader).bind fun fields hfields =>
      yields_pure (accepted_object hfields.1 hfields.2)
  · exact yields_fail _ _

theorem yields_valueWithin (n : Nat) : Yields (valueWithin n) (Accepted n) := by
  induction n with
  | zero => exact yields_valueWith nofun
  | succ n ih =>
    refine yields_valueWith fun reader hreader => ⟨n, rfl, ?_⟩
    cases hreader
    exact ih

theorem yields_anyValue : Yields anyValue (Accepted nestingLimit) :=
  yields_valueWithin nestingLimit

end Reader

end HistoryKeeper.Json
