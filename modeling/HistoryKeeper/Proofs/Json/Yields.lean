import HistoryKeeper.Json.Reader
import HistoryKeeper.Proofs.Data.Table

/-!
# What readers can read

`Yields reader P`: whatever the reader makes of any bytes has the property `P`. A reader made of
others yields what they yield (`Yields.bind`), so each reader gets one such lemma, and `of_readAll`
is what follows for a text that is read as a whole.
-/

namespace HistoryKeeper.Json.Reader

variable {α β : Type}

/-- Whatever a reader reads has a property. -/
def Yields (reader : Reader α) (P : α → Prop) : Prop :=
  ∀ s a s', reader s = .ok (a, s') → P a

theorem bind_eq_ok {x : Reader α} {f : α → Reader β} {s s' : Bytes} {b : β}
    (h : (x >>= f) s = .ok (b, s')) : ∃ a t, x s = .ok (a, t) ∧ f a t = .ok (b, s') := by
  change (x s >>= fun p => f p.1 p.2) = _ at h
  cases hx : x s with
  | error e => rw [hx] at h; cases h
  | ok p => exact ⟨p.1, p.2, rfl, by rw [hx] at h; exact h⟩

theorem yields_any (reader : Reader α) : Yields reader fun _ => True :=
  fun _ _ _ _ => trivial

theorem yields_pure {P : α → Prop} {a : α} (h : P a) : Yields (pure a) P := by
  intro s a' s' ha
  cases ha
  exact h

theorem yields_fail (fault : Fault) (P : α → Prop) : Yields (fail fault) P :=
  fun _ _ _ h => by cases h

theorem Yields.bind {x : Reader α} {f : α → Reader β} {P : α → Prop} {Q : β → Prop}
    (hx : Yields x P) (hf : ∀ a, P a → Yields (f a) Q) : Yields (x >>= f) Q := by
  intro s b s' h
  obtain ⟨a, t, ha, hb⟩ := bind_eq_ok h
  exact hf a (hx s a t ha) t b s' hb

theorem yields_fail_bind (fault : Fault) (f : α → Reader β) (P : β → Prop) :
    Yields (fail fault >>= f) P :=
  (yields_fail fault fun _ => False).bind fun _ h => h.elim

theorem yields_fields {P : α → Prop} {field : String → α → Reader α}
    (hfield : ∀ key acc, P acc → Yields (field key acc) P) (fuel : Nat) (first : Bool) {acc : α}
    (hacc : P acc) : Yields (fields field fuel first acc) P := by
  induction fuel generalizing first acc with
  | zero => exact yields_fail _ _
  | succ fuel ih =>
    refine (yields_any _).bind fun key _ => ?_
    cases key with
    | none => exact yields_pure hacc
    | some key => exact (hfield key acc hacc).bind fun acc hacc => ih false hacc

theorem yields_objectBody {P : α → Prop} {field : String → α → Reader α}
    (hfield : ∀ key acc, P acc → Yields (field key acc) P) {acc : α} (hacc : P acc) :
    Yields (objectBody field acc) P :=
  (yields_any _).bind fun _ _ => yields_fields hfield _ true hacc

theorem yields_tableBody {value : Reader α} {P : α → Prop} (hvalue : Yields value P) :
    Yields (tableBody value) fun t => t.Ordered ∧ ∀ x ∈ t, P x.2 := by
  refine (yields_objectBody (P := fun t : Table String α => t.Ordered ∧ ∀ x ∈ t, P x.2)
    (fun key acc hacc => ?_) ⟨List.Pairwise.nil, nofun⟩).bind
    fun t ht => (yields_any _).bind fun _ _ => yields_pure ht
  refine (yields_any _).bind fun _ _ => hvalue.bind fun v hv =>
    yields_pure ⟨hacc.1.insert key v, fun x hx => ?_⟩
  rcases Table.mem_insert hx with rfl | hx
  · exact hv
  · exact hacc.2 x hx

theorem yields_table (value : Reader α) (expected : String) :
    Yields (table value expected) Table.Ordered := by
  refine (yields_any _).bind fun h _ => ?_
  cases h with
  | openObject => exact fun s t s' h => (yields_tableBody (yields_any value) s t s' h).1
  | _ => exact yields_fail _ _

theorem of_readAll {reader : Reader α} {P : α → Prop} (hreader : Yields reader P)
    {bytes : Bytes} {a : α} (h : reader.readAll bytes = .ok a) : P a := by
  unfold readAll at h
  cases hr : reader.run bytes with
  | error e => rw [hr] at h; cases h
  | ok p =>
    rw [hr] at h
    cases hf : finish.run p.2 with
    | error e =>
      change (finish.run p.2 >>= fun _ => pure p.1) = _ at h
      rw [hf] at h
      cases h
    | ok q =>
      change (finish.run p.2 >>= fun _ => pure p.1) = _ at h
      rw [hf] at h
      cases h
      exact hreader bytes p.1 p.2 hr

end HistoryKeeper.Json.Reader
