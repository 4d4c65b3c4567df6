import HistoryKeeper.Json.Reader
import HistoryKeeper.Proofs.Data.Table
import HistoryKeeper.Proofs.Json.Literal
import HistoryKeeper.Proofs.Json.Numeral

/-!
# Readers on written text

`Reads reader bytes x`: the reader takes `bytes` off the front as `x`, whatever follows that does not
go on with a number. Each reader gets one such lemma for the text that the printer writes for its
kind of value: `reads_string`, `reads_natural`, `reads_array`, `reads_table` and so on. Arrays and
tables are read item by item, so their lemmas are for any kind of item (`f` says what is written for
an item).

Not every text is read. `Gives reader bytes outcome` allows a fault; `gives_array` and `gives_table`
say what becomes of the whole where `g` says what becomes of an item.
-/

namespace HistoryKeeper.Json.Reader

variable {α β : Type}

/-- A reader takes these bytes for this value. -/
def Reads (reader : Reader α) (bytes : Bytes) (x : α) : Prop :=
  ∀ rest, EndsNumeral rest → reader (bytes ++ rest) = .ok (x, rest)

/-- A reader takes these bytes for a value or refuses them. -/
def Gives (reader : Reader α) (bytes : Bytes) (outcome : Except Fault α) : Prop :=
  ∀ rest, EndsNumeral rest → reader (bytes ++ rest) = (·, rest) <$> outcome

/-- How the text of a value begins. -/
def StartsValue (bytes : Bytes) : Prop :=
  ∃ b more, bytes = b :: more ∧ isBlank b = false ∧ b ≠ 93

theorem endsNumeral_nil : EndsNumeral [] := nofun

theorem endsNumeral_cons {b : UInt8} (h : b = 44 ∨ b = 93 ∨ b = 125) (rest : Bytes) :
    EndsNumeral (b :: rest) := by
  intro b' hb'
  cases hb'
  rcases h with rfl | rfl | rfl <;> decide

theorem bind_ok {x : Reader α} {f : α → Reader β} {s s' : Bytes} {a : α}
    (h : x s = .ok (a, s')) : (x >>= f) s = f a s' := by
  show (x s >>= fun p => f p.1 p.2) = _
  rw [h]
  rfl

theorem bind_map {x : Reader α} {f : α → Reader β} {s s' : Bytes} {outcome : Except Fault α}
    (h : x s = (·, s') <$> outcome) : (x >>= f) s = outcome >>= fun a => f a s' := by
  show (x s >>= fun p => f p.1 p.2) = _
  rw [h]
  cases outcome <;> rfl

theorem readAll_of_run {reader : Reader α} {bytes : Bytes} {x : α}
    (h : reader bytes = .ok (x, [])) : reader.readAll bytes = .ok x := by
  unfold readAll
  rw [show reader.run bytes = .ok (x, []) from h]
  rfl

theorem readAll_of_gives {reader : Reader α} {bytes : Bytes} {outcome : Except Fault α}
    (h : Gives reader bytes outcome) : reader.readAll bytes = outcome := by
  have hx := h [] endsNumeral_nil
  rw [List.append_nil] at hx
  cases outcome with
  | error fault =>
    unfold readAll
    rw [show reader.run bytes = .error fault from hx]
    rfl
  | ok x => exact readAll_of_run hx

theorem readAll_of_reads {reader : Reader α} {bytes : Bytes} {x : α} (h : Reads reader bytes x) :
    reader.readAll bytes = .ok x :=
  readAll_of_gives h

theorem Reads.bind {x : Reader α} {f : α → Reader β} {bytes : Bytes} {a : α} {b : β}
    (hx : Reads x bytes a) (hf : ∀ rest, f a rest = .ok (b, rest)) : Reads (x >>= f) bytes b := by
  intro rest hrest
  rw [bind_ok (hx rest hrest), hf]

theorem peekToken_cons {b : UInt8} (h : isBlank b = false) (rest : Bytes) :
    peekToken (b :: rest) = .ok (some b, b :: rest) := by
  show (Except.ok (((b :: rest).dropWhile isBlank).head?, (b :: rest).dropWhile isBlank) :
    Except Fault (Option UInt8 × Bytes)) = _
  rw [List.dropWhile_cons_of_neg (by simp [h])]
  rfl

theorem advance_cons (b : UInt8) (rest : Bytes) : advance (b :: rest) = .ok ((), rest) := rfl

theorem digit_cases {b : UInt8} (h : isDigit b = true) : b = 48 ∨ b = 49 ∨ b = 50 ∨ b = 51 ∨
    b = 52 ∨ b = 53 ∨ b = 54 ∨ b = 55 ∨ b = 56 ∨ b = 57 := by
  simp only [isDigit, UInt8.le_iff_toNat_le, Bool.and_eq_true, decide_eq_true_eq] at h
  simp only [← UInt8.toNat_inj]
  change 48 ≤ b.toNat ∧ b.toNat ≤ 57 at h
  change b.toNat = 48 ∨ b.toNat = 49 ∨ b.toNat = 50 ∨ b.toNat = 51 ∨ b.toNat = 52 ∨
    b.toNat = 53 ∨ b.toNat = 54 ∨ b.toNat = 55 ∨ b.toNat = 56 ∨ b.toNat = 57
  omega

theorem encodeChars_digits (n : Nat) :
    ∃ b more, Utf8.encodeChars (Decimal.digits n) = b :: more ∧ isDigit b = true := by
  obtain ⟨b, more, hb⟩ : ∃ b more, Utf8.encodeChars (Decimal.digits n) = b :: more := by
    refine List.exists_cons_of_ne_nil fun he => places_ne_nil n ?_
    rw [places, he]
    rfl
  exact ⟨b, more, hb, isDigit_of_mem_digits n b (by rw [hb]; exact List.mem_cons_self ..)⟩

theorem head_string (s : String) (rest : Bytes) :
    head (Utf8.encodeChars (renderString s) ++ rest) = .ok (.string s, rest) := by
  rw [encodeChars_renderString, List.cons_append, head, bind_ok (peekToken_cons rfl _)]
  show (advance >>= fun _ => lift readLiteral >>= fun s => pure (Head.string s) : Reader Head) _ = _
  rw [bind_ok (advance_cons _ _), List.append_assoc, List.singleton_append,
    bind_ok (x := lift readLiteral) (readLiteral_renderString s rest)]
  rfl

/-- The readers of a number are told apart from the others by its first digit. -/
theorem head_digit {b : UInt8} (h : isDigit b = true) (more : Bytes) :
    head (b :: more) = (fun p => (.number p.1, p.2)) <$> readNumeral false (b :: more) := by
  rcases digit_cases h with
    rfl | rfl | rfl | rfl | rfl | rfl | rfl | rfl | rfl | rfl <;>
  · rw [head, bind_ok (peekToken_cons rfl _)]
    show (readNumeral false _ >>= fun p => pure (Head.number p.1, p.2)) = _
    cases readNumeral false _ <;> rfl

theorem head_minus (more : Bytes) :
    head (45 :: more) = (fun p => (.number p.1, p.2)) <$> readNumeral true more := by
  rw [head, bind_ok (peekToken_cons rfl _)]
  show (readNumeral true more >>= fun p => pure (Head.number p.1, p.2)) = _
  cases readNumeral true more <;> rfl

theorem head_digits {n : Nat} (hn : n < Word.size64) {rest : Bytes} (h : EndsNumeral rest) :
    head (Utf8.encodeChars (Decimal.digits n) ++ rest) = .ok (.number (.integer n), rest) := by
  obtain ⟨b, more, hb, hdigit⟩ := encodeChars_digits n
  have hread := readNumeral_digits false hn h
  rw [hb, List.cons_append] at hread ⊢
  rw [head_digit hdigit, hread]
  rfl

theorem head_negative {n : Int} (h₁ : -Word.size63 ≤ n) (h₂ : n < 0) {rest : Bytes}
    (h : EndsNumeral rest) :
    head (45 :: (Utf8.encodeChars (Decimal.digits n.natAbs) ++ rest)) =
      .ok (.number (.integer n), rest) := by
  have hn : n.natAbs < Word.size64 := by simp only [Word.size63, Word.size64] at *; omega
  rw [head_minus, readNumeral_digits true hn h, ofSignificand_natAbs h₁ h₂]
  rfl

theorem head_integer {n : Int} (h₁ : -Word.size63 ≤ n) (h₂ : n < Word.size64) {rest : Bytes}
    (h : EndsNumeral rest) :
    head (Utf8.encodeChars (Decimal.ofInt n) ++ rest) = .ok (.number (.integer n), rest) := by
  unfold Decimal.ofInt
  split
  · exact head_negative h₁ ‹_› h
  · rw [head_digits (by omega) h, Int.natAbs_of_nonneg (by omega)]

theorem head_openArray (rest : Bytes) : head (91 :: rest) = .ok (.openArray, rest) := by
  rw [head, bind_ok (peekToken_cons rfl _)]
  rfl

theorem head_openObject (rest : Bytes) : head (123 :: rest) = .ok (.openObject, rest) := by
  rw [head, bind_ok (peekToken_cons rfl _)]
  rfl

/-! ### Scalars -/

theorem reads_string (s expected : String) :
    Reads (string expected) (Utf8.encodeChars (renderString s)) s := by
  intro rest _
  rw [string, bind_ok (head_string s rest)]
  rfl

theorem reads_natural (bound : Nat) {n : Nat} (h : n < bound) (hb : bound ≤ Word.size64)
    (expected : String) :
    Reads (natural bound expected) (Utf8.encodeChars (Decimal.ofInt n)) n := by
  intro rest hrest
  have hn : (n : Int) < Word.size64 := by omega
  have hbound : (decide ((0 : Int) ≤ n) && decide ((n : Int) < bound)) = true := by simp; omega
  rw [natural, bind_ok (head_integer (by omega) hn hrest)]
  show (if (decide ((0 : Int) ≤ n) && decide ((n : Int) < bound)) = true
    then pure (Int.toNat n) else _ : Reader Nat) rest = _
  rw [if_pos hbound]
  rfl

theorem reads_integer {low high n : Int} (h₁ : low ≤ n) (h₂ : n ≤ high) (hl : -Word.size63 ≤ low)
    (hh : high < Word.size64) (expected : String) :
    Reads (integer low high expected) (Utf8.encodeChars (Decimal.ofInt n)) n := by
  intro rest hrest
  have hrange : (decide (low ≤ n) && decide (n ≤ high)) = true := by simp [h₁, h₂]
  rw [integer, bind_ok (head_integer (by omega) (by omega) hrest)]
  show (if (decide (low ≤ n) && decide (n ≤ high)) = true
    then pure n else _ : Reader Int) rest = _
  rw [if_pos hrange]
  rfl

theorem reads_boolean (b : Bool) (expected : String) :
    Reads (boolean expected) (Json.bool b).toBytes b := by
  intro rest _
  cases b <;> rfl

theorem startsValue_renderString (s : String) : StartsValue (Utf8.encodeChars (renderString s)) :=
  ⟨34, _, encodeChars_renderString s, rfl, by decide⟩

theorem startsValue_of_digit {b : UInt8} (h : isDigit b = true) (more : Bytes) :
    StartsValue (b :: more) := by
  refine ⟨b, more, rfl, ?_⟩
  rcases digit_cases h with
    rfl | rfl | rfl | rfl | rfl | rfl | rfl | rfl | rfl | rfl <;> decide

theorem startsValue_ofInt (n : Int) : StartsValue (Utf8.encodeChars (Decimal.ofInt n)) := by
  unfold Decimal.ofInt
  split
  · exact ⟨45, _, rfl, rfl, by decide⟩
  · obtain ⟨b, more, hb, hdigit⟩ := encodeChars_digits n.natAbs
    rw [hb]
    exact startsValue_of_digit hdigit more

/-- The text of a double behind its sign. -/
def floatBody (x : Binary64) : List Char :=
  if x.magnitude = 0 then ['0', '.', '0']
  else
    let (n, exponent) := x.shortest
    let digits := Decimal.digits n
    let place := exponent + digits.length
    if floatFormat.leastPlace ≤ place && place ≤ floatFormat.greatestPlace then
      positional digits place
    else scientific digits place

theorem renderFloat_eq (x : Binary64) :
    renderFloat x = (if x.isNegative then ['-'] else []) ++ floatBody x := by
  simp only [renderFloat, floatBody]
  split
  · rfl
  · split <;> rfl

theorem positional_cons {digits : List Char} (h : AllDigits digits) (hne : digits ≠ [])
    (place : Int) : ∃ d < 10, ∃ more, positional digits place = d.digitChar :: more := by
  obtain ⟨c, digits, rfl⟩ := List.exists_cons_of_ne_nil hne
  rw [positional]
  split
  · exact ⟨0, by decide, _, rfl⟩
  · obtain ⟨d, hd, rfl⟩ := h c (List.mem_cons_self ..)
    obtain ⟨k, hk⟩ : ∃ k, place.toNat = k + 1 := ⟨place.toNat - 1, by omega⟩
    simp only [hk, List.take_succ_cons, List.cons_append]
    exact ⟨d, hd, _, rfl⟩

theorem scientific_cons {digits : List Char} (h : AllDigits digits) (hne : digits ≠ [])
    (place : Int) : ∃ d < 10, ∃ more, scientific digits place = d.digitChar :: more := by
  obtain ⟨c, digits, rfl⟩ := List.exists_cons_of_ne_nil hne
  obtain ⟨d, hd, rfl⟩ := h c (List.mem_cons_self ..)
  exact ⟨d, hd, _, rfl⟩

theorem floatBody_cons (x : Binary64) : ∃ d < 10, ∃ more, floatBody x = d.digitChar :: more := by
  rw [floatBody]
  split
  · exact ⟨0, by decide, _, rfl⟩
  · have hdigits := allDigits_digits x.shortest.1
    have hne : Decimal.digits x.shortest.1 ≠ [] := Nat.toDigits_ne_nil
    dsimp only
    split
    · exact positional_cons hdigits hne _
    · exact scientific_cons hdigits hne _

theorem encodeChars_floatBody (x : Binary64) :
    ∃ b more, Utf8.encodeChars (floatBody x) = b :: more ∧ isDigit b = true := by
  obtain ⟨d, hd, more, hmore⟩ := floatBody_cons x
  obtain ⟨b, hb, hdigit, -⟩ := utf8EncodeChar_digitChar hd
  exact ⟨b, Utf8.encodeChars more, by rw [hmore, Utf8.encodeChars_cons, hb]; rfl, hdigit⟩

theorem startsValue_renderFloat (x : Binary64) : StartsValue (Utf8.encodeChars (renderFloat x)) := by
  rw [renderFloat_eq]
  split
  · exact ⟨45, _, rfl, rfl, by decide⟩
  · obtain ⟨b, more, hb, hdigit⟩ := encodeChars_floatBody x
    rw [List.nil_append, hb]
    exact startsValue_of_digit hdigit more

theorem moreItems_close (first : Bool) (rest : Bytes) :
    moreItems first (93 :: rest) = .ok (false, 93 :: rest) := by
  rw [moreItems, bind_ok (peekToken_cons rfl _)]
  rfl

theorem match_close {β : Type} {b : UInt8} (h : b ≠ 93) (atEnd onClose onItem : β) :
    (match some b with
      | none => atEnd
      | some 93 => onClose
      | some _ => onItem) = onItem := by
  split
  · contradiction
  · exact absurd (Option.some.inj ‹_›) h
  · rfl

theorem moreItems_first {bytes : Bytes} (h : StartsValue bytes) (rest : Bytes) :
    moreItems true (bytes ++ rest) = .ok (true, bytes ++ rest) := by
  obtain ⟨b, more, rfl, hblank, hclose⟩ := h
  rw [List.cons_append, moreItems, bind_ok (peekToken_cons hblank _)]
  exact congrFun (match_close hclose (fail .endInList) (pure false) (pure true)) _

theorem moreItems_comma {bytes : Bytes} (h : StartsValue bytes) (rest : Bytes) :
    moreItems false (44 :: (bytes ++ rest)) = .ok (true, bytes ++ rest) := by
  obtain ⟨b, more, rfl, hblank, hclose⟩ := h
  rw [moreItems, bind_ok (peekToken_cons rfl _)]
  show (advance >>= fun _ => peekToken >>= fun b => _ : Reader Bool) _ = _
  rw [bind_ok (advance_cons _ _), List.cons_append, bind_ok (peekToken_cons hblank _)]
  exact congrFun (match_close hclose (fail .endInValue) (fail .trailingComma) (pure true)) _

section
variable {item : Reader α} {f : β → Json} {g : β → Except Fault α}

theorem items_renderItems {xs : List β} (hstart : ∀ x ∈ xs, StartsValue (f x).toBytes)
    (hitem : ∀ x ∈ xs, Gives item (f x).toBytes (g x)) {fuel : Nat} (hfuel : xs.length < fuel)
    (rest : Bytes) :
    items item fuel false (Utf8.encodeChars (renderItems (xs.map f)) ++ rest) =
      (·, rest) <$> xs.mapM g := by
  obtain ⟨fuel, rfl⟩ : ∃ n, fuel = n + 1 := ⟨fuel - 1, by omega⟩
  induction xs generalizing fuel with
  | nil =>
    show items item (fuel + 1) false (93 :: rest) = _
    rw [items, bind_ok (moreItems_close false rest)]
    rfl
  | cons x xs ih =>
    obtain ⟨fuel, rfl⟩ : ∃ n, fuel = n + 1 := ⟨fuel - 1, by simp at hfuel; omega⟩
    have hrest : EndsNumeral (Utf8.encodeChars (renderItems (xs.map f)) ++ rest) := by
      cases xs <;> exact endsNumeral_cons (by decide) _
    have hx := hitem x (List.mem_cons_self ..) _ hrest
    have hxs := ih (fun y hy => hstart y (List.mem_cons_of_mem _ hy))
      (fun y hy => hitem y (List.mem_cons_of_mem _ hy)) fuel (by simpa using hfuel)
    rw [List.map_cons, renderItems, List.cons_append, Utf8.encodeChars_cons,
      Utf8.encodeChars_append, List.append_assoc, List.append_assoc]
    show items item (fuel + 1 + 1) false (44 :: ((f x).toBytes ++ _)) = _
    rw [items, bind_ok (moreItems_comma (hstart x (List.mem_cons_self ..)) _), if_pos rfl,
      bind_map hx, List.mapM_cons]
    cases g x with
    | error e => rfl
    | ok y =>
      show (items item (fuel + 1) false >>= fun ys => pure (y :: ys) : Reader (List α)) _ = _
      rw [bind_map hxs]
      cases xs.mapM g <;> rfl

theorem length_lt_renderItems (xs : List Json) :
    xs.length < (Utf8.encodeChars (renderItems xs)).length := by
  induction xs with
  | nil => decide
  | cons x xs ih =>
    rw [renderItems, List.cons_append, Utf8.encodeChars_cons, Utf8.encodeChars_append]
    simp only [List.length_append, List.length_cons]
    have hcomma : (String.utf8EncodeChar ',').length = 1 := rfl
    omega

/-- An array comes to what its items come to, one after the other. -/
theorem gives_array (item : Reader α) (f : β → Json) (g : β → Except Fault α) (xs : List β)
    (hstart : ∀ x ∈ xs, StartsValue (f x).toBytes)
    (hitem : ∀ x ∈ xs, Gives item (f x).toBytes (g x)) (rest : Bytes) :
    ∃ body, (Json.array (xs.map f)).toBytes = 91 :: body ∧
      arrayBody item (body ++ rest) = (·, rest) <$> xs.mapM g := by
  cases xs with
  | nil =>
    refine ⟨[93], rfl, ?_⟩
    show items item ((93 :: rest).length + 1) true (93 :: rest) = _
    rw [items, bind_ok (moreItems_close true rest)]
    rfl
  | cons x xs =>
    have hrest : EndsNumeral (Utf8.encodeChars (renderItems (xs.map f)) ++ rest) := by
      cases xs <;> exact endsNumeral_cons (by decide) _
    refine ⟨(f x).toBytes ++ Utf8.encodeChars (renderItems (xs.map f)), ?_, ?_⟩
    · rw [toBytes, List.map_cons, render, List.cons_append, Utf8.encodeChars_cons,
        Utf8.encodeChars_append]
      rfl
    · rw [List.append_assoc]
      show items item ((_ : Bytes).length + 1) true _ = _
      have hlen := length_lt_renderItems (xs.map f)
      rw [List.length_map] at hlen
      rw [items, bind_ok (moreItems_first (hstart x (List.mem_cons_self ..)) _), if_pos rfl,
        bind_map (hitem x (List.mem_cons_self ..) _ hrest), List.mapM_cons]
      cases g x with
      | error e => rfl
      | ok y =>
        show (items item _ false >>= fun ys => pure (y :: ys) : Reader (List α)) _ = _
        rw [bind_map (items_renderItems (fun y hy => hstart y (List.mem_cons_of_mem _ hy))
          (fun y hy => hitem y (List.mem_cons_of_mem _ hy))
          (by simp only [List.length_append]; omega) rest)]
        cases xs.mapM g <;> rfl

theorem mapM_eq_ok {xs : List β} {h : β → α} (hg : ∀ x ∈ xs, g x = .ok (h x)) :
    xs.mapM g = .ok (xs.map h) := by
  induction xs with
  | nil => rfl
  | cons x xs ih =>
    rw [List.mapM_cons, hg x (List.mem_cons_self ..), ih fun y hy => hg y (List.mem_cons_of_mem _ hy)]
    rfl

theorem mapM_ok {xs : List α} {g : α → Except Fault α} (hg : ∀ x ∈ xs, g x = .ok x) :
    xs.mapM g = .ok xs :=
  (mapM_eq_ok hg).trans (congrArg Except.ok (List.map_id' xs))

theorem reads_array (item : Reader α) (f : α → Json) (xs : List α)
    (hstart : ∀ x ∈ xs, StartsValue (f x).toBytes) (hitem : ∀ x ∈ xs, Reads item (f x).toBytes x)
    (rest : Bytes) :
    ∃ body, (Json.array (xs.map f)).toBytes = 91 :: body ∧
      arrayBody item (body ++ rest) = .ok (xs, rest) := by
  obtain ⟨body, hbody, hread⟩ := gives_array item f .ok xs hstart hitem rest
  rw [mapM_ok fun _ _ => rfl] at hread
  exact ⟨body, hbody, hread⟩

end

/-! ### Objects -/

theorem nextKey_close (first : Bool) (rest : Bytes) :
    nextKey first (125 :: rest) = .ok (none, 125 :: rest) := by
  rw [nextKey, bind_ok (peekToken_cons rfl _)]
  rfl

theorem nextKey_first (key : String) (rest : Bytes) :
    nextKey true (Utf8.encodeChars (renderString key) ++ rest) = .ok (some key, rest) := by
  rw [encodeChars_renderString, List.cons_append, nextKey, bind_ok (peekToken_cons rfl _)]
  show (advance >>= fun _ => lift readLiteral >>= fun s => pure (some s) :
    Reader (Option String)) _ = _
  rw [bind_ok (advance_cons _ _), List.append_assoc, List.singleton_append,
    bind_ok (x := lift readLiteral) (readLiteral_renderString key rest)]
  rfl

theorem nextKey_comma (key : String) (rest : Bytes) :
    nextKey false (44 :: (Utf8.encodeChars (renderString key) ++ rest)) = .ok (some key, rest) := by
  rw [nextKey, bind_ok (peekToken_cons rfl _)]
  show (advance >>= fun _ => peekToken >>= fun b => _ : Reader (Option String)) _ = _
  rw [bind_ok (advance_cons _ _), encodeChars_renderString, List.cons_append,
    bind_ok (peekToken_cons rfl _)]
  show (advance >>= fun _ => lift readLiteral >>= fun s => pure (some s) :
    Reader (Option String)) _ = _
  rw [bind_ok (advance_cons _ _), List.append_assoc, List.singleton_append,
    bind_ok (x := lift readLiteral) (readLiteral_renderString key rest)]
  rfl

theorem colon_cons (rest : Bytes) : colon (58 :: rest) = .ok ((), rest) := by
  rw [colon, bind_ok (peekToken_cons rfl _)]
  rfl

theorem closeObject_cons (rest : Bytes) : closeObject (125 :: rest) = .ok ((), rest) := by
  rw [closeObject, bind_ok (peekToken_cons rfl _)]
  rfl

theorem fields_close {σ : Type} (field : String → σ → Reader σ) (fuel : Nat) (first : Bool)
    (acc : σ) (rest : Bytes) :
    fields field (fuel + 1) first acc (125 :: rest) = .ok (acc, 125 :: rest) := by
  rw [fields, bind_ok (nextKey_close first rest)]
  rfl

section
variable {value : Reader α} {f : β → Json} {g : β → Except Fault α}

/-- How `tableBody` takes in a field. -/
def tableField (value : Reader α) (key : String) (table : Table String α) :
    Reader (Table String α) := do
  colon
  let v ← value
  return table.insert key v

theorem tableField_map {x : β} (hx : Gives value (f x).toBytes (g x)) (key : String)
    (table : Table String α) {rest : Bytes} (hrest : EndsNumeral rest) :
    tableField value key table (58 :: ((f x).toBytes ++ rest)) =
      (·, rest) <$> (table.insert key <$> g x) := by
  rw [tableField, bind_ok (colon_cons _), bind_map (hx rest hrest)]
  cases g x <;> rfl

/-- What the fields come to: each keeps its key. -/
def eachField (g : β → Except Fault α) (entries : List (String × β)) :
    Except Fault (List (String × α)) :=
  entries.mapM fun x => (x.1, ·) <$> g x.2

theorem fields_renderFields (acc : Table String α) {entries : Table String β}
    (hvalue : ∀ x ∈ entries, Gives value (f x.2).toBytes (g x.2))
    (hbefore : ∀ y ∈ acc, ∀ x ∈ entries, y.1 < x.1) (hord : entries.Ordered) {fuel : Nat}
    (hfuel : entries.length < fuel) (rest : Bytes) :
    fields (tableField value) fuel false acc
        (Utf8.encodeChars (renderFields (entries.map fun x => (x.1, f x.2))) ++ rest) =
      (fun table => (acc ++ table, 125 :: rest)) <$> eachField g entries := by
  obtain ⟨fuel, rfl⟩ : ∃ n, fuel = n + 1 := ⟨fuel - 1, by omega⟩
  induction entries generalizing fuel acc with
  | nil =>
    refine (fields_close (tableField value) fuel false acc rest).trans ?_
    exact congrArg (fun table => Except.ok (table, 125 :: rest)) (List.append_nil acc).symm
  | cons x entries ih =>
    obtain ⟨fuel, rfl⟩ : ∃ n, fuel = n + 1 := ⟨fuel - 1, by simp at hfuel; omega⟩
    have hrest : EndsNumeral
        (Utf8.encodeChars (renderFields (entries.map fun x => (x.1, f x.2))) ++ rest) := by
      cases entries <;> exact endsNumeral_cons (by decide) _
    have hx := tableField_map (hvalue x (List.mem_cons_self ..)) x.1 acc hrest
    rw [List.map_cons, renderFields]
    simp only [List.cons_append, Utf8.encodeChars_cons, Utf8.encodeChars_append, List.append_assoc]
    show fields (tableField value) (fuel + 1 + 1) false acc
      (44 :: (_ ++ (58 :: ((f x.2).toBytes ++ _)))) = _
    rw [fields, bind_ok (nextKey_comma x.1 _)]
    show (tableField value x.1 acc >>= fun acc => fields (tableField value) (fuel + 1) false acc :
      Reader (Table String α)) _ = _
    rw [bind_map hx, eachField, List.mapM_cons]
    cases g x.2 with
    | error e => rfl
    | ok v =>
      have hins : acc.insert x.1 v = acc ++ [(x.1, v)] :=
        Table.insert_of_forall_lt v fun y hy => hbefore y hy x (List.mem_cons_self ..)
      have hbefore' : ∀ y ∈ acc ++ [(x.1, v)], ∀ z ∈ entries, y.1 < z.1 := by
        intro y hy z hz
        rcases List.mem_append.mp hy with hy | hy
        · exact hbefore y hy z (List.mem_cons_of_mem _ hz)
        · rw [List.mem_singleton.mp hy]
          exact (List.pairwise_cons.mp hord).1 z hz
      have hxs := ih (acc ++ [(x.1, v)]) (fun y hy => hvalue y (List.mem_cons_of_mem _ hy))
        hbefore' (List.pairwise_cons.mp hord).2 fuel (by simpa using hfuel)
      show fields (tableField value) (fuel + 1) false (acc.insert x.1 v) _ = _
      rw [hins, hxs, eachField]
      cases entries.mapM (fun x => (x.1, ·) <$> g x.2) with
      | error e => rfl
      | ok table => exact congrArg (fun t => Except.ok (t, _)) (List.append_assoc ..)

theorem length_lt_renderFields (entries : List (String × Json)) :
    entries.length < (Utf8.encodeChars (renderFields entries)).length := by
  induction entries with
  | nil => decide
  | cons x entries ih =>
    rw [renderFields]
    simp only [List.cons_append, Utf8.encodeChars_cons, Utf8.encodeChars_append, List.length_append,
      List.length_cons]
    have hcomma : (String.utf8EncodeChar ',').length = 1 := rfl
    omega

/-- An object with its keys in order comes to what its values come to, one after the other. -/
theorem gives_table (value : Reader α) (f : β → Json) (g : β → Except Fault α)
    {entries : Table String β} (hord : entries.Ordered)
    (hvalue : ∀ x ∈ entries, Gives value (f x.2).toBytes (g x.2)) (rest : Bytes) :
    ∃ body, (Json.object (entries.map fun x => (x.1, f x.2))).toBytes = 123 :: body ∧
      tableBody value (body ++ rest) = (·, rest) <$> eachField g entries := by
  suffices ∃ body, (Json.object (entries.map fun x => (x.1, f x.2))).toBytes = 123 :: body ∧
      objectBody (tableField value) [] (body ++ rest) =
        (·, 125 :: rest) <$> eachField g entries by
    obtain ⟨body, hbody, hread⟩ := this
    refine ⟨body, hbody, ?_⟩
    show (objectBody (tableField value) [] >>= fun table => closeObject >>= fun _ => pure table :
      Reader (Table String α)) _ = _
    rw [bind_map hread]
    cases eachField g entries with
    | error e => rfl
    | ok table =>
      show (closeObject >>= fun _ => pure table : Reader (Table String α)) (125 :: rest) = _
      rw [bind_ok (closeObject_cons rest)]
      rfl
  cases entries with
  | nil =>
    refine ⟨[125], rfl, ?_⟩
    show fields (tableField value) ((125 :: rest).length + 1) true [] (125 :: rest) = _
    exact fields_close (tableField value) _ true [] rest
  | cons x entries =>
    have hrest : EndsNumeral
        (Utf8.encodeChars (renderFields (entries.map fun x => (x.1, f x.2))) ++ rest) := by
      cases entries <;> exact endsNumeral_cons (by decide) _
    have hx := tableField_map (hvalue x (List.mem_cons_self ..)) x.1 [] hrest
    refine ⟨Utf8.encodeChars (renderString x.1) ++ (58 :: ((f x.2).toBytes ++
      Utf8.encodeChars (renderFields (entries.map fun x => (x.1, f x.2))))), ?_, ?_⟩
    · rw [toBytes, List.map_cons, render]
      simp only [List.cons_append, Utf8.encodeChars_cons, Utf8.encodeChars_append,
        List.append_assoc]
      rfl
    · simp only [List.append_assoc, List.cons_append]
      show fields (tableField value) ((_ : Bytes).length + 1) true [] _ = _
      have hlen := length_lt_renderFields (entries.map fun x => (x.1, f x.2))
      rw [List.length_map] at hlen
      rw [fields, bind_ok (nextKey_first x.1 _)]
      show (tableField value x.1 [] >>= fun acc => fields (tableField value) _ false acc :
        Reader (Table String α)) _ = _
      rw [bind_map hx, eachField, List.mapM_cons]
      cases g x.2 with
      | error e => rfl
      | ok v =>
        have hbefore : ∀ y ∈ [(x.1, v)], ∀ z ∈ entries, y.1 < z.1 := by
          intro y hy z hz
          rw [List.mem_singleton.mp hy]
          exact (List.pairwise_cons.mp hord).1 z hz
        show fields (tableField value) _ false [(x.1, v)] _ = _
        rw [fields_renderFields [(x.1, v)] (fun y hy => hvalue y (List.mem_cons_of_mem _ hy)) hbefore
          (List.pairwise_cons.mp hord).2 (by simp only [List.length_append, List.length_cons]; omega)
          rest, eachField]
        cases entries.mapM (fun x => (x.1, ·) <$> g x.2) <;> rfl

theorem eachField_ok {entries : List (String × α)} {g : α → Except Fault α}
    (hg : ∀ x ∈ entries, g x.2 = .ok x.2) : eachField g entries = .ok entries :=
  mapM_ok fun x hx => by rw [hg x hx]; rfl

/-- An object reads back as a table if its values do and its keys are in order. -/
theorem reads_table (value : Reader α) (f : α → Json) {entries : Table String α}
    (hord : entries.Ordered) (hvalue : ∀ x ∈ entries, Reads value (f x.2).toBytes x.2)
    (rest : Bytes) :
    ∃ body, (Json.object (entries.map fun x => (x.1, f x.2))).toBytes = 123 :: body ∧
      tableBody value (body ++ rest) = .ok (entries, rest) := by
  obtain ⟨body, hbody, hread⟩ := gives_table value f .ok hord hvalue rest
  rw [eachField_ok fun _ _ => rfl] at hread
  exact ⟨body, hbody, hread⟩

end

end HistoryKeeper.Json.Reader
