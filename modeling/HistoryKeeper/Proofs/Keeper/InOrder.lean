import Mathlib.Data.List.Induction
import HistoryKeeper.Proofs.Data.Table
import HistoryKeeper.Proofs.Store.StoreView

/-!
# Requests in order

What a store would hold and what reads would get if requests were served strictly one after the
other: `PendingWrite.contentAfter` and `Request.answersInOrder`. A read gets the newest write on its
key before it, or else what was there at the beginning (`PendingRead.valueAfter`); that is what its
key has after those writes (`PendingRead.get?_contentAfter`).
-/

namespace HistoryKeeper

variable {content : String → CacheContent} {name key : String} {entries : Entries}
  {ws : List PendingWrite} {w : PendingWrite}

theorem Change.ordered_applyTo (change : Change) (key : String) (h : entries.Ordered) :
    (change.applyTo key entries).Ordered := by
  cases change with
  | put value => exact h.insert key value
  | remove => exact h.erase key

theorem Change.get?_applyTo_ne (change : Change) {key key' : String} (h : key' ≠ key)
    (entries : Entries) : (change.applyTo key entries).get? key' = entries.get? key' := by
  cases change with
  | put value => exact Table.get?_insert_ne entries value h
  | remove => exact Table.get?_erase_ne entries h

namespace PendingWrite

/-- The entries of a cache after writes. -/
def contentAfter (content : String → CacheContent) (ws : List PendingWrite) (name : String) :
    CacheContent :=
  ws.foldl (fun entries w =>
    if w.cache.name = name then entries.map (w.change.applyTo w.key) else entries) (content name)

@[simp] theorem contentAfter_nil (content : String → CacheContent) (name : String) :
    contentAfter content [] name = content name := rfl

theorem contentAfter_concat (content : String → CacheContent) (ws : List PendingWrite)
    (w : PendingWrite) (name : String) : contentAfter content (ws ++ [w]) name =
      if w.cache.name = name then (contentAfter content ws name).map (w.change.applyTo w.key)
      else contentAfter content ws name :=
  List.foldl_append ..

theorem contentAfter_append (content : String → CacheContent) (xs ys : List PendingWrite) :
    contentAfter content (xs ++ ys) = contentAfter (contentAfter content xs) ys :=
  funext fun _ => List.foldl_append ..

theorem contentAfter_congr {content content' : String → CacheContent}
    (h : content name = content' name) (ws : List PendingWrite) :
    contentAfter content ws name = contentAfter content' ws name := by
  rw [contentAfter, contentAfter, h]

theorem ordered_contentAfter (hord : ∀ {entries}, content name = .ok entries → entries.Ordered)
    (h : contentAfter content ws name = .ok entries) : entries.Ordered := by
  induction ws using List.reverseRecOn generalizing entries with
  | nil => exact hord h
  | append_singleton ws w ih =>
    rw [contentAfter_concat] at h
    split at h
    · obtain ⟨before, hbefore, rfl⟩ := CacheContent.map_eq_ok h
      exact w.change.ordered_applyTo w.key (ih hbefore)
    · exact ih h

theorem contentAfter_of_error {bytes : Bytes} (h : content name = .error bytes)
    (ws : List PendingWrite) : contentAfter content ws name = .error bytes := by
  induction ws using List.reverseRecOn with
  | nil => exact h
  | append_singleton ws w ih =>
    rw [contentAfter_concat, ih]
    split <;> rfl

theorem get?_applyTo_self (w : PendingWrite) (h : entries.Ordered) :
    (w.change.applyTo w.key entries).get? w.key = w.visibleValue := by
  unfold Change.applyTo visibleValue
  cases w.change with
  | put value => exact Table.get?_insert_self entries w.key value
  | remove =>
    show (entries.erase w.key).get? w.key = none
    rw [h.get?_erase, if_pos rfl]

theorem targets_iff {cache : CacheIdentity} :
    w.targets cache key = true ↔ w.key = key ∧ w.cache.name = cache.name := by
  simp [targets]

end PendingWrite

namespace PendingRead

/-- What a read gets after writes. -/
def valueAfter (content : String → CacheContent) (earlier : List PendingWrite)
    (read : PendingRead) : Option Bytes :=
  match earlier.reverse.find? (·.targets read.cache read.key) with
  | some w => w.visibleValue
  | none => (content read.cache.name).toOption.bind (·.get? read.key)

theorem valueAfter_concat (content : String → CacheContent) (ws : List PendingWrite)
    (w : PendingWrite) (read : PendingRead) : read.valueAfter content (ws ++ [w]) =
      if w.targets read.cache read.key then w.visibleValue else read.valueAfter content ws := by
  unfold valueAfter
  rw [List.reverse_concat, List.find?_cons]
  cases w.targets read.cache read.key <;> rfl

theorem valueAfter_append (content : String → CacheContent) (ws newer : List PendingWrite)
    (read : PendingRead) : read.valueAfter content (ws ++ newer) =
      match newer.reverse.find? (·.targets read.cache read.key) with
      | some w => w.visibleValue
      | none => read.valueAfter content ws := by
  unfold valueAfter
  rw [List.reverse_append, List.find?_append]
  cases newer.reverse.find? (·.targets read.cache read.key) <;> rfl

/-- The key of a read has, after writes, what the read gets. -/
theorem get?_contentAfter (read : PendingRead)
    (hord : ∀ {entries}, content read.cache.name = .ok entries → entries.Ordered)
    (h : PendingWrite.contentAfter content ws read.cache.name = .ok entries) :
    entries.get? read.key = read.valueAfter content ws := by
  induction ws using List.reverseRecOn generalizing entries with
  | nil =>
    rw [PendingWrite.contentAfter_nil] at h
    rw [valueAfter, List.reverse_nil, List.find?_nil, h]
    rfl
  | append_singleton ws w ih =>
    rw [PendingWrite.contentAfter_concat] at h
    rw [valueAfter_concat]
    by_cases hname : w.cache.name = read.cache.name
    · rw [if_pos hname] at h
      obtain ⟨before, hbefore, rfl⟩ := CacheContent.map_eq_ok h
      by_cases hkey : w.key = read.key
      · rw [if_pos (PendingWrite.targets_iff.mpr ⟨hkey, hname⟩), ← hkey,
          w.get?_applyTo_self (PendingWrite.ordered_contentAfter hord hbefore)]
      · rw [if_neg (fun ht => hkey (PendingWrite.targets_iff.mp ht).1),
          w.change.get?_applyTo_ne (Ne.symm hkey), ih hbefore]
    · rw [if_neg hname] at h
      rw [if_neg (fun ht => hname (PendingWrite.targets_iff.mp ht).2), ih h]

end PendingRead

namespace Request

/-- The writes among requests. -/
def writes (requests : List Request) : List PendingWrite :=
  requests.filterMap fun
    | .write w => some w
    | _ => none

theorem writes_append (xs ys : List Request) : writes (xs ++ ys) = writes xs ++ writes ys :=
  List.filterMap_append ..

/-- What the reads among requests get, if every request waits for the ones before it. -/
def answersInOrder (content : String → CacheContent) :
    (earlier : List PendingWrite) → List Request → List (Token × Option Bytes)
  | _, [] => []
  | earlier, .read r :: requests =>
    (r.token, r.valueAfter content earlier) :: answersInOrder content earlier requests
  | earlier, .write w :: requests => answersInOrder content (earlier ++ [w]) requests
  | earlier, .stop :: requests => answersInOrder content earlier requests

theorem answersInOrder_append (content : String → CacheContent) (earlier : List PendingWrite)
    (xs ys : List Request) : answersInOrder content earlier (xs ++ ys) =
      answersInOrder content earlier xs ++ answersInOrder content (earlier ++ writes xs) ys := by
  induction xs generalizing earlier with
  | nil => simp [answersInOrder, writes]
  | cons request xs ih =>
    cases request with
    | read r =>
      rw [List.cons_append, answersInOrder, answersInOrder, ih]
      rfl
    | write w =>
      rw [List.cons_append, answersInOrder, answersInOrder, ih, List.append_assoc]
      rfl
    | stop =>
      rw [List.cons_append, answersInOrder, answersInOrder, ih]
      rfl

theorem tokens_answersInOrder (content : String → CacheContent) (earlier : List PendingWrite)
    (requests : List Request) :
    (answersInOrder content earlier requests).map (·.1) = readTokens requests := by
  induction requests generalizing earlier with
  | nil => rfl
  | cons request requests ih =>
    cases request with
    | read r => exact congrArg (r.token :: ·) (ih earlier)
    | write w => exact ih (earlier ++ [w])
    | stop => exact ih earlier

theorem readTokens_append (xs ys : List Request) :
    readTokens (xs ++ ys) = readTokens xs ++ readTokens ys :=
  List.filterMap_append ..

theorem mem_writes {w : PendingWrite} {requests : List Request} :
    w ∈ writes requests ↔ .write w ∈ requests := by
  refine List.mem_filterMap.trans ⟨?_, fun h => ⟨_, h, rfl⟩⟩
  rintro ⟨request, hmem, hwrite⟩
  cases request with
  | write w' =>
    cases hwrite
    exact hmem
  | _ => cases hwrite

/-- The cache that a request is about is one of these. -/
def Names (names : String → Prop) : Request → Prop
  | .read r => names r.cache.name
  | .write w => names w.cache.name
  | .stop => True

end Request

end HistoryKeeper
