import HistoryKeeper.Keeper.Identity
import HistoryKeeper.Proofs.Disk.Tree
import HistoryKeeper.Store.CacheFile

/-!
# Files of a store that cannot be mistaken for one another

The last letter of a path's text is the last letter of its location (`Path.endsWith_location`). So the
lock's file, temporary files and the files that keepers name for their caches are apart: their names
end in a `k`, in a digit and in an `n`.
-/

namespace HistoryKeeper

theorem Text.pieces_concat {separator c : Char} (h : c ≠ separator) (cs : List Char) :
    ∃ front last, Text.pieces separator cs = front ++ [last] ∧
      Text.pieces separator (cs ++ [c]) = front ++ [last ++ [c]] := by
  induction cs with
  | nil => exact ⟨[], [], rfl, by simp [pieces, h]⟩
  | cons x cs ih =>
    obtain ⟨front, last, h₁, h₂⟩ := ih
    rw [List.cons_append, pieces, pieces]
    by_cases hx : x = separator
    · rw [if_pos hx, if_pos hx, h₁, h₂]
      exact ⟨[] :: front, last, rfl, rfl⟩
    · rw [if_neg hx, if_neg hx, h₁, h₂]
      cases front with
      | nil => exact ⟨[], x :: last, rfl, rfl⟩
      | cons piece front => exact ⟨(x :: piece) :: front, last, rfl, rfl⟩

namespace Path

/-- The last name of a location ends in this letter. -/
def EndsWith (l : Location) (c : Char) : Prop :=
  ∃ front name, l = front ++ [name] ∧ name.toList.getLast? = some c

theorem EndsWith.unique {l : Location} {c c' : Char} (h : EndsWith l c) (h' : EndsWith l c') :
    c = c' := by
  obtain ⟨front, name, rfl, hc⟩ := h
  obtain ⟨front', name', he, hc'⟩ := h'
  obtain ⟨-, hname⟩ := List.append_inj' he rfl
  cases hname
  rw [hc] at hc'
  exact Option.some.inj hc'

theorem endsWith_location {p : Path} {c : Char} (h : p.text.toList.getLast? = some c)
    (hslash : c ≠ '/') (hdot : c ≠ '.') (home : Location) : EndsWith (p.location home) c := by
  obtain ⟨cs, hcs⟩ := List.getLast?_eq_some_iff.mp h
  obtain ⟨front, last, -, hpieces⟩ := Text.pieces_concat hslash cs
  have hsegments : p.segments = ((front.filter (!·.isEmpty)).map String.ofList) ++
      [String.ofList (last ++ [c])] := by
    rw [segments, hcs, hpieces, List.filter_append, List.filter_cons_of_pos (by simp),
      List.filter_nil, List.map_append]
    rfl
  have hne : ∀ s : String, s.toList.getLast? = some '.' → String.ofList (last ++ [c]) ≠ s := by
    rintro s hs rfl
    rw [String.toList_ofList, List.getLast?_concat] at hs
    exact hdot (Option.some.inj hs)
  refine ⟨walk (p.start home) ((front.filter (!·.isEmpty)).map String.ofList),
    String.ofList (last ++ [c]), ?_, ?_⟩
  · rw [location, hsegments, walk_append, walk_cons, walk_nil, advance, if_neg (hne "." rfl),
      if_neg (hne ".." rfl)]
  · rw [String.toList_ofList, List.getLast?_concat]

theorem getLast?_join {rest : String} {c : Char} (base : Path) (h : rest.toList.getLast? = some c) :
    (base.join rest).text.toList.getLast? = some c := by
  unfold join
  split
  · exact h
  · split
    · rw [String.toList_append, List.getLast?_append, h]
      rfl
    · rw [String.toList_append, List.getLast?_append, h]
      rfl

theorem getLast?_withFileName {name : String} {c : Char} (p : Path)
    (h : name.toList.getLast? = some c) : (p.withFileName name).text.toList.getLast? = some c := by
  unfold withFileName
  split <;> exact getLast?_join _ h

end Path

open HistoryKeeper.Path (EndsWith)

theorem endsWith_lock (dir : Path) (home : Location) :
    EndsWith ((dir.join DirectoryLock.fileName).location home) 'k' :=
  Path.endsWith_location (Path.getLast?_join dir (by decide)) (by decide) (by decide) home

theorem endsWith_cacheFile (dir : Path) (cache : CacheIdentity) (home : Location) :
    EndsWith ((dir.join cache.fileName).location home) 'n' := by
  have hname : cache.fileName.toList.getLast? = some 'n' := by
    rw [CacheIdentity.fileName, String.toList_append, List.getLast?_append]
    rfl
  exact Path.endsWith_location (Path.getLast?_join dir hname) (by decide) (by decide) home

theorem endsWith_temporary (p : Path) (processId : Nat) (home : Location) :
    ∃ c, c.isDigit = true ∧ EndsWith ((CacheFile.temporary p processId).location home) c := by
  have hdigits : ∃ c, c.isDigit = true ∧ (Decimal.digits processId).getLast? = some c := by
    have hne : Decimal.digits processId ≠ [] := Nat.toDigits_ne_nil
    exact ⟨_, Nat.isDigit_of_mem_toDigits (by decide) (by decide) (List.getLast_mem hne),
      List.getLast?_eq_some_getLast hne⟩
  obtain ⟨c, hdigit, hlast⟩ := hdigits
  refine ⟨c, hdigit, Path.endsWith_location (Path.getLast?_withFileName p ?_) ?_ ?_ home⟩
  · rw [String.toList_append, List.getLast?_append, String.toList_ofList, hlast]
    rfl
  · rintro rfl
    exact absurd hdigit (by decide)
  · rintro rfl
    exact absurd hdigit (by decide)

end HistoryKeeper
