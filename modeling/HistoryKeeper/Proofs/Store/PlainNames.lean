import HistoryKeeper.Proofs.Disk.Below
import HistoryKeeper.Proofs.Store.SiteView

/-!
# Plain names

A name without a slash is one file name below the base directory, so different plain names have
different files (`AnyStore.distinctFiles_of_plain`). Nothing more has to be known of them, but for
stores on disk that the base directory does not lead back up through a directory that is missing.
-/

namespace HistoryKeeper

variable {name m n : String} {dir : Path} {names : String → Prop} {home : Location} {d : Disk}

/-- There is no slash in the name. -/
def PlainName (name : String) : Prop :=
  '/' ∉ name.toList

instance (name : String) : Decidable (PlainName name) :=
  inferInstanceAs (Decidable ('/' ∉ name.toList))

namespace PlainName

theorem not_mem_fileName (h : PlainName name) : '/' ∉ (name ++ ".bin").toList := by
  rw [String.toList_append, List.mem_append]
  rintro (hmem | hmem)
  · exact h hmem
  · exact absurd hmem (by decide)

/-- The name of a file is neither of the two that lead elsewhere. -/
theorem fileName_ne (name : String) : name ++ ".bin" ≠ "." ∧ name ++ ".bin" ≠ ".." := by
  have hlast : ∀ s : String, s.toList.getLast? = some '.' → name ++ ".bin" ≠ s := by
    rintro s hs rfl
    have hn : ".bin".toList.getLast? = some 'n' := rfl
    rw [String.toList_append, List.getLast?_append, hn, Option.some_or] at hs
    exact absurd hs (by decide)
  exact ⟨hlast "." rfl, hlast ".." rfl⟩

theorem segments (h : PlainName name) : Path.segments ⟨name ++ ".bin"⟩ = [name ++ ".bin"] := by
  rw [Path.segments, Text.pieces_of_not_mem h.not_mem_fileName, List.filter_cons_of_pos (by simp),
    List.filter_nil, List.map_singleton, String.ofList_toList]

theorem isAbsolute (h : PlainName name) : Path.isAbsolute ⟨name ++ ".bin"⟩ = false := by
  refine decide_eq_false fun hslash => ?_
  exact h.not_mem_fileName (List.mem_of_head? hslash)

theorem location (h : PlainName name) (dir : Path) (home : Location) :
    (cachePath dir name).location home = dir.location home ++ [name ++ ".bin"] := by
  obtain ⟨hdot, hup⟩ := fileName_ne name
  rw [cachePath, Path.location_join dir h.isAbsolute, h.segments, Path.walk_cons, Path.walk_nil,
    Path.advance, if_neg hdot, if_neg hup]

theorem eq_of_location (hm : PlainName m) (hn : PlainName n)
    (h : (cachePath dir m).location home = (cachePath dir n).location home) : m = n := by
  rw [hm.location, hn.location] at h
  have hfile : m ++ ".bin" = n ++ ".bin" := by simpa using h
  have hlists := congrArg String.toList hfile
  rw [String.toList_append, String.toList_append] at hlists
  exact String.toList_injective (List.append_cancel_right hlists)

end PlainName

theorem MemoryStore.distinctNames_of_plain (h : ∀ n, names n → PlainName n) :
    MemoryStore.DistinctNames names :=
  fun m n hm hn hsame => (h m hm).eq_of_location (h n hn) (Path.location_of_same hsame [])

theorem FileStore.distinctFiles_of_plain (hd : d.WellFormed) (hdir : ".." ∉ dir.segments)
    (h : ∀ n, names n → PlainName n) : FileStore.DistinctFiles dir names d := by
  refine ⟨hd, fun n hn => Disk.shows_of_no_up hd ?_, fun m n hm hn => (h m hm).eq_of_location (h n hn)⟩
  rw [cachePath, Path.segments_join dir (h n hn).isAbsolute, (h n hn).segments]
  intro hmem
  rcases List.mem_append.mp hmem with hmem | hmem
  · exact hdir hmem
  · exact (PlainName.fileName_ne n).2 (List.mem_singleton.mp hmem).symm

theorem AnyStore.distinctFiles_of_plain {site : Site} (kind : StoreKind) (hd : site.disk.WellFormed)
    (hdir : ".." ∉ dir.segments) (h : ∀ n, names n → PlainName n) :
    AnyStore.DistinctFiles kind dir names site := by
  cases kind with
  | memory => exact MemoryStore.distinctNames_of_plain h
  | file => exact FileStore.distinctFiles_of_plain hd hdir h

end HistoryKeeper
