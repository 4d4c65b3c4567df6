import HistoryKeeper.Proofs.Disk.Operations

/-!
# Paths below a directory

`Path.Below dir p`: the components of `p` are those of `dir` and then names, so that `p` leads to a place
below that of `dir` (`Below.location`). Two of them that lead to one place are the same path in two
spellings (`Below.same`). The files that are asked for by `join` are of this kind (`below_join`).

Once the directories on the way to `dir` are there (`Disk.Reaches`), every path below it is settled,
whether the text of `dir` goes up somewhere or not (`Disk.Reaches.settled`).
-/

namespace HistoryKeeper

theorem Text.pieces_append (separator : Char) (cs cs' : List Char) :
    Text.pieces separator (cs ++ separator :: cs') =
      Text.pieces separator cs ++ Text.pieces separator cs' := by
  induction cs with
  | nil => simp [pieces]
  | cons c cs ih =>
    by_cases hc : c = separator
    · rw [List.cons_append, pieces, pieces, if_pos hc, if_pos hc, ih]
      rfl
    · obtain ⟨piece, rest, hpieces⟩ := List.exists_cons_of_ne_nil (pieces_ne_nil separator cs)
      rw [List.cons_append, pieces, pieces, if_neg hc, if_neg hc, ih, hpieces]
      rfl

theorem Text.pieces_of_not_mem {separator : Char} {cs : List Char} (h : separator ∉ cs) :
    Text.pieces separator cs = [cs] := by
  induction cs with
  | nil => rfl
  | cons c cs ih =>
    rw [List.mem_cons, not_or] at h
    rw [pieces, if_neg (Ne.symm h.1), ih h.2]

namespace Path

variable {dir base p q : Path} {rest : String} {cs cs' : List Char}

theorem segments_of_slash (h : p.text.toList = cs ++ '/' :: cs') :
    p.segments = segments ⟨String.ofList cs⟩ ++ segments ⟨String.ofList cs'⟩ := by
  simp only [segments, h, String.toList_ofList, Text.pieces_append, List.filter_append,
    List.map_append]

theorem segments_join (base : Path) (hrest : isAbsolute ⟨rest⟩ = false) :
    (base.join rest).segments = base.segments ++ segments ⟨rest⟩ := by
  unfold join
  rw [if_neg (by simp [hrest])]
  split
  · rename_i hbase
    rcases Bool.or_eq_true _ _ |>.mp hbase with hempty | hslash
    · have htext : base.text = "" := by simpa using hempty
      have hnone : base.segments = [] := by rw [segments, htext]; rfl
      rw [hnone, htext, String.empty_append, List.nil_append]
    · obtain ⟨cs, hcs⟩ := List.getLast?_eq_some_iff.mp (of_decide_eq_true hslash)
      have hbase : base.segments = segments ⟨String.ofList cs⟩ := by
        rw [segments_of_slash hcs]
        exact List.append_nil _
      have htext : (Path.mk (base.text ++ rest)).text.toList = cs ++ '/' :: rest.toList := by
        rw [String.toList_append, hcs, List.append_assoc]
        rfl
      rw [hbase, segments_of_slash htext, String.ofList_toList]
  · have htext : (Path.mk (base.text ++ "/" ++ rest)).text.toList =
        base.text.toList ++ '/' :: rest.toList := by
      simp only [String.toList_append, List.append_assoc]
      rfl
    rw [segments_of_slash htext, String.ofList_toList, String.ofList_toList]

theorem isAbsolute_join (base : Path) (hrest : isAbsolute ⟨rest⟩ = false) :
    (base.join rest).isAbsolute = base.isAbsolute := by
  unfold join
  rw [if_neg (by simp [hrest])]
  by_cases hempty : base.text = ""
  · rw [if_pos (by simp [hempty]), hempty, String.empty_append, hrest, isAbsolute, hempty]
    rfl
  · have hne : base.text.toList ≠ [] := by simpa using hempty
    obtain ⟨c, cs, hcs⟩ := List.exists_cons_of_ne_nil hne
    split <;> simp [isAbsolute, String.toList_append, hcs]

theorem location_join (base : Path) (hrest : isAbsolute ⟨rest⟩ = false) (home : Location) :
    (base.join rest).location home = walk (base.location home) (segments ⟨rest⟩) := by
  rw [location, location, start, start, isAbsolute_join base hrest, segments_join base hrest,
    walk_append]

/-- What stands before the names of a path. -/
def front (p : Path) : List Component :=
  if p.isAbsolute then [.root] else if p.segments.head? = some "." then [.here] else []

def body (p : Path) : List Component :=
  p.segments.filterMap componentOf

theorem components_eq (p : Path) : p.components = p.front ++ p.body := rfl

def isFront : Component → Bool
  | .root | .here => true
  | _ => false

theorem front_eq_filter (p : Path) : p.front = p.components.filter isFront ∧
    p.body = p.components.filter (!isFront ·) := by
  have hfront : ∀ c ∈ p.front, isFront c = true := by
    unfold front
    split
    · simp [isFront]
    · split <;> simp [isFront]
  have hbody : ∀ c ∈ p.body, isFront c = false := by
    intro c hc
    obtain ⟨s, -, hs⟩ := List.mem_filterMap.mp hc
    unfold componentOf at hs
    split at hs
    · cases hs
    · split at hs <;> cases hs <;> rfl
  rw [components_eq, List.filter_append, List.filter_append]
  refine ⟨?_, ?_⟩
  · rw [List.filter_eq_self.mpr hfront, List.filter_eq_nil_iff.mpr (by simpa using hbody),
      List.append_nil]
  · rw [List.filter_eq_nil_iff.mpr (by simpa using hfront), List.filter_eq_self.mpr (by simpa using hbody),
      List.nil_append]

theorem start_eq_foldl (home : Location) (p : Path) : p.start home = p.front.foldl follow home := by
  unfold start front
  split
  · rfl
  · split <;> rfl

theorem foldl_follow_names (l : Location) (names : List String) :
    (names.map Component.name).foldl follow l = l ++ names := by
  induction names generalizing l with
  | nil => exact (List.append_nil l).symm
  | cons s names ih => rw [List.map_cons, List.foldl_cons, ih, follow, List.append_assoc]; rfl

theorem filter_front_names (names : List String) :
    (names.map Component.name).filter isFront = [] ∧
      (names.map Component.name).filter (!isFront ·) = names.map .name := by
  refine ⟨List.filter_eq_nil_iff.mpr ?_, List.filter_eq_self.mpr ?_⟩ <;>
  · intro c hc
    obtain ⟨s, -, rfl⟩ := List.mem_map.mp hc
    simp [isFront]

/-! ### Below a directory -/

/-- The path goes on from the directory, down and never up. -/
def Below (dir p : Path) : Prop :=
  ∃ names : List String, p.components = dir.components ++ names.map .name

theorem below_join (hdir : dir.text.isEmpty = false) (hrest : isAbsolute ⟨rest⟩ = false)
    (hup : ".." ∉ segments ⟨rest⟩) : Below dir (dir.join rest) := by
  have hnames : ∀ segments : List String, ".." ∉ segments →
      segments.filterMap componentOf = (segments.filter (· ≠ ".")).map Component.name := by
    intro segments
    induction segments with
    | nil => exact fun _ => rfl
    | cons s segments ih =>
      intro hs
      rw [List.mem_cons, not_or] at hs
      by_cases hdot : s = "."
      · rw [List.filterMap_cons_none (by rw [componentOf, if_pos hdot]), ih hs.2,
          List.filter_cons_of_neg (by simpa using hdot)]
      · rw [List.filterMap_cons_some (by rw [componentOf, if_neg hdot, if_neg (Ne.symm hs.1)]),
          ih hs.2, List.filter_cons_of_pos (by simpa using hdot), List.map_cons]
  have hfront : (dir.join rest).front = dir.front := by
    unfold front
    rw [isAbsolute_join dir hrest, segments_join dir hrest]
    cases habs : dir.isAbsolute with
    | true => rfl
    | false =>
      obtain ⟨s, segments, hs⟩ := List.exists_cons_of_ne_nil (segments_ne_nil habs hdir)
      rw [hs]
      rfl
  refine ⟨(segments ⟨rest⟩).filter (· ≠ "."), ?_⟩
  rw [components_eq, components_eq, hfront, List.append_assoc, ← hnames _ hup, body, body,
    segments_join dir hrest, List.filterMap_append]

namespace Below

theorem start (h : Below dir p) (home : Location) : p.start home = dir.start home := by
  obtain ⟨names, hnames⟩ := h
  rw [start_eq_foldl, start_eq_foldl, (front_eq_filter p).1, (front_eq_filter dir).1, hnames,
    List.filter_append, (filter_front_names names).1, List.append_nil]

theorem body (h : Below dir p) : ∃ names : List String, p.body = dir.body ++ names.map .name := by
  obtain ⟨names, hnames⟩ := h
  refine ⟨names, ?_⟩
  rw [(front_eq_filter p).2, (front_eq_filter dir).2, hnames, List.filter_append,
    (filter_front_names names).2]

theorem location (h : Below dir p) (home : Location) :
    ∃ names : List String, p.components = dir.components ++ names.map .name ∧
      p.location home = dir.location home ++ names := by
  obtain ⟨names, hnames⟩ := h
  refine ⟨names, hnames, ?_⟩
  rw [location_eq_foldl, hnames, List.foldl_append, ← location_eq_foldl, foldl_follow_names]

/-- Paths below one directory that lead to one place are spellings of one path. -/
theorem same (hp : Below dir p) (hq : Below dir q) {home : Location}
    (h : p.location home = q.location home) : p.same q = true := by
  obtain ⟨names, hnames, hloc⟩ := hp.location home
  obtain ⟨names', hnames', hloc'⟩ := hq.location home
  have he : names = names' := List.append_cancel_left (hloc.symm.trans (h.trans hloc'))
  exact decide_eq_true (by rw [hnames, hnames', he])

end Below

end Path

namespace Disk

open HistoryKeeper.Path (walk Below)

variable {changed : Location → Prop} {d d' : Disk} {dir p : Path}

/-- The directory is there, and all others that its path leads through. -/
def Reaches (d : Disk) (dir : Path) : Prop :=
  ∀ pre, pre <+: dir.segments → d.node? (walk (dir.start d.home) pre) = some .directory

theorem Reaches.mono (h : d.Reaches dir) (hhome : d'.home = d.home)
    (hdirs : ∀ {l}, d.node? l = some .directory → d'.node? l = some .directory) : d'.Reaches dir := by
  intro pre hpre
  rw [hhome]
  exact hdirs (h pre hpre)

/-- Who can pass a path below a directory can go to the directory. -/
theorem reaches_of_passable {rest : String} (hrelative : Path.isAbsolute ⟨rest⟩ = false)
    (hne : Path.segments ⟨rest⟩ ≠ [])
    (hpass : d.Passable ((dir.join rest).start d.home) (dir.join rest).segments) : d.Reaches dir := by
  rintro pre ⟨post, hpost⟩
  rw [Path.start, Path.isAbsolute_join dir hrelative, Path.segments_join dir hrelative, ← hpost,
    List.append_assoc] at hpass
  obtain ⟨s, more, hmore⟩ := List.exists_cons_of_ne_nil (List.append_ne_nil_of_right_ne_nil post hne)
  exact hpass pre s more (by rw [hmore])

theorem Reaches.settled (h : d.Reaches dir) (hp : Below dir p) : d.Settled p := by
  intro pre post he
  obtain ⟨names, hbody⟩ := hp.body
  have hpre : pre.filterMap Path.componentOf <+: dir.body ++ names.map .name := by
    rw [← hbody, Path.body, he, List.filterMap_append]
    exact List.prefix_append ..
  rw [hp.start, Path.walk_eq_foldl]
  -- the names so far end inside the path of the directory, or below it
  rcases List.prefix_or_prefix_of_prefix hpre (List.prefix_append ..) with hinside | hbeyond
  · right
    obtain ⟨pre', hpre', heq⟩ := List.prefix_filterMap_iff.mp hinside
    rw [heq, ← Path.walk_eq_foldl]
    exact h pre' hpre'
  · left
    obtain ⟨more, hmore⟩ := hbeyond
    rw [← hmore, List.prefix_append_right_inj] at hpre
    obtain ⟨names', hnames', rfl⟩ := List.prefix_map_iff.mp hpre
    rw [Path.location, Path.walk_eq_foldl, hp.start, show p.segments.filterMap Path.componentOf = p.body from rfl,
      hbody, ← hmore, List.foldl_append, List.foldl_append, Path.foldl_follow_names,
      Path.foldl_follow_names, List.prefix_append_right_inj]
    exact hnames'

end Disk

end HistoryKeeper
