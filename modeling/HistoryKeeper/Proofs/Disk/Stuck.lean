import HistoryKeeper.Proofs.Disk.Again
import HistoryKeeper.Proofs.Disk.Below

/-!
# Directories that cannot be made

`createDirs` keeps the directories that it made before it failed, so it might seem to get further the next
time. It does not: a directory that could not be made cannot be made afterwards either
(`createDirsWithin_error_again`). For what it makes on the way are parents of the path, and where a path can be
passed its parents are directories already (`isDirectory_parent`).
-/

namespace HistoryKeeper

namespace Path

variable {p q : Path} {c : Component} {cs : List Component} {s : String}

/-- The text of a component. -/
def Component.text : Component → String
  | .root => "/"
  | .here => "."
  | .up => ".."
  | .name s => s

theorem text_of_componentOf (h : componentOf s = some c) : c.text = s := by
  unfold componentOf at h
  split at h
  · cases h
  · split at h
    · rename_i hup
      cases h
      exact hup.symm
    · cases h
      rfl

theorem segments_of_mem_segments (h : s ∈ p.segments) :
    segments ⟨s⟩ = [s] ∧ isAbsolute ⟨s⟩ = false := by
  obtain ⟨cs, hcs, rfl⟩ := List.mem_map.mp h
  obtain ⟨hpiece, hne⟩ := List.mem_filter.mp hcs
  have hslash := Text.not_mem_of_mem_pieces hpiece
  constructor
  · rw [segments, String.toList_ofList, Text.pieces_of_not_mem hslash,
      List.filter_eq_self.mpr (by simpa using hne), List.map_singleton]
  · refine decide_eq_false fun hhead => hslash ?_
    rw [String.toList_ofList] at hhead
    exact List.mem_of_head? hhead

/-- A component behind the first one comes from a name of the path. -/
theorem exists_segment_of_mem_components (hc : c ∈ p.components) (hroot : c ≠ .root) :
    c = .here ∨ ∃ s ∈ p.segments, componentOf s = some c := by
  rw [components_eq, List.mem_append] at hc
  rcases hc with hfront | hbody
  · left
    unfold front at hfront
    split at hfront
    · exact absurd (List.mem_singleton.mp hfront) hroot
    · split at hfront
      · exact List.mem_singleton.mp hfront
      · cases hfront
  · exact Or.inr (List.mem_filterMap.mp hbody)

theorem ofComponents_concat (cs : List Component) (hroot : c ≠ .root) :
    ofComponents (cs ++ [c]) = (ofComponents cs).join c.text := by
  unfold ofComponents
  rw [List.foldl_append]
  cases c with
  | root => exact absurd rfl hroot
  | _ => rfl

theorem not_isFront_of_prefix (h : cs ++ [c] <+: p.components) (hcs : cs ≠ []) : isFront c = false := by
  obtain ⟨x, cs, rfl⟩ := List.exists_cons_of_ne_nil hcs
  have hlength : p.front.length ≤ 1 := by
    unfold front
    split
    · exact Nat.le_refl 1
    · split
      · exact Nat.le_refl 1
      · exact Nat.zero_le 1
  have hbody : c ∈ p.body := by
    rw [components_eq] at h
    cases hfront : p.front with
    | nil =>
      rw [hfront, List.nil_append] at h
      exact h.subset (List.mem_append_right _ (List.mem_singleton_self c))
    | cons f front =>
      rw [hfront, List.length_cons] at hlength
      have hnil : front = [] := List.eq_nil_of_length_eq_zero (by omega)
      rw [hfront, hnil] at h
      have hrest : cs ++ [c] <+: p.body := (List.cons_prefix_cons.mp h).2
      exact hrest.subset (List.mem_append_right _ (List.mem_singleton_self c))
  rw [(front_eq_filter p).2] at hbody
  simpa using (List.mem_filter.mp hbody).2

/-- Whatever a path has behind its root is spelled as one name. -/
theorem segments_of_mem_components (hc : c ∈ p.components) (hroot : c ≠ .root) :
    segments ⟨c.text⟩ = [c.text] ∧ isAbsolute ⟨c.text⟩ = false ∧ (c.text = "." ∨ c.text ∈ p.segments) ∧
      [c.text].filterMap componentOf = [c].filter (!isFront ·) := by
  rcases exists_segment_of_mem_components hc hroot with rfl | ⟨s, hs, hcomponent⟩
  · exact ⟨by decide, by decide, .inl rfl, rfl⟩
  · cases text_of_componentOf hcomponent
    obtain ⟨hsegments, habsolute⟩ := segments_of_mem_segments hs
    have hname : isFront c = false := by
      cases c with
      | root | here => exact absurd hcomponent (by decide)
      | _ => rfl
    refine ⟨hsegments, habsolute, .inr hs, ?_⟩
    rw [List.filterMap_cons_some hcomponent, List.filter_cons_of_pos (by simp [hname])]
    rfl

/-- The front of a path, spelled out: it starts where the path does, has the same components, and no
new names. -/
theorem ofComponents_spec (h : cs <+: p.components) :
    ((ofComponents cs).isAbsolute = decide (cs.head? = some .root)) ∧
      (ofComponents cs).body = cs.filter (!isFront ·) ∧
      ∀ s ∈ (ofComponents cs).segments, s = "." ∨ s ∈ p.segments := by
  induction cs using List.reverseRecOn with
  | nil => exact ⟨rfl, rfl, nofun⟩
  | append_singleton cs c ih =>
    obtain ⟨habs, hbody, hnames⟩ := ih ((List.prefix_append ..).trans h)
    by_cases hroot : c = .root
    · subst hroot
      have hnil : cs = [] := by
        by_contra hne
        cases not_isFront_of_prefix h hne
      subst hnil
      exact ⟨rfl, rfl, nofun⟩
    · have hc : c ∈ p.components := h.subset (List.mem_append_right _ (List.mem_singleton_self c))
      obtain ⟨hsegments, habsolute, hname, hcomponents⟩ := segments_of_mem_components hc hroot
      rw [ofComponents_concat cs hroot]
      refine ⟨?_, ?_, fun s hs => ?_⟩
      · rw [isAbsolute_join _ habsolute, habs]
        cases cs with
        | nil => simp [hroot]
        | cons c' cs => rfl
      · rw [body, segments_join _ habsolute, List.filterMap_append, List.filter_append, ← hbody, hsegments,
          hcomponents]
        rfl
      · rw [segments_join _ habsolute, hsegments, List.mem_append, List.mem_singleton] at hs
        rcases hs with hs | rfl
        · exact hnames s hs
        · exact hname

theorem isAbsolute_eq_head? (p : Path) : p.isAbsolute = decide (p.components.head? = some .root) := by
  rw [components_eq]
  cases habs : p.isAbsolute with
  | true =>
    rw [front, if_pos habs]
    rfl
  | false =>
    refine (decide_eq_false fun hhead => ?_).symm
    rcases List.mem_append.mp (List.mem_of_head? hhead) with hfront | hbody
    · rw [front, habs, if_neg (by decide)] at hfront
      split at hfront
      · cases List.mem_singleton.mp hfront
      · cases hfront
    · rw [(front_eq_filter p).2] at hbody
      cases (List.mem_filter.mp hbody).2

theorem exists_of_parent? (h : p.parent? = some q) :
    ∃ cs c, p.components = cs ++ [c] ∧ q = ofComponents cs := by
  unfold parent? at h
  split at h
  · cases h
  · cases h
  · rename_i c rest _ hrev
    cases h
    refine ⟨rest.reverse, c, ?_, rfl⟩
    rw [← List.reverse_reverse p.components, hrev, List.reverse_cons]

/-- What keeps a path from being looked up at all. -/
structure Readable (p : Path) : Prop where
  noNul : p.text.toList.contains '\x00' = false
  length : p.text.utf8ByteSize ≤ Disk.longestPath

theorem fits_parent (hp : p.Fits) (h : p.parent? = some q) (hq : q.Readable)
    (hne : q.text.isEmpty = false) : q.Fits := by
  obtain ⟨cs, c, hcs, rfl⟩ := exists_of_parent? h
  have hprefix : cs <+: p.components := ⟨[c], hcs.symm⟩
  obtain ⟨-, -, hnames⟩ := ofComponents_spec hprefix
  refine ⟨hq.noNul, hne, hq.length, fun s hs => ?_⟩
  rcases hnames s hs with rfl | hs
  · decide
  · exact hp.names s hs

end Path

namespace Disk

open HistoryKeeper.Path (walk Readable ofComponents ofComponents_spec isFront target)

variable {d d' d'' : Disk} {p q : Path} {e : IoFault} {fuel : Nat}

theorem isDirectory_of_reaches (h : d.Reaches p) (hfits : p.Fits) : d.isDirectory p = true :=
  isDirectory_iff.mpr (stat_eq_directory_iff.mpr
    ⟨hfits, fun pre s post he => h pre ⟨s :: post, he.symm⟩, h p.segments List.prefix_rfl⟩)

theorem reaches_parent (hpass : d.Passable (p.start d.home) p.segments) (h : p.parent? = some q) :
    q.text.isEmpty = true ∨ d.Reaches q := by
  obtain ⟨cs, c, hcs, rfl⟩ := Path.exists_of_parent? h
  by_cases hnil : cs = []
  · subst hnil
    exact Or.inl rfl
  · right
    have hprefix : cs <+: p.components := ⟨[c], hcs.symm⟩
    obtain ⟨habs, hbody, -⟩ := ofComponents_spec hprefix
    have hstart : (ofComponents cs).start d.home = p.start d.home := by
      rw [Path.start, Path.start, habs, Path.isAbsolute_eq_head?, hcs, List.head?_append_of_ne_nil cs hnil]
    have hpbody : p.body = cs.filter (!isFront ·) ++ [c] := by
      have hname : isFront c = false :=
        Path.not_isFront_of_prefix ⟨[], by rw [List.append_nil, hcs]⟩ hnil
      rw [(Path.front_eq_filter p).2, hcs, List.filter_append, List.filter_cons_of_pos (by simp [hname])]
      rfl
    rintro pre hpre
    have hcomponents : pre.filterMap Path.componentOf <+: cs.filter (!isFront ·) := by
      rw [← hbody]
      exact hpre.filterMap _
    obtain ⟨pre', hpre', heq⟩ := List.prefix_filterMap_iff.mp
      (hcomponents.trans (hpbody ▸ List.prefix_append _ [c] : cs.filter (!isFront ·) <+: p.body))
    obtain ⟨post, hpost⟩ := hpre'
    rw [hstart, Path.walk_eq_foldl, heq, ← Path.walk_eq_foldl]
    cases post with
    | nil =>
      -- the names so far are fewer than those of the path
      rw [List.append_nil] at hpost
      have hlength := hcomponents.length_le
      rw [heq, hpost, show p.segments.filterMap Path.componentOf = p.body from rfl, hpbody,
        List.length_append, List.length_singleton] at hlength
      omega
    | cons s post => exact hpass pre' s post hpost.symm

/-! ### Making directories again -/

theorem readable_of_notFound (h : d.makeDir p = .error .notFound) (hne : p.text.isEmpty = false) :
    p.Readable := by
  unfold makeDir resolve at h
  split at h
  · cases h
  · rename_i hnul
    split at h
    · rename_i hempty
      rw [hne] at hempty
      cases hempty
    · split at h
      · cases h
      · exact ⟨by simpa using hnul, Nat.not_lt.mp ‹_›⟩

/-- A directory that cannot be made although its parent is there. -/
theorem ensureDir_error (h : ensureDir p d = .error e d') :
    d' = d ∧ d.makeDir p = .error e ∧ d.isDirectory p = false := by
  unfold ensureDir at h
  split at h
  · cases h
  · split at h
    · cases h
    · cases h
      exact ⟨rfl, ‹_›, Bool.eq_false_iff.mpr ‹_›⟩

/-- A try that comes to nothing leaves the disk as it was, unless the path is one to be looked up. -/
theorem unchanged_or_readable (h : createDirsWithin fuel p d = .error e d') : d' = d ∨ p.Readable := by
  cases fuel with
  | zero =>
    cases h
    exact Or.inl rfl
  | succ fuel =>
    unfold createDirsWithin at h
    split at h
    · cases h
    · rename_i hne
      split at h
      · cases h
      · exact Or.inr (readable_of_notFound ‹_› (Bool.eq_false_iff.mpr hne))
      · split at h <;> cases h
        exact Or.inl rfl

/-- A try that made something has failed above the path or at its end. -/
theorem exists_parent_of_error (h : createDirsWithin (fuel + 1) p d = .error e d') (hne : d' ≠ d) :
    p.text.isEmpty = false ∧ ∃ q, p.parent? = some q ∧
      (createDirsWithin fuel q d = .error e d' ∨
        ∃ d₁, createDirsWithin fuel q d = .ok () d₁ ∧ ensureDir p d₁ = .error e d') := by
  unfold createDirsWithin at h
  split at h
  · cases h
  · rename_i hempty
    refine ⟨Bool.eq_false_iff.mpr hempty, ?_⟩
    split at h
    · cases h
    · split at h
      · cases h
        exact absurd rfl hne
      · rename_i q hparent
        refine ⟨q, hparent, ?_⟩
        cases hq : createDirsWithin fuel q d with
        | ok u d₁ =>
          rw [hq] at h
          exact Or.inr ⟨d₁, rfl, h⟩
        | error e₁ d₁ =>
          rw [hq] at h
          cases h
          exact Or.inl rfl
    · split at h <;> cases h
      exact absurd rfl hne

theorem error_of_parent (hempty : p.text.isEmpty = false) (hparent : p.parent? = some q)
    (hmake : ∀ d', d.makeDir p ≠ .ok d') (hdir : d.isDirectory p = false)
    (hstuck : ∀ d₁, createDirsWithin fuel q d = .ok () d₁ → ∃ e d', ensureDir p d₁ = .error e d') :
    ∃ e d', createDirsWithin (fuel + 1) p d = .error e d' := by
  unfold createDirsWithin
  rw [if_neg (by simp [hempty])]
  split
  · exact absurd ‹_› (hmake _)
  · simp only [hparent]
    cases hq : createDirsWithin fuel q d with
    | ok u d₁ => exact hstuck d₁ hq
    | error e d₁ => exact ⟨e, d₁, rfl⟩
  · rw [hdir]
    exact ⟨_, _, rfl⟩

theorem passable_of_makeDir (h : d.makeDir p = .ok d') :
    p.Fits ∧ d.Passable (p.start d.home) p.segments := by
  unfold makeDir at h
  cases hr : d.resolve p with
  | error e =>
    rw [hr] at h
    cases h
  | ok t =>
    obtain ⟨hfits, hpass, -⟩ := resolve_eq_ok_iff.mp hr
    exact ⟨hfits, hpass⟩

/-- A directory that could not be made cannot be made from what is there then. -/
theorem createDirsWithin_error_again (hd : d.WellFormed) (h : createDirsWithin fuel p d = .error e d') :
    ∃ e' d'', createDirsWithin fuel p d' = .error e' d'' := by
  induction fuel generalizing p d d' e with
  | zero => exact ⟨.noTree, d', rfl⟩
  | succ fuel ih =>
    by_cases hsame : d' = d
    · exact ⟨e, d', hsame ▸ h⟩
    · obtain ⟨hempty, q, hparent, habove⟩ := exists_parent_of_error h hsame
      cases fuel with
      | zero =>
        rcases habove with habove | ⟨d₁, habove, -⟩
        · cases habove
          exact absurd rfl hsame
        · cases habove
      | succ fuel =>
        rcases habove with habove | ⟨d₁, habove, hend⟩
        · obtain ⟨e', d'', hagain⟩ := ih hd habove
          -- if the path could be passed now, its parent would be there
          have hstuck : ¬ (p.Fits ∧ d'.Passable (p.start d'.home) p.segments) := by
            rintro ⟨hfits, hpass⟩
            have hthere : q.text.isEmpty = true ∨ d'.isDirectory q = true := by
              by_cases hq : q.text.isEmpty = true
              · exact Or.inl hq
              · have hreadable := (unchanged_or_readable habove).resolve_left hsame
                refine Or.inr (isDirectory_of_reaches ((reaches_parent hpass hparent).resolve_left hq) ?_)
                exact Path.fits_parent hfits hparent hreadable (Bool.eq_false_iff.mpr hq)
            rw [createDirsWithin_of_isDirectory fuel hthere] at hagain
            cases hagain
          refine error_of_parent hempty hparent (fun d₁ hmake => hstuck (passable_of_makeDir hmake)) ?_
            fun d₁ hok => ?_
          · refine Bool.eq_false_iff.mpr fun hdir => hstuck ?_
            obtain ⟨hfits, hpass, -⟩ := stat_eq_directory_iff.mp (isDirectory_iff.mp hdir)
            exact ⟨hfits, hpass⟩
          · rw [hagain] at hok
            cases hok
        · obtain ⟨rfl, hmake, hdir⟩ := ensureDir_error hend
          refine error_of_parent hempty hparent (fun d₁ hok => ?_) hdir fun d₁ hok => ?_
          · rw [hmake] at hok
            cases hok
          · rw [createDirsWithin_of_isDirectory fuel (isDirectory_createDirsWithin hd habove)] at hok
            cases hok
            exact ⟨e, d', hend⟩

end Disk

end HistoryKeeper
