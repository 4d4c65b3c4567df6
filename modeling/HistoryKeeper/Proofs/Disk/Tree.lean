import Mathlib.Data.List.Induction
import HistoryKeeper.Disk.Basic
import HistoryKeeper.Proofs.Data.Table

/-!
# The tree of a disk

`Path.location` is where a path leads by its text alone. `Disk.resolve_eq_ok_iff`: a path resolves to
that location if it fits and every directory that it passes is there (`Passable`).

In a `WellFormed` disk everything lies in a directory; so above a file there are directories only
(`WellFormed.above`).
-/

namespace HistoryKeeper

namespace Disk

variable {d d' d'' : Disk} {l x : Location} {n : Node}

@[simp] theorem node?_nil (d : Disk) : d.node? [] = some .directory := rfl

theorem node?_eq_get? (d : Disk) (hl : l ≠ []) : d.node? l = d.nodes.get? l := by
  rw [node?, if_neg (by simpa using hl)]

theorem node?_congr (h : d'.nodes = d.nodes) (l : Location) : d'.node? l = d.node? l := by
  rw [node?, node?, h]

theorem node?_insert (h : d'.nodes = d.nodes.insert l n) (hl : l ≠ []) (x : Location) :
    d'.node? x = if x = l then some n else d.node? x := by
  by_cases hx : x = []
  · subst hx
    rw [if_neg (Ne.symm hl), node?_nil, node?_nil]
  · rw [node?_eq_get? d' hx, node?_eq_get? d hx, h, Table.get?_insert]

/-- Everything lies in a directory. -/
structure WellFormed (d : Disk) : Prop where
  ordered : d.nodes.Ordered
  parent : ∀ {l n}, d.node? l = some n → l ≠ [] → d.node? l.dropLast = some .directory

theorem node?_erase (hd : d.WellFormed) (h : d'.nodes = d.nodes.erase l) (hl : l ≠ [])
    (x : Location) : d'.node? x = if x = l then none else d.node? x := by
  by_cases hx : x = []
  · subst hx
    rw [if_neg (Ne.symm hl), node?_nil, node?_nil]
  · rw [node?_eq_get? d' hx, node?_eq_get? d hx, h, hd.ordered.get?_erase]

theorem WellFormed.above (hd : d.WellFormed) (h : d.node? l = some n) (hx : x <+: l)
    (hne : x ≠ l) : d.node? x = some .directory := by
  induction l using List.reverseRecOn generalizing n with
  | nil => exact absurd (List.prefix_nil.mp hx) hne
  | append_singleton l s ih =>
    have hparent := hd.parent h (by simp)
    rw [List.dropLast_concat] at hparent
    rcases List.prefix_concat_iff.mp hx with rfl | hx
    · exact absurd rfl hne
    · by_cases he : x = l
      · exact he ▸ hparent
      · exact ih hparent hx he

theorem WellFormed.congr (hd : d.WellFormed) (h : d'.nodes = d.nodes) : d'.WellFormed := by
  refine ⟨h ▸ hd.ordered, fun {l n} hn hl => ?_⟩
  rw [node?_congr h] at hn ⊢
  exact hd.parent hn hl

theorem WellFormed.insert (hd : d.WellFormed) (h : d'.nodes = d.nodes.insert l n) (hl : l ≠ [])
    (hparent : d.node? l.dropLast = some .directory) (hdir : d.node? l ≠ some .directory) :
    d'.WellFormed := by
  refine ⟨h ▸ hd.ordered.insert l n, fun {x m} hx hne => ?_⟩
  have hxl : x.dropLast ≠ l → d.node? x.dropLast = some .directory →
      d'.node? x.dropLast = some .directory := by
    intro hne' hdir'
    rw [node?_insert h hl, if_neg hne', hdir']
  rw [node?_insert h hl] at hx
  split at hx
  · rename_i he
    subst he
    refine hxl (fun he => ?_) hparent
    have := congrArg List.length he
    rw [List.length_dropLast] at this
    have := List.length_pos_of_ne_nil hne
    omega
  · have := hd.parent hx hne
    exact hxl (fun he => hdir (he ▸ this)) this

theorem WellFormed.erase (hd : d.WellFormed) (h : d'.nodes = d.nodes.erase l) (hl : l ≠ [])
    (hdir : d.node? l ≠ some .directory) : d'.WellFormed := by
  refine ⟨h ▸ hd.ordered.erase l, fun {x m} hx hne => ?_⟩
  rw [node?_erase hd h hl] at hx
  split at hx
  · cases hx
  · have hparent := hd.parent hx hne
    have hne' : x.dropLast ≠ l := fun he => hdir (he ▸ hparent)
    rw [node?_erase hd h hl, if_neg hne', hparent]

theorem wellFormed_empty (home : Location) (processId : Nat) : (empty home processId).WellFormed := by
  let made (n : Nat) : Disk :=
    { empty home processId with
      nodes := (List.range n).foldl (fun t n => t.insert (home.take (n + 1)) .directory) [] }
  have hmade : ∀ n ≤ home.length, (made n).WellFormed ∧
      (made n).node? (home.take n) = some .directory ∧
      ∀ m, n < m → m ≤ home.length → (made n).node? (home.take m) = none := by
    intro n hn
    induction n with
    | zero =>
      refine ⟨⟨List.Pairwise.nil, fun {l n} hl hne => ?_⟩, ?_, fun m hm hle => ?_⟩
      · rw [node?_eq_get? _ hne] at hl
        cases hl
      · rw [List.take_zero]
        rfl
      · rw [node?_eq_get?]
        · rfl
        · exact List.ne_nil_of_length_pos (by rw [List.length_take]; omega)
    | succ n ih =>
      obtain ⟨hwf, hdir, hnone⟩ := ih (by omega)
      have hnodes : (made (n + 1)).nodes = (made n).nodes.insert (home.take (n + 1)) .directory := by
        show (List.range (n + 1)).foldl _ [] = _
        rw [List.range_succ, List.foldl_append]
        rfl
      have hne : home.take (n + 1) ≠ [] :=
        List.ne_nil_of_length_pos (by rw [List.length_take]; omega)
      have hparent : (home.take (n + 1)).dropLast = home.take n := by
        rw [List.dropLast_eq_take, List.take_take, List.length_take]
        congr 1
        omega
      refine ⟨hwf.insert hnodes hne (by rw [hparent, hdir]) ?_, ?_, fun m hm hle => ?_⟩
      · rw [hnone (n + 1) (by omega) hn]
        nofun
      · rw [node?_insert hnodes hne, if_pos rfl]
      · rw [node?_insert hnodes hne, if_neg, hnone m (by omega) hle]
        intro he
        have := congrArg List.length he
        rw [List.length_take, List.length_take] at this
        omega
  exact (hmade home.length (Nat.le_refl _)).1

end Disk

/-! ### Where paths lead -/

namespace Path

/-- The location one name further. -/
def advance (location : Location) (segment : String) : Location :=
  if segment = "." then location
  else if segment = ".." then location.dropLast
  else location ++ [segment]

def walk (location : Location) (segments : List String) : Location :=
  segments.foldl advance location

@[simp] theorem walk_nil (l : Location) : walk l [] = l := rfl

@[simp] theorem walk_cons (l : Location) (s : String) (segments : List String) :
    walk l (s :: segments) = walk (advance l s) segments := rfl

theorem walk_append (l : Location) (xs ys : List String) :
    walk l (xs ++ ys) = walk (walk l xs) ys :=
  List.foldl_append ..

def start (home : Location) (p : Path) : Location :=
  if p.isAbsolute then [] else home

/-- Where a path leads if relative paths start in `home`. -/
def location (home : Location) (p : Path) : Location :=
  walk (p.start home) p.segments

/-- The operating system takes a path of this length and these names. -/
structure Fits (p : Path) : Prop where
  noNul : p.text.toList.contains '\x00' = false
  nonempty : p.text.isEmpty = false
  length : p.text.utf8ByteSize ≤ Disk.longestPath
  names : ∀ s ∈ p.segments, s.utf8ByteSize ≤ Disk.longestName

/-- One component further. -/
def follow (location : Location) : Component → Location
  | .root => []
  | .here => location
  | .up => location.dropLast
  | .name s => location ++ [s]

theorem walk_eq_foldl (l : Location) (segments : List String) :
    walk l segments = (segments.filterMap componentOf).foldl follow l := by
  induction segments generalizing l with
  | nil => rfl
  | cons s segments ih =>
    rw [walk_cons, ih]
    unfold advance
    split
    · rename_i h
      have hcomponent : componentOf s = none := by rw [componentOf, if_pos h]
      rw [List.filterMap_cons_none hcomponent]
    · rename_i hdot
      split
      · rename_i h
        have hcomponent : componentOf s = some .up := by rw [componentOf, if_neg hdot, if_pos h]
        rw [List.filterMap_cons_some hcomponent]
        rfl
      · rename_i hup
        have hcomponent : componentOf s = some (.name s) := by
          rw [componentOf, if_neg hdot, if_neg hup]
        rw [List.filterMap_cons_some hcomponent]
        rfl

theorem location_eq_foldl (home : Location) (p : Path) :
    p.location home = p.components.foldl follow home := by
  rw [location, walk_eq_foldl, components, start]
  by_cases habs : p.isAbsolute = true
  · rw [if_pos habs, if_pos habs]
    rfl
  · rw [if_neg habs, if_neg habs]
    split <;> rfl

theorem location_of_same {p q : Path} (h : p.same q = true) (home : Location) :
    p.location home = q.location home := by
  rw [location_eq_foldl, location_eq_foldl, of_decide_eq_true h]

def target (home : Location) (p : Path) : Disk.Target :=
  { location := p.location home
    slash := p.hasTrailingSlash
    dots := p.segments.getLast? = some "." || p.segments.getLast? = some ".." ||
      p.segments.isEmpty }

end Path

namespace Disk

open HistoryKeeper.Path (walk advance)

variable {d d' d'' : Disk} {l x : Location} {n : Node} {p : Path} {t : Target}

/-- Every name is looked up in a directory. -/
def Passable (d : Disk) (l : Location) (segments : List String) : Prop :=
  ∀ pre s post, segments = pre ++ s :: post → d.node? (walk l pre) = some .directory

theorem passable_nil (d : Disk) (l : Location) : d.Passable l [] :=
  fun _ _ _ h => absurd h (by simp)

theorem passable_cons {s : String} {segments : List String} :
    d.Passable l (s :: segments) ↔
      d.node? l = some .directory ∧ d.Passable (advance l s) segments := by
  refine ⟨fun h => ⟨h [] s segments rfl, fun pre s' post he => ?_⟩, fun ⟨hl, h⟩ => ?_⟩
  · exact h (s :: pre) s' post (by rw [he]; rfl)
  · intro pre s' post he
    cases pre with
    | nil => exact hl
    | cons s'' pre =>
      cases he
      exact h pre s' post rfl

theorem step_eq_ok_iff {s : String} : d.step l s = .ok x ↔
    s.utf8ByteSize ≤ longestName ∧ d.node? l = some .directory ∧ advance l s = x := by
  have hdot : ".".utf8ByteSize ≤ longestName := by decide
  have hup : "..".utf8ByteSize ≤ longestName := by decide
  unfold step advance
  split
  · simp_all
  · simp_all
  · rename_i hl
    split
    · simp_all
    · split
      · simp_all
      · split
        · simp_all
        · simp_all

theorem steps_eq_ok_iff {segments : List String} : d.steps l segments = .ok x ↔
    (∀ s ∈ segments, s.utf8ByteSize ≤ longestName) ∧ d.Passable l segments ∧
      walk l segments = x := by
  induction segments generalizing l with
  | nil => simp [steps, passable_nil]
  | cons s segments ih =>
    rw [passable_cons, Path.walk_cons]
    unfold steps
    cases hs : d.step l s with
    | error e =>
      have : ¬ (s.utf8ByteSize ≤ longestName ∧ d.node? l = some .directory) := by
        intro h
        have := step_eq_ok_iff.mpr ⟨h.1, h.2, rfl⟩
        rw [hs] at this
        cases this
      change (Except.error e : Except IoFault Location) = _ ↔ _
      simp only [reduceCtorEq, List.mem_cons, forall_eq_or_imp, false_iff]
      tauto
    | ok y =>
      obtain ⟨hfit, hdir, rfl⟩ := step_eq_ok_iff.mp hs
      change d.steps (advance l s) segments = _ ↔ _
      rw [ih]
      simp only [List.mem_cons, forall_eq_or_imp]
      tauto

theorem resolve_eq_ok_iff : d.resolve p = .ok t ↔
    p.Fits ∧ d.Passable (p.start d.home) p.segments ∧ p.target d.home = t := by
  unfold resolve
  split
  · rename_i h
    refine ⟨nofun, fun hp => ?_⟩
    rw [hp.1.noNul] at h
    cases h
  · rename_i hnul
    split
    · rename_i h
      refine ⟨nofun, fun hp => ?_⟩
      rw [hp.1.nonempty] at h
      cases h
    · rename_i hempty
      split
      · rename_i h
        exact ⟨nofun, fun hp => absurd h (Nat.not_lt.mpr hp.1.length)⟩
      · rename_i hlength
        have hfits : p.Fits ↔ ∀ s ∈ p.segments, s.utf8ByteSize ≤ longestName :=
          ⟨fun h => h.names, fun h =>
            ⟨by simpa using hnul, by simpa using hempty, Nat.not_lt.mp hlength, h⟩⟩
        rw [hfits]
        change (d.steps (p.start d.home) p.segments >>= fun l =>
          pure { p.target d.home with location := l } : Except IoFault Target) = _ ↔ _
        cases hs : d.steps (p.start d.home) p.segments with
        | error e =>
          have hno : ¬ ((∀ s ∈ p.segments, s.utf8ByteSize ≤ longestName) ∧
              d.Passable (p.start d.home) p.segments) := by
            intro h
            rw [steps_eq_ok_iff.mpr ⟨h.1, h.2, rfl⟩] at hs
            cases hs
          exact ⟨nofun, fun h => absurd ⟨h.1, h.2.1⟩ hno⟩
        | ok y =>
          obtain ⟨hnames, hpass, rfl⟩ := steps_eq_ok_iff.mp hs
          change (Except.ok (p.target d.home) : Except IoFault Target) = _ ↔ _
          exact ⟨fun h => ⟨hnames, hpass, Except.ok.inj h⟩, fun h => congrArg Except.ok h.2.2⟩

end Disk

end HistoryKeeper
