import HistoryKeeper.Proofs.Disk.Made
import HistoryKeeper.Proofs.Store.CacheFiles

/-!
# Files that were written

`Disk.Extends` says where the files of a disk may have changed. `Disk.Rewritten` says to what: every file lay
there before, or is one that was written, with all of its content. What is written beside a file on the way
to its place is gone afterwards, whether that went well or not (`CacheFile.wrote_save`). Directories come up above
the file only (`CacheFile.makes_save`).
-/

namespace HistoryKeeper

open Disk (Extends Frame MakesWithin nowhere)
open CacheFile (replace save temporary touched touchedBeside)

variable {written written' : Location → Bytes → Prop} {beside beside' : Location → Prop}
  {d d' d'' : Disk} {l : Location}

namespace Disk

structure Rewritten (written : Location → Bytes → Prop) (beside : Location → Prop) (d d' : Disk) :
    Prop where
  wellFormed : d'.WellFormed
  ext : Extends (fun l => (∃ content, written l content) ∨ beside l) d d'
  origin : ∀ {l id content}, d'.node? l = some (.file id content) →
    d.node? l = some (.file id content) ∨ written l content
  /-- Files do not vanish, unless something was written beside another file under their name. -/
  stays : ∀ {l id content}, d.node? l = some (.file id content) →
    (∃ id' content', d'.node? l = some (.file id' content')) ∨ beside l

namespace Rewritten

theorem of_extends (hwf : d'.WellFormed) (h : Extends nowhere d d') : Rewritten written beside d d' :=
  ⟨hwf, h.weaken, fun hl => .inl ((h.file id).mp hl), fun hl => .inl ⟨_, _, (h.file id).mpr hl⟩⟩

theorem refl (hd : d.WellFormed) : Rewritten written beside d d :=
  of_extends hd (Extends.refl _ d)

theorem mono (h : Rewritten written beside d d')
    (hwritten : ∀ l content, written l content → written' l content)
    (hbeside : ∀ l, beside l → beside' l) : Rewritten written' beside' d d' := by
  refine ⟨h.wellFormed, h.ext.mono fun l hl => ?_, fun hl => (h.origin hl).imp_right (hwritten _ _),
    fun hl => (h.stays hl).imp_right (hbeside _)⟩
  exact hl.imp (fun ⟨content, hc⟩ => ⟨content, hwritten l content hc⟩) (hbeside l)

theorem trans (h : Rewritten written beside d d') (h' : Rewritten written beside d' d'') :
    Rewritten written beside d d'' := by
  refine ⟨h'.wellFormed, h.ext.trans h'.ext, fun {l id content} hl => ?_, fun {l id content} hl => ?_⟩
  · exact (h'.origin hl).elim h.origin .inr
  · rcases h.stays hl with ⟨id', content', hl'⟩ | hbeside
    · exact h'.stays hl'
    · exact .inr hbeside

theorem of_gone (hwf : d'.WellFormed) (hext : Extends (· = l) d d') (hgone : d'.node? l = none) :
    Rewritten written (· = l) d d' := by
  refine ⟨hwf, hext.mono fun _ => .inr, fun {x id content} hx => ?_, fun {x id content} hx => ?_⟩
  · refine .inl ((hext.file ?_).mp hx)
    rintro rfl
    cases hgone.symm.trans hx
  · by_cases hxl : x = l
    · exact .inr hxl
    · exact .inl ⟨id, content, (hext.file hxl).mpr hx⟩

end Rewritten

end Disk

open Disk (Rewritten)

namespace CacheFile

variable {p : Path} {content : Bytes}

/-- The outcome of writing a file: it lies in its place, or nothing was written. -/
def Wrote (p : Path) (content : Bytes) (d : Disk) (result : EStateM.Result IoFault Disk Unit) : Prop :=
  match result with
  | .ok _ d' =>
    Rewritten (fun l c => l = p.location d.home ∧ c = content) (touchedBeside d p) d d' ∧
      ∃ id, d'.HasFile p id content
  | .error _ d' => Rewritten (fun _ _ => False) (touchedBeside d p) d d'

theorem wrote_replace (hd : d.WellFormed) (p : Path) (content : Bytes) :
    Wrote p content d (replace p content d) := by
  cases h : replace p content d with
  | error fault d' =>
    rcases replace_error hd h with rfl | ⟨d₁, rfl | hw, hr⟩
    · exact .refl hd
    · obtain ⟨hwf, hext⟩ := Disk.remove_ok hd hr
      exact .of_gone hwf hext (Disk.gone_of_remove hd hr)
    · obtain ⟨hwf₁, hext₁, -⟩ := Disk.write_ok hd hw
      obtain ⟨hwf₂, hext₂⟩ := Disk.remove_ok hwf₁ hr
      have hgone := Disk.gone_of_remove hwf₁ hr
      rw [hext₁.home] at hext₂ hgone
      exact .of_gone hwf₂ (hext₁.trans hext₂) hgone
  | ok u d' =>
    obtain ⟨d₁, id, hw, hfile₁, hr⟩ := replace_ok hd h
    obtain ⟨hwf₁, hext₁, -⟩ := Disk.write_ok hd hw
    obtain ⟨hwf₂, hext₂, hfile₂⟩ := Disk.rename_ok hwf₁ hfile₁ hr
    have hnode := Disk.node?_rename hwf₁ hfile₁ hr
    rw [hext₁.home] at hext₂ hnode
    -- a file beside the place is gone, any other is where it was
    have hold : ∀ {l}, l ≠ p.location d.home → ∀ {id content},
        d'.node? l = some (.file id content) → d.node? l = some (.file id content) := by
      intro l hplace id content hl
      rw [hnode l, if_neg hplace] at hl
      split at hl
      · cases hl
      · exact (hext₁.file ‹_›).mp hl
    refine ⟨⟨hwf₂, ?_, fun {l i c} hl => ?_, fun {l i c} hl => ?_⟩, id, hfile₂⟩
    · refine (hext₁.mono fun l hl => .inr hl).trans (hext₂.mono fun l hl => ?_)
      exact hl.elim .inr fun hplace => .inl ⟨content, hplace, rfl⟩
    · by_cases hplace : l = p.location d.home
      · rw [hnode l, if_pos hplace] at hl
        cases hl
        exact .inr ⟨hplace, rfl⟩
      · exact .inl (hold hplace hl)
    · by_cases hplace : l = p.location d.home
      · exact .inl ⟨id, content, by rw [hnode l, if_pos hplace]⟩
      · by_cases hbeside : l = (temporary p d.processId).location d.home
        · exact .inr hbeside
        · refine .inl ⟨i, c, ?_⟩
          rw [hnode l, if_neg hplace, if_neg hbeside]
          exact (hext₁.file hbeside).mpr hl

theorem wrote_save (hd : d.WellFormed) (p : Path) (content : Bytes) :
    Wrote p content d (save p content d) := by
  unfold save
  cases p.parent? with
  | none => exact wrote_replace hd p content
  | some parent =>
    have hdirs := Disk.leads_createDirs parent d hd
    change Wrote p content d (EStateM.bind (Disk.createDirs parent) (fun _ => replace p content) d)
    unfold EStateM.bind
    cases hr : Disk.createDirs parent d with
    | error fault d₁ =>
      rw [hr, endState_error] at hdirs
      exact .of_extends hdirs.1 hdirs.2
    | ok u d₁ =>
      rw [hr, endState_ok] at hdirs
      obtain ⟨hwf₁, hext₁⟩ := hdirs
      have hwrote := wrote_replace hwf₁ p content
      simp only
      unfold Wrote touchedBeside at hwrote ⊢
      rw [hext₁.home, hext₁.processId] at hwrote
      cases hs : replace p content d₁ with
      | ok u d₂ =>
        rw [hs] at hwrote
        exact ⟨(Rewritten.of_extends hwf₁ hext₁).trans hwrote.1, hwrote.2⟩
      | error fault d₂ =>
        rw [hs] at hwrote
        exact (Rewritten.of_extends hwf₁ hext₁).trans hwrote

/-- The outcome of writing a file in place of another, directories included. -/
def Saved (p : Path) (content : Bytes) (d : Disk) (result : EStateM.Result IoFault Disk Unit) : Prop :=
  match result with
  | .ok _ d' => Frame (touched d p) d d' ∧ ∃ id, d'.HasFile p id content
  | .error _ d' => Frame (touchedBeside d p) d d'

theorem saved_replace (hd : d.WellFormed) (p : Path) (content : Bytes) :
    Saved p content d (replace p content d) := by
  cases h : replace p content d with
  | error fault d' =>
    rcases replace_error hd h with rfl | ⟨d₁, rfl | hw, hr⟩
    · exact Frame.refl hd
    · exact Disk.frame_remove hd hr
    · have hframe₁ := Disk.frame_write hd hw
      have hframe₂ := Disk.frame_remove hframe₁.wellFormed hr
      rw [hframe₁.ext.home] at hframe₂
      exact hframe₁.trans hframe₂
  | ok u d' =>
    obtain ⟨d₁, id, hw, hfile₁, hr⟩ := replace_ok hd h
    have hframe₁ := Disk.frame_write hd hw
    have hframe₂ := Disk.frame_rename hframe₁.wellFormed hfile₁ hr
    obtain ⟨-, -, hfile₂⟩ := Disk.rename_ok hframe₁.wellFormed hfile₁ hr
    rw [hframe₁.ext.home] at hframe₂
    exact ⟨(hframe₁.mono fun _ h => Or.inr h).trans (hframe₂.mono fun _ h => Or.symm h), id, hfile₂⟩

theorem makes_save (hd : d.WellFormed) (hs : d.Settled p) (content : Bytes) :
    MakesWithin (· <+: p.location d.home) d (endState (save p content d)) := by
  have hreplace : ∀ {d : Disk} {places : Location → Prop}, d.WellFormed →
      MakesWithin places d (endState (replace p content d)) := by
    intro d places hd
    have hsaved := saved_replace hd p content
    cases hr : replace p content d with
    | ok u d' =>
      rw [hr] at hsaved
      exact .of_sameDirectories hsaved.1.sameDirectories
    | error fault d' =>
      rw [hr] at hsaved
      exact .of_sameDirectories hsaved.sameDirectories
  unfold save
  cases hparent : p.parent? with
  | none => exact hreplace hd
  | some parent =>
    have hwf := (Disk.leads_createDirs parent d hd).1
    have hmakes := Disk.makes_createDirs hd hs hparent
    change MakesWithin _ d (endState (EStateM.bind (Disk.createDirs parent) (fun _ => replace p content) d))
    unfold EStateM.bind
    cases hr : Disk.createDirs parent d with
    | error fault d₁ =>
      rw [hr] at hmakes
      exact hmakes
    | ok u d₁ =>
      rw [hr, endState_ok] at hwf hmakes
      exact hmakes.trans (hreplace hwf)

end CacheFile

end HistoryKeeper
