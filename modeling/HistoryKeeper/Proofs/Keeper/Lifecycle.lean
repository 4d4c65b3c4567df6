import HistoryKeeper.Proofs.Keeper.ServiceRun

/-!
# Starts and stops

The thread of a started keeper is in its place, or a stop holds it, or it has ended; and a stop has
its summary from a keeper that has ended (`Service.Lifecycle`). A summary tells how much was applied,
and says of no failed run that it has not failed (`System.Told`).
-/

namespace HistoryKeeper

/-- The summary of a run with this tally and log. -/
structure Summary.Tells (summary : Summary) (tally : Tally) (log : List Failure) : Prop where
  writesApplied : summary.writesApplied = tally.writesApplied
  log : summary.failed = false ↔ log = []

namespace System

variable {S W : Type}

structure Told (s : System S W) : Prop where
  log : match s.stage with
    | .opening _ | .working _ _ | .failing _ _ => s.log = []
    | .draining failed | .finishing failed => failed = false ↔ s.log = []
    | .parting | .ended => True
  summary : ∀ summary, s.status.summary = some summary →
    (s.stage = .parting ∨ s.stage = .ended) ∧ summary.Tells s.keeper.tally s.log

theorem Told.step [Store S W] {s s' : System S W} {interference : Option Interference} (h : s.Told)
    (hstep : s.step interference = some s') : s'.Told := by
  have hlog := h.log
  have hnone : s.stage ≠ .parting → s.stage ≠ .ended → ∀ {P : Summary → Prop} summary,
      s.status.summary = some summary → P summary := by
    intro hparting hended P summary hsummary
    obtain ⟨hparting' | hended', -⟩ := h.summary summary hsummary
    · exact absurd hparting' hparting
    · exact absurd hended' hended
  cases moves_of_step hstep with
  | letGo hstage =>
    refine ⟨⟨nofun, by simp⟩, hnone ?_ ?_⟩ <;> rw [hstage] <;> exact nofun
  | drained hstage =>
    rw [hstage] at hlog
    refine ⟨?_, hnone ?_ ?_⟩
    · rw [hstage]
      exact hlog
    all_goals rw [hstage]; exact nofun
  | drainedAll hstage =>
    rw [hstage] at hlog
    refine ⟨hlog, hnone ?_ ?_⟩ <;> rw [hstage] <;> exact nofun
  | finished hstage =>
    rw [hstage] at hlog
    refine ⟨trivial, fun summary hsummary => ⟨Or.inl rfl, ?_⟩⟩
    cases hsummary
    exact ⟨rfl, hlog⟩
  | parted hstage =>
    refine ⟨trivial, fun summary hsummary => ?_⟩
    obtain ⟨-, htells⟩ := h.summary summary hsummary
    exact ⟨Or.inr rfl, htells⟩
  | closed hstage =>
    rw [hstage] at hlog
    refine ⟨⟨fun _ => hlog, fun _ => rfl⟩, hnone ?_ ?_⟩ <;> rw [hstage] <;> exact nofun
  | awoke hstage hawakes | overflowed hstage hawakes =>
    rw [hstage] at hlog
    cases hawakes <;>
      (refine ⟨hlog, hnone ?_ ?_⟩ <;> rw [hstage] <;> exact nofun)
  | _ hstage =>
    rw [hstage] at hlog
    refine ⟨hlog, hnone ?_ ?_⟩ <;> rw [hstage] <;> exact nofun

end System

namespace Service

variable {S W : Type} {s s' : Service S W} {i : CallId}

/-- The thread can be claimed, or a stop has claimed it, or it has ended. -/
def Placed (s : Service S W) : Prop :=
  s.threadInPlace = true ∨ s.holder.isSome = true ∨ s.system.stage = .ended

/-- What is the case when a call has come this far. -/
def Allows (s : Service S W) (i : CallId) : Call → Prop
  | .marking => s.Placed
  | .claiming => s.system.status.started = true
  | .requestingStop | .sendingStop | .joining => s.holder = some i
  | .finishing => s.holder = some i ∧ s.system.stage = .ended
  | .returned (.ok (.summary summary)) => s.system.stage = .ended ∧ summary.Tells s.system.keeper.tally s.system.log
  | _ => True

structure Lifecycle (s : Service S W) : Prop where
  calls : ∀ i call, s.calls[i]? = some call → s.Allows i call
  placed : s.system.status.started = true → s.Placed
  told : s.system.Told

theorem Allows.mono {call : Call} (h : s.Allows i call) (hstage : s'.system.stage = s.system.stage)
    (hkeeper : s'.system.keeper = s.system.keeper) (hlog : s'.system.log = s.system.log)
    (hstarted : s.system.status.started = true → s'.system.status.started = true)
    (hplaced : s.Placed → s'.Placed) (hholder : s.holder = some i → s'.holder = some i) :
    s'.Allows i call := by
  cases call with
  | marking => exact hplaced h
  | claiming => exact hstarted h
  | requestingStop | sendingStop | joining => exact hholder h
  | finishing => exact ⟨hholder h.1, hstage.trans h.2⟩
  | returned result =>
    rcases result with _ | _ | _ | summary
    · trivial
    · trivial
    · trivial
    · unfold Allows
      rw [hstage, hkeeper, hlog]
      exact h
  | _ => trivial

theorem Lifecycle.set {call' : Call} (h : s.Lifecycle) (hcalls : s'.calls = s.calls.set i call')
    (hstage : s'.system.stage = s.system.stage) (hlog : s'.system.log = s.system.log)
    (hplaced : s'.system.status.started = true → s'.Placed)
    (hothers : ∀ j call, j ≠ i → s.calls[j]? = some call → s.Allows j call → s'.Allows j call)
    (hcall : s'.Allows i call')
    (hsummary : ∀ summary, s'.system.status.summary = some summary →
      (s'.system.stage = .parting ∨ s'.system.stage = .ended) ∧
        summary.Tells s'.system.keeper.tally s'.system.log) :
    s'.Lifecycle := by
  refine ⟨fun j call hj => ?_, hplaced, ?_, hsummary⟩
  · rw [hcalls] at hj
    by_cases hij : i = j
    · subst hij
      rw [List.getElem?_set_self'] at hj
      obtain ⟨_, -, rfl⟩ := Option.map_eq_some_iff.mp hj
      exact hcall
    · rw [List.getElem?_set_ne hij] at hj
      exact hothers j call (Ne.symm hij) hj (h.calls j call hj)
  · rw [hstage, hlog]
    exact h.told.log

theorem Lifecycle.quiet {call' : Call} (h : s.Lifecycle) (hcalls : s'.calls = s.calls.set i call')
    (hstage : s'.system.stage = s.system.stage) (hkeeper : s'.system.keeper = s.system.keeper)
    (hlog : s'.system.log = s.system.log)
    (hstarted : s'.system.status.started = s.system.status.started)
    (hsummary : s'.system.status.summary = s.system.status.summary)
    (hholder : s'.holder = s.holder) (hplace : s.threadInPlace = true → s'.threadInPlace = true)
    (hcall : s'.Allows i call') : s'.Lifecycle := by
  have hplaced : s.Placed → s'.Placed := by
    rintro (hin | hheld | hended)
    · exact Or.inl (hplace hin)
    · exact Or.inr (Or.inl (hholder ▸ hheld))
    · exact Or.inr (Or.inr (hstage.trans hended))
  have hmono : ∀ {j call}, s.Allows j call → s'.Allows j call := fun h =>
    h.mono hstage hkeeper hlog (fun hs => hstarted.trans hs) hplaced fun hh => hholder.trans hh
  refine h.set hcalls hstage hlog (fun hs => hplaced (h.placed (hstarted ▸ hs)))
    (fun _ _ _ _ => hmono) hcall fun summary hs => ?_
  rw [hstage, hkeeper, hlog]
  exact h.told.summary summary (hsummary ▸ hs)

theorem Lifecycle.call (h : s.Lifecycle) (hstep : s.callStep i = some s') : s'.Lifecycle := by
  cases acts_of_callStep hstep with
  | refused | unencoded | accepted | unsent | sentRead | sent | tooLate | launches | spawned
  | tooEarly | unreported =>
    exact h.quiet rfl rfl rfl rfl rfl rfl rfl id trivial
  | @got token since result =>
    refine h.quiet rfl rfl rfl rfl rfl rfl rfl id ?_
    cases result <;> trivial
  | stops _ hstarted => exact h.quiet rfl rfl rfl rfl rfl rfl rfl id hstarted
  | requestedStop hcall | sentStop hcall | unsentStop hcall =>
    exact h.quiet rfl rfl rfl rfl rfl rfl rfl id (h.calls i _ hcall)
  | joined hcall hended =>
    exact h.quiet rfl rfl rfl rfl rfl rfl rfl id
      ⟨h.calls i _ hcall, System.stage_of_hasEnded hended⟩
  | registered => exact h.quiet rfl rfl rfl rfl rfl rfl rfl (fun _ => rfl) (Or.inl rfl)
  | started hcall =>
    have hplaced : s.Placed := h.calls i _ hcall
    exact h.set rfl rfl rfl (fun _ => hplaced)
      (fun _ _ _ _ h => h.mono rfl rfl rfl (fun _ => rfl) id id) trivial h.told.summary
  | claimed hcall hholder =>
    have hheld : ∀ j, s.holder ≠ some j := by
      rw [hholder]
      exact nofun
    exact h.set rfl rfl rfl (fun _ => Or.inr (Or.inl rfl))
      (fun j _ _ _ h => h.mono rfl rfl rfl id (fun _ => Or.inr (Or.inl rfl))
        fun hj => absurd hj (hheld j)) rfl h.told.summary
  | @reported summary hcall hholder hplace hsummary =>
    have hended : s.system.stage = .ended := by
      rcases h.placed (h.calls i _ hcall) with hin | hheld | hended
      · rw [hplace] at hin
        cases hin
      · rw [hholder] at hheld
        cases hheld
      · exact hended
    exact h.quiet rfl rfl rfl rfl rfl rfl rfl id ⟨hended, (h.told.summary summary hsummary).2⟩
  | @stopped summary hcall hsummary =>
    obtain ⟨hheld, hended⟩ : s.holder = some i ∧ s.system.stage = .ended := h.calls i _ hcall
    have htells : ({ summary with blockedReads := s.system.status.blocked } : Summary).Tells
        s.system.keeper.tally s.system.log :=
      ⟨(h.told.summary summary hsummary).2.writesApplied, (h.told.summary summary hsummary).2.log⟩
    refine h.set rfl rfl rfl (fun _ => Or.inr (Or.inr hended)) (fun j _ hj _ h => ?_)
      ⟨hended, htells⟩ fun summary hs => ?_
    · refine h.mono rfl rfl rfl id (fun _ => Or.inr (Or.inr hended)) fun hheld' => ?_
      exact absurd (Option.some_inj.mp (hheld'.symm.trans hheld)) hj
    · cases hs
      exact ⟨Or.inr hended, htells⟩
  | abandoned hcall =>
    obtain ⟨hheld, hended⟩ : s.holder = some i ∧ s.system.stage = .ended := h.calls i _ hcall
    refine h.set rfl rfl rfl (fun _ => Or.inr (Or.inr hended)) (fun j _ hj _ h => ?_) trivial
      h.told.summary
    refine h.mono rfl rfl rfl id (fun _ => Or.inr (Or.inr hended)) fun hheld' => ?_
    exact absurd (Option.some_inj.mp (hheld'.symm.trans hheld)) hj

theorem Lifecycle.keeper [Store S W] {interference : Option Interference} (h : s.Lifecycle)
    (hstep : s.keeperStep interference = some s') : s'.Lifecycle := by
  obtain ⟨-, system, hsystem, rfl⟩ := keeperStep_eq_some hstep
  have hended : s.system.stage ≠ .ended := by
    intro hended
    rw [System.step, hended] at hsystem
    cases hsystem
  have hstarted : system.status.started = s.system.status.started :=
    congrArg (·.1) (System.constants_step hsystem)
  have hplaced : s.Placed → Placed { s with system } :=
    Or.imp_right (Or.imp_right fun hs => absurd hs hended)
  refine ⟨fun i call hcall => ?_, fun hs => hplaced (h.placed (hstarted ▸ hs)), h.told.step hsystem⟩
  have hallows := h.calls i call hcall
  cases call with
  | marking => exact hplaced hallows
  | claiming => exact hstarted.trans hallows
  | requestingStop | sendingStop | joining => exact hallows
  | finishing => exact absurd hallows.2 hended
  | returned result =>
    rcases result with _ | _ | _ | summary
    · trivial
    · trivial
    · trivial
    · exact absurd hallows.1 hended
  | _ => trivial

theorem Run.lifecycle [Store S W] {around : System.Surroundings S W} {system : System S W}
    {calls : List Call} {sent : List Request} (hnew : ∀ call ∈ calls, call.IsNew)
    (hstarted : system.status.started = false) (htold : system.Told)
    (hrun : Run around (.facing system calls) sent s) : s.Lifecycle := by
  induction hrun with
  | first =>
    refine ⟨fun i call hcall => ?_, fun hs => ?_, htold⟩
    · have hnew := hnew call (List.mem_of_getElem? hcall)
      cases call with
      | asking _ | starting | stopping => trivial
      | _ => exact hnew.elim
    · rw [show system.status.started = true from hs] at hstarted
      cases hstarted
  | call _ _ hstep ih => exact ih.call hstep
  | keeper _ _ hstep ih => exact ih.keeper hstep
  | tick _ _ ih | change _ _ _ ih =>
    exact ⟨fun i call hcall => (ih.calls i call hcall).mono rfl rfl rfl id id id, ih.placed,
      ih.told.log, ih.told.summary⟩

/-- A stop returns a summary only of a keeper that has ended. -/
theorem Lifecycle.summary {summary : Summary} (h : s.Lifecycle)
    (hcall : s.calls[i]? = some (.returned (.ok (.summary summary)))) :
    s.system.stage = .ended ∧ summary.Tells s.system.keeper.tally s.system.log :=
  h.calls i _ hcall

end Service

end HistoryKeeper
