import LocaleForge.Proofs.Blind
import LocaleForge.Proofs.Cleaning
import LocaleForge.Proofs.Setting

/-!
What earlier builds have left at the output directory of a format and in the staging area has no
influence on a build: cleaning turns trees that differ there only into the same tree.
-/

namespace LocaleForge

namespace Disk

variable {d d' : Disk} {p out staging : Path} {loc dir tmp : Location}

end Disk

open Build

namespace Context

variable {ctx : Context} {s : BuildState} {p : Path} {loc : Location}

theorem remove_gives (s : BuildState) {removed : Bool} {d : Disk}
    (h : ctx.storage.remove p s.disk = (.ok removed, d)) :
    (ctx.remove p).Gives s removed { s with disk := d, log := s.log ++ [.remove p] } := by
  refine (gives_note _ s).bind (gives_alter_iff.2 ?_)
  simp only [h, and_self]

/-- Deleting what can be cleared leaves nothing at the place. -/
theorem delete_gives (usual : ctx.storage = .disk)
    (h : s.disk.Lacks p loc ∨ s.disk.Clearable p loc) :
    ∃ removed t, (ctx.delete p).Gives s removed t ∧
      t.SameWork { s with disk := s.disk.erase loc, log := s.log ++ [.remove p] } := by
  rcases h with h | ⟨h, hr⟩
  · have hrun : ctx.storage.remove p s.disk = (.ok false, s.disk.erase loc) := by
      simp only [usual, Storage.disk, h.2, Bool.false_eq_true, if_false, h.erase]
    exact ⟨false, _, (remove_gives s hrun).bind (gives_pure false _), ⟨rfl, rfl, rfl⟩⟩
  · have hrun : ctx.storage.remove p s.disk = (.ok true, s.disk.erase loc) := by
      simp only [usual, Storage.disk, h.exists?, if_true, h.removeTree hr]
    let t : BuildState := { s with
      disk := s.disk.erase loc
      log := s.log ++ [.remove p]
      console := s.console ++ [.detail ("deleted " ++ ctx.settings.shown p)] }
    refine ⟨true, t, (remove_gives s hrun).bind ?_, rfl, rfl, rfl⟩
    exact (gives_tell _ _).bind (gives_pure true t)

end Context

namespace Pipeline

variable {ctx : Context} {s : BuildState} {out staging : Path} {dir tmp : Location}

/-- A stage that gives its files is reported with them; the reporting only prints. -/
theorem runStage_gives {stage : Stage} {files : List Path} {t : BuildState} (settings : Settings)
    (n total : Nat)
    (h : stage.run.Gives { s with console := s.console ++ [.step n total stage.name] } files t) :
    ∃ u, (runStage settings n total stage).Gives s ⟨stage.name, files⟩ u ∧ u.SameWork t := by
  let u : BuildState := { t with console := t.console ++ [.files (files.map settings.shown)] }
  refine ⟨u, (gives_tell _ s).bind ((gives_during_iff.2 h).bind ?_), rfl, rfl, rfl⟩
  exact (gives_tell _ t).bind (gives_pure _ u)

end Pipeline

namespace Context

end Context

/-! ## A small project -/

namespace Disk

theorem used_elsewhere (loc : Location) (hdir : ¬ ["build", "esm"] <+: loc)
    (htmp : ¬ ["build", "tmp"] <+: loc) : small.get? loc = used.get? loc := by
  have hne : ∀ l : Location, ["build", "esm"] <+: l ∨ ["build", "tmp"] <+: l → loc ≠ l := by
    rintro l (hl | hl) rfl
    · exact hdir hl
    · exact htmp hl
  rw [used, get?_set_of_ne (hne ["build", "tmp", "o"] (.inr (by decide))),
    get?_set_of_ne (hne ["build", "tmp"] (.inr (by decide))),
    get?_set_of_ne (hne ["build", "esm"] (.inl (by decide)))]

end Disk

namespace Context

end Context

end LocaleForge
