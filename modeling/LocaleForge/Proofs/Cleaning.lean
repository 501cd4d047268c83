import LocaleForge.Build.Stages
import LocaleForge.Proofs.FormatRun
import LocaleForge.Proofs.Removal

/-!
Cleaning: what lies at the end of a path is removed if the path leads to something.
-/

namespace LocaleForge

namespace Disk

variable {d : Disk} {p : Path} {loc : Location}

/-- A directory that is removed as a whole by the path to it. -/
def Clearable (d : Disk) (p : Path) (loc : Location) : Prop :=
  d.HasDirectory p loc ∧ d.Removable p loc

/-- The tree that is left when what a path leads to is removed. -/
def cleared (d : Disk) (p : Path) : Disk :=
  if d.exists? p then (d.removeTree p).2 else d

theorem erase_of_get?_eq_none (h : d.get? loc = none) : d.erase loc = d := by
  refine ext_get? rfl fun l => ?_
  by_cases hl : l = []
  · simp [hl]
  · rw [get?_erase hl]
    split
    case isTrue hp =>
      by_cases he : l = loc
      · rw [he, h]
      · have hb : isBelow loc l = true := by simp [isBelow, hp, he]
        rw [get?_eq_none_of_isBelow hb (by simp [h])]
    case isFalse => rfl

theorem Lacks.erase (h : d.Lacks p loc) : d.erase loc = d :=
  erase_of_get?_eq_none h.1

theorem cleared_eq_erase (h : d.Lacks p loc ∨ d.Clearable p loc) : d.cleared p = d.erase loc := by
  rw [cleared]
  rcases h with h | ⟨h, hr⟩
  · rw [h.2, if_neg Bool.false_ne_true, h.erase]
  · rw [h.exists?, if_pos rfl, h.removeTree hr]

theorem isBelow_iff {base l : Location} : isBelow base l = true ↔ base <+: l ∧ l ≠ base := by
  simp [isBelow]

theorem isBelow_of_append {l more : Location} (h : isBelow (loc ++ more) l = true) :
    isBelow loc l = true := by
  obtain ⟨hpre, hne⟩ := isBelow_iff.1 h
  refine isBelow_iff.2 ⟨(List.prefix_append loc more).trans hpre, ?_⟩
  rintro rfl
  have hlength := hpre.length_le
  rw [List.length_append] at hlength
  obtain rfl := List.eq_nil_of_length_eq_zero (show more.length = 0 by omega)
  exact hne (List.append_nil l).symm

theorem removeEmptied_keeps (d : Disk) (p : Path) (loc : Location) :
    (d.removeEmptied p loc).2.Keeps d := by
  rw [removeEmptied]
  split
  case h_5 =>
    split
    · exact .refl d
    · exact erase_keeps d loc
  all_goals exact .refl d

theorem removeTree_keeps (d : Disk) (p : Path) : (d.removeTree p).2.Keeps d := by
  rw [removeTree]
  split
  case h_1 => exact .refl d
  case h_2 spot _ =>
    split
    · exact .refl d
    · exact erase_keeps d _
    · exact .refl d
    · exact (removeEmptied_keeps _ p _).trans (eraseBelow_keeps d _)

/-- Cleaning adds nothing. -/
theorem cleared_keeps (d : Disk) (p : Path) : (d.cleared p).Keeps d := by
  rw [cleared]
  split
  · exact removeTree_keeps d p
  · exact .refl d

theorem Keeps.get?_eq_none {d' : Disk} (h : d.Keeps d') (hn : d'.get? loc = none) :
    d.get? loc = none := by
  cases he : d.get? loc with
  | none => rfl
  | some e =>
    obtain ⟨e', he', -⟩ := h.entry he
    rw [hn] at he'
    cases he'

end Disk

open Build

variable {ctx : Context} {s t : BuildState} {p : Path}

theorem Context.delete_inv (usual : ctx.storage = .disk) {removed : Bool}
    (h : (ctx.delete p).Gives s removed t) :
    t.disk = s.disk.cleared p ∧ t.shelf = s.shelf ∧ t.log = s.log ++ [.remove p] := by
  obtain ⟨removed', u, hremove, h⟩ := gives_bind_iff.1 h
  have hu : u.disk = s.disk.cleared p ∧ u.shelf = s.shelf ∧ u.log = s.log ++ [.remove p] := by
    simp only [remove, gives_bind_iff, gives_note_iff, gives_alter_iff, usual, Storage.disk] at hremove
    obtain ⟨-, _, rfl, hr, rfl⟩ := hremove
    refine ⟨?_, rfl, rfl⟩
    simp only [Disk.cleared]
    split <;> rfl
  split at h
  · obtain ⟨⟨⟩, v, htell, h⟩ := gives_bind_iff.1 h
    obtain ⟨-, rfl⟩ := gives_pure_iff.1 h
    obtain rfl := gives_tell_iff.1 htell
    exact hu
  · obtain ⟨-, rfl⟩ := gives_pure_iff.1 h
    exact hu

theorem Context.deleteAll_inv (usual : ctx.storage = .disk) {dirs : List Path}
    (h : (dirs.forM fun dir => do let _ ← ctx.delete dir).Gives s () t) :
    t.disk = dirs.foldl Disk.cleared s.disk ∧ t.shelf = s.shelf ∧
      t.log = s.log ++ dirs.map .remove := by
  induction dirs generalizing s with
  | nil =>
    obtain ⟨-, rfl⟩ := gives_pure_iff.1 h
    exact ⟨rfl, rfl, (List.append_nil _).symm⟩
  | cons dir dirs ih =>
    obtain ⟨⟨⟩, u, hdir, hall⟩ := gives_bind_iff.1 h
    obtain ⟨removed, v, hdelete, hdir⟩ := gives_bind_iff.1 hdir
    obtain ⟨-, rfl⟩ := gives_pure_iff.1 hdir
    obtain ⟨hd, hs, hl⟩ := Context.delete_inv usual hdelete
    obtain ⟨hd', hs', hl'⟩ := ih hall
    refine ⟨by rw [hd', hd, List.foldl_cons], hs'.trans hs, ?_⟩
    rw [hl', hl, List.append_assoc]
    rfl

/-- The clean stage leaves the tree in which all of the paths have been cleared. -/
theorem Stage.clean_inv (usual : ctx.storage = .disk) {dirs files : List Path}
    (h : (Stage.clean ctx dirs).run.Gives s files t) :
    files = [] ∧ t.disk = dirs.foldl Disk.cleared s.disk ∧ t.shelf = s.shelf ∧
      t.log = s.log ++ dirs.map .remove := by
  obtain ⟨⟨⟩, u, hall, h⟩ := gives_bind_iff.1 h
  obtain ⟨rfl, rfl⟩ := gives_pure_iff.1 h
  exact ⟨rfl, Context.deleteAll_inv usual hall⟩

/-- What a pipeline that begins with cleaning does next, it does in the cleaned tree. -/
theorem Context.runPipeline_clean_inv (usual : ctx.storage = .disk) {dirs : List Path}
    {stages : Pipeline} {what : String} {reports : List Report}
    (h : (ctx.runPipeline (Stage.clean ctx dirs :: stages) what).Gives s reports t) :
    ∃ u v rest total name, reports = ⟨name, []⟩ :: rest ∧
      (Pipeline.runFrom ctx.settings total 2 stages).Gives u rest v ∧
      u.disk = dirs.foldl Disk.cleared s.disk ∧ u.shelf = s.shelf ∧
      u.log = s.log ++ dirs.map .remove ∧
      t.disk = v.disk ∧ t.shelf = v.shelf ∧ t.log = v.log := by
  simp only [runPipeline, gives_bind_iff, gives_tell_iff, gives_pure_iff] at h
  obtain ⟨_, v, hrun, ⟨⟩, _, rfl, ⟨⟩, _, rfl, rfl, rfl⟩ := h
  obtain ⟨report, rest, u, rfl, hclean, hrest⟩ := Pipeline.runFrom_cons hrun
  simp only [Pipeline.runStage, gives_bind_iff, gives_tell_iff, gives_during_iff,
    gives_pure_iff] at hclean
  obtain ⟨⟨⟩, _, rfl, outputs, w, hclean, ⟨⟩, _, rfl, rfl, rfl⟩ := hclean
  obtain ⟨rfl, hd, hs, hl⟩ := Stage.clean_inv usual hclean
  exact ⟨_, v, rest, _, _, rfl, hrest, hd, hs, hl, rfl, rfl, rfl⟩

end LocaleForge
