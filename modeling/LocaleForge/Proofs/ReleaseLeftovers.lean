import LocaleForge.Proofs.Attempts
import LocaleForge.Proofs.Leftovers

/-!
What earlier commands have left in the output directory has no influence on a release. A release clears
only this directory: a staging area elsewhere is used as it is found.
-/

namespace LocaleForge

/-- The trees differ at most in what lies at and below one place, which can be cleared in both. -/
structure Disk.DifferOnlyBelow (d d' : Disk) (out : Path) (dir : Location) : Prop where
  workDir : d.workDir = d'.workDir
  elsewhere : ∀ loc, ¬ dir <+: loc → d.get? loc = d'.get? loc
  left : d.Lacks out dir ∨ d.Clearable out dir
  right : d'.Lacks out dir ∨ d'.Clearable out dir

theorem Disk.DifferOnlyBelow.erase {d d' : Disk} {out : Path} {dir : Location}
    (h : d.DifferOnlyBelow d' out dir) : d.erase dir = d'.erase dir := by
  refine ext_get? h.workDir fun l => ?_
  by_cases hl : l = []
  · simp [hl]
  · rw [get?_erase hl, get?_erase hl]
    split
    · rfl
    · exact h.elsewhere l (by simpa using ‹¬ dir.isPrefixOf l = true›)

/-! ## Looking at two trees -/

/-- Two builds that have done the same so far in trees of their own. -/
structure BuildState.Beside (d d' : Disk) (s s' : BuildState) : Prop where
  left : s.disk = d
  right : s'.disk = d'
  shelf : s.shelf = s'.shelf
  log : s.log = s'.log

namespace Build

variable {α β : Type} {d d' : Disk}

/-- The computation changes neither of the two trees, and it gives the same in both. -/
def Agrees (b : Build α) (d d' : Disk) : Prop :=
  ∀ s s', s.Beside d d' s' → (b.run.run s).1 = (b.run.run s').1 ∧
    (b.run.run s).2.Beside d d' (b.run.run s').2

theorem agrees_pure (a : α) : (pure a : Build α).Agrees d d' :=
  fun _ _ h => ⟨rfl, h⟩

theorem agrees_throw (e : Stop) : (throw e : Build α).Agrees d d' :=
  fun _ _ h => ⟨rfl, h⟩

theorem Agrees.bind {b : Build α} {f : α → Build β} (hb : b.Agrees d d')
    (hf : ∀ a, (f a).Agrees d d') : (b >>= f).Agrees d d' := by
  intro s s' h
  rw [run_bind, run_bind]
  obtain ⟨hr, hs⟩ := hb s s' h
  rcases hbs : b.run.run s with ⟨r, t⟩
  rcases hbs' : b.run.run s' with ⟨r', t'⟩
  rw [hbs, hbs'] at hr hs
  cases hr
  cases r with
  | ok a => exact hf a t t' hs
  | error e => exact ⟨rfl, hs⟩

theorem agrees_mapM {f : α → Build β} (hf : ∀ a, (f a).Agrees d d') (xs : List α) :
    (xs.mapM f).Agrees d d' := by
  induction xs with
  | nil =>
    rw [List.mapM_nil]
    exact agrees_pure []
  | cons x xs ih =>
    rw [List.mapM_cons]
    exact (hf x).bind fun y => ih.bind fun ys => agrees_pure (y :: ys)

theorem agrees_note (e : Event) : (note e).Agrees d d' :=
  fun _ _ h => ⟨rfl, h.left, h.right, h.shelf, by simp only [run_note, h.log]⟩

theorem agrees_query {f : Disk → Except Failure α} (hf : f d = f d') : (query f).Agrees d d' := by
  intro s s' h
  rw [run_query, run_query, h.left, h.right, hf]
  exact ⟨rfl, h⟩

end Build

open Build

namespace Context

variable {ctx : Context} {d d' : Disk} {out : Path} {dir : Location}

/-- Where the same sources are found, names stand for the same files. -/
theorem agrees_resolveLocales (usual : ctx.storage = .disk)
    (same : ∀ pattern, d.expand ctx.settings.srcDir pattern = d'.expand ctx.settings.srcDir pattern)
    (names : List String) : (ctx.resolveLocales names).Agrees d d' := by
  refine agrees_mapM (fun name => ?_) names
  have hexpand : ∀ pattern, (ctx.expand ctx.settings.srcDir pattern).Agrees d d' := by
    intro pattern
    refine (agrees_note _).bind fun _ => agrees_query ?_
    simp only [usual, Storage.disk, same]
  refine (hexpand _).bind fun files => ?_
  cases files with
  | nil => exact agrees_throw _
  | cons file files =>
    cases files with
    | nil => exact agrees_pure file
    | cons other files => exact agrees_throw _

/-- After the output directory is cleaned, nothing tells the two builds apart. -/
theorem runStage_clean_agree (usual : ctx.storage = .disk) (n total : Nat)
    (h : d.DifferOnlyBelow d' out dir) {s s' : BuildState} (hs : s.Beside d d' s') :
    (Pipeline.runStage ctx.settings n total (Stage.clean ctx [out])).Alike s s' := by
  have run : ∀ s : BuildState, s.disk.Lacks out dir ∨ s.disk.Clearable out dir →
      ∃ t, (Pipeline.runStage ctx.settings n total (Stage.clean ctx [out])).Gives s
          ⟨(Stage.clean ctx [out]).name, []⟩ t ∧
        t.SameWork { s with disk := s.disk.erase dir, log := s.log ++ [.remove out] } := by
    intro s hd
    let announced : BuildState := { s with
      console := s.console ++ [.step n total (Stage.clean ctx [out]).name] }
    obtain ⟨removed, t, ht, hts⟩ := delete_gives (s := announced) usual hd
    have hclean : (Stage.clean ctx [out]).run.Gives announced [] t :=
      Gives.bind (Gives.bind (ht.bind (gives_pure () t)) (gives_pure () t)) (gives_pure [] t)
    obtain ⟨u, hu, hus⟩ := Pipeline.runStage_gives ctx.settings n total hclean
    exact ⟨u, hu, hus.trans ⟨hts.disk, hts.shelf, hts.log⟩⟩
  obtain ⟨t, ht, hts⟩ := run s (hs.left ▸ h.left)
  obtain ⟨t', ht', hts'⟩ := run s' (hs.right ▸ h.right)
  refine ht.alike ht' (hts.trans (BuildState.SameWork.trans ?_ hts'.symm))
  exact ⟨by rw [hs.left, hs.right, h.erase], hs.shelf, by rw [hs.log]⟩

/-- What earlier commands have left in the output directory does not matter: from two trees that differ
only there, a release ends with the same reports or the same failure, after the same calls. It leaves
the same tree, unless a locale is not found, and then both trees are as they were. -/
theorem release_ignores_output (usual : ctx.storage = .disk) (plan : ReleasePlan)
    (h : d.DifferOnlyBelow d' ctx.settings.outDir dir)
    (sources : plan.locales = [] ∨
      ∀ pattern, d.expand ctx.settings.srcDir pattern = d'.expand ctx.settings.srcDir pattern) :
    (ctx.releaseFrom plan d).1 = (ctx.releaseFrom plan d').1 ∧
    (ctx.releaseFrom plan d).2.log = (ctx.releaseFrom plan d').2.log ∧
    ((ctx.releaseFrom plan d).2.disk = (ctx.releaseFrom plan d').2.disk ∨
      (∃ stop, ((ctx.resolveLocales plan.locales).run.run (.fresh d)).1 = .error stop) ∧
        (ctx.releaseFrom plan d).2.disk = d ∧ (ctx.releaseFrom plan d').2.disk = d') := by
  have hnames : (ctx.resolveLocales plan.locales).Agrees d d' := by
    rcases sources with hnone | same
    · rw [hnone]
      exact agrees_pure []
    · exact agrees_resolveLocales usual same plan.locales
  obtain ⟨hr, hs⟩ := hnames (.fresh d) (.fresh d') ⟨rfl, rfl, rfl, rfl⟩
  rw [releaseFrom, releaseFrom, release, run_bind, run_bind]
  rcases hleft : (ctx.resolveLocales plan.locales).run.run (.fresh d) with ⟨r, s⟩
  rcases hright : (ctx.resolveLocales plan.locales).run.run (.fresh d') with ⟨r', s'⟩
  rw [hleft, hright] at hr hs
  cases hr
  cases r with
  | error stop => exact ⟨rfl, hs.log, .inr ⟨⟨stop, rfl⟩, hs.left, hs.right⟩⟩
  | ok files =>
    have hstages := Pipeline.blind_releaseStages ctx plan files
    have halike : (ctx.runPipeline (Pipeline.release ctx plan files) "release").Alike s s' := by
      rw [runPipeline, Pipeline.run]
      rw [Pipeline.release, List.cons_append, List.cons_append] at hstages ⊢
      rw [Pipeline.runFrom, bind_assoc]
      refine (runStage_clean_agree usual _ _ h hs).bind fun report => ?_
      refine Blind.bind ?_ fun _ => (blind_tell _).bind fun _ => (blind_tell _).bind fun _ => blind_pure _
      exact (Pipeline.blind_runFrom hstages _).bind fun _ => blind_pure _
    exact ⟨halike.1, halike.2.log, .inl halike.2.disk⟩

end Context

/-! ## A small project -/

namespace Disk

theorem small_hasDirectory_build : small.HasDirectory ⟨"/build"⟩ ["build"] :=
  ⟨fun follow => by cases follow <;> rfl, rfl⟩

theorem used_hasDirectory_build : used.HasDirectory ⟨"/build"⟩ ["build"] :=
  ⟨fun follow => by cases follow <;> rfl, rfl⟩

theorem used_differOnlyBelow : small.DifferOnlyBelow used ⟨"/build"⟩ ["build"] where
  workDir := workDir_set ..
  elsewhere loc hloc := by
    refine used_elsewhere loc (fun h => hloc ?_) fun h => hloc ?_
    · exact (List.prefix_append ["build"] ["esm"]).trans h
    · exact (List.prefix_append ["build"] ["tmp"]).trans h
  left := .inr ⟨small_hasDirectory_build, ⟨"build", rfl, by decide, by decide⟩, _, rfl⟩
  right := .inr ⟨used_hasDirectory_build, ⟨"build", rfl, by decide, by decide⟩, _, rfl⟩

/-- The tree of the small project with an old copy of its sources beside the output directory. -/
def staged : Disk :=
  (small.set ["stage"] .directory).set ["stage", "m.js"] (.file (Text.encode "old") false)

end Disk

/-- A release in two formats, the second of which meets what the first one has left. -/
def ReleasePlan.small : ReleasePlan where
  formats := [.esm, .esm]
  concatTests := true
  locales := []

namespace Context

theorem release_ignores_output_small :
    Disk.small.DifferOnlyBelow .used (small .small "b").settings.outDir ["build"] ∧
    ((small .small "b").releaseFrom .small .small).2.disk =
      ((small .small "b").releaseFrom .small .used).2.disk := by
  refine ⟨Disk.used_differOnlyBelow, ?_⟩
  rcases (@release_ignores_output (small .small "b") _ _ _ rfl .small Disk.used_differOnlyBelow
    (.inl rfl)).2.2 with h | ⟨⟨stop, h⟩, -⟩
  · exact h
  · cases h

/-- The small project with its staging area beside the output directory. -/
def aside : Context :=
  small { Settings.small with tmpDir := ⟨"/stage"⟩, localesPattern := "l" } "b"

set_option maxRecDepth 10000 in
theorem stale_staging :
    (aside.releaseFrom .small .small).2.disk.content? ["stage", "m.js"] = some (Text.encode "m") ∧
    (aside.releaseFrom .small .staged).2.disk.content? ["stage", "m.js"] = some (Text.encode "old") := by
  decide +kernel

/-- A staging area beside the output directory is not cleared by a release, which uses the old copy of
the sources that it finds there. -/
theorem release_keeps_staging :
    (Disk.small.HasDirectory aside.settings.outDir ["build"] ∧
      Disk.small.Lacks aside.settings.tmpDir ["stage"]) ∧
    (Disk.staged.HasDirectory aside.settings.outDir ["build"] ∧
      Disk.staged.HasDirectory aside.settings.tmpDir ["stage"]) ∧
    (∀ loc, ¬ ["build"] <+: loc → ¬ ["stage"] <+: loc →
      Disk.small.get? loc = Disk.staged.get? loc) ∧
    (aside.releaseFrom .small .small).2.disk.content? ["stage", "m.js"] ≠
      (aside.releaseFrom .small .staged).2.disk.content? ["stage", "m.js"] := by
  refine ⟨⟨Disk.small_hasDirectory_build, rfl, rfl⟩, ⟨⟨?_, rfl⟩, ?_, rfl⟩, fun loc _ hloc => ?_, ?_⟩
  · exact fun follow => by cases follow <;> rfl
  · exact fun follow => by cases follow <;> rfl
  · have hne : ∀ l : Location, ["stage"] <+: l → loc ≠ l := by
      rintro l hl rfl
      exact hloc hl
    rw [Disk.staged, Disk.get?_set_of_ne (hne ["stage", "m.js"] (by decide)),
      Disk.get?_set_of_ne (hne ["stage"] (by decide))]
  · obtain ⟨hsmall, hstale⟩ := stale_staging
    rw [hsmall, hstale]
    decide

end Context

end LocaleForge
