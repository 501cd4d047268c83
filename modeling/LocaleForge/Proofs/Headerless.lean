import LocaleForge.Proofs.Concord
import LocaleForge.Proofs.Correspondence
import LocaleForge.Proofs.Mirror
import LocaleForge.Proofs.Requests
import LocaleForge.Proofs.Settled

/-!
Bundles as modules take no headers: a build of that format reads no file, and it does the same whatever
the templates hold, and whether they are there.
-/

namespace LocaleForge

open Build

/-- The states are the same but for files at some of the places, and no file has been read. -/
structure BuildState.AgreesOff (workDir : Location) (places : Location → Prop) (s t : BuildState) :
    Prop where
  disk : s.disk.AgreesOff workDir places t.disk
  shelf : s.shelf = t.shelf
  console : s.console = t.console
  log : s.log = t.log
  unread : ∀ p, .read p ∉ s.log

/-- A call that reads no file and keeps clear of the places. -/
def Event.KeepsOff (workDir : Location) (places : Location → Prop) : Event → Prop
  | .write p => p.Steers workDir places
  | .copy source target => source.Steers workDir places ∧ target.Steers workDir places
  | .expand root _ => root.Clear workDir places
  | .remove p => p.Steers workDir places
  | .request r => r.entry.Steers workDir places
  | .read _ | .reply _ | .probe _ => False

namespace BuildState.AgreesOff

variable {workDir : Location} {places : Location → Prop} {s t : BuildState} {e : Event}

theorem noted (h : AgreesOff workDir places s t) (he : e.isRead = false) :
    AgreesOff workDir places { s with log := s.log ++ [e] } { t with log := t.log ++ [e] } where
  disk := h.disk
  shelf := h.shelf
  console := h.console
  log := congrArg (· ++ [e]) h.log
  unread p hp := by
    rcases List.mem_append.1 hp with hp | hp
    · exact h.unread p hp
    · rw [← List.mem_singleton.1 hp] at he
      cases he

theorem changed {α : Type} {f : Disk → Except Failure α × Disk} (h : AgreesOff workDir places s t)
    (he : e.isRead = false) (hf : Disk.AgreesOff.Both workDir places (f s.disk) (f t.disk)) :
    ChangedAlike (AgreesOff workDir places) e f s t :=
  ⟨hf.1, (noted (s := { s with disk := (f s.disk).2 }) (t := { t with disk := (f t.disk).2 })
    ⟨hf.2, h.shelf, h.console, h.log, h.unread⟩ he)⟩

end BuildState.AgreesOff

namespace Context

variable {ctx : Context} {workDir : Location} {places : Location → Prop}

/-- Calls that keep clear of the places do the same whatever lies there. -/
theorem corresponds_agreesOff (usual : ctx.storage = .disk) (quiet : ctx.bundler.Quiet)
    (reads : ctx.bundler.ReadsEntry) (htmp : ctx.settings.tmpDir.Clear workDir places) :
    ctx.Corresponds (BuildState.AgreesOff workDir places) (Event.KeepsOff workDir places)
      Path.Plain where
  tell h m := ⟨h.disk, h.shelf, congrArg (· ++ [m]) h.console, h.log, h.unread⟩
  shelf h := h.shelf
  shelve h p text := ⟨h.disk, congrArg (·.put p text) h.shelf, h.console, h.log, h.unread⟩
  staging h := by
    rw [usual]
    exact h.disk.exists?_eq htmp.steers
  read hp := hp.elim
  expand {_ pattern} hroot s t h := by
    refine ⟨?_, h.noted rfl⟩
    simp only [usual, Storage.disk, h.disk.expand_eq hroot pattern]
  found h := by
    rw [usual] at h
    exact fun file hfile => Disk.plain_of_expand (mapError_eq_ok_iff.1 h) hfile
  write text hp s t h := h.changed rfl (usual ▸ h.disk.write hp text)
  copy hp s t h := h.changed rfl (usual ▸ h.disk.copyFile hp.1 hp.2)
  remove hp s t h := h.changed rfl (usual ▸ h.disk.remove hp)
  registered hp := hp.elim
  request hr s t h := h.noted rfl
  reply {r} hr s t h := by
    refine h.changed rfl ⟨reads r s.disk t.disk ?_, ?_⟩
    · rw [h.disk.readText_eq hr]
    · rw [quiet r s.disk, quiet r t.disk]
      exact h.disk

/-! ## What the settings say of the calls -/

variable (ctx) in
/-- The directories of the settings are clear of the places. -/
structure KeepsClear (workDir : Location) (places : Location → Prop) : Prop where
  main : Path.Plain ctx.settings.mainEntry
  src : ctx.settings.srcDir.Clear workDir places
  out : ctx.settings.outDir.Clear workDir places
  tmp : ctx.settings.tmpDir.Clear workDir places

theorem headerless_allowed {j : Job} (hheader : j.headerPath ctx.settings = Job.noHeader)
    (hentry : j.entryPath.Steers workDir places) (htarget : j.target.Steers workDir places) :
    j.Allowed ctx.settings (Event.KeepsOff workDir places) :=
  ⟨.inl hheader, hentry, htarget⟩

namespace KeepsClear

variable (h : ctx.KeepsClear workDir places)

include h

theorem formatDir (f : Format) : (ctx.settings.formatDir f).Clear workDir places :=
  h.out.join f.simple_word.plain

/-- A build of modules takes no headers, and all its calls keep clear. -/
theorem format : ctx.settings.AllowsFormat (Event.KeepsOff workDir places) Path.Plain .esm where
  sources _ := h.src
  main := headerless_allowed rfl (h.src.join h.main).steers ((h.formatDir .esm).join h.main).steers
  locale hfile := headerless_allowed rfl (h.src.join hfile).steers ((h.formatDir .esm).join hfile).steers
  test hfile := headerless_allowed rfl (h.src.join hfile).steers ((h.formatDir .esm).join hfile).steers
  staged hfile := ⟨(h.src.join hfile).steers, (h.tmp.join hfile).steers⟩
  placed hentry := (h.tmp.join hentry.plain).steers
  aggregate _ hentry := headerless_allowed rfl (h.tmp.join hentry.plain).steers
    (((h.formatDir .esm).join Pipeline.simple_min.plain).join hentry.plain).steers

end KeepsClear

end Context

/-- A template of the settings is looked up there. -/
def Disk.TemplateAt (d : Disk) (s : Settings) (l : Location) : Prop :=
  ∃ p ∈ [s.defaultHeader, s.localeHeader, s.testHeader], d.heading? p = some l

instance (d : Disk) (s : Settings) : DecidablePred (d.TemplateAt s) := fun l =>
  inferInstanceAs (Decidable (∃ p ∈ [s.defaultHeader, s.localeHeader, s.testHeader], d.heading? p = some l))

instance (workDir : Location) (places : Location → Prop) [DecidablePred places] (p : Path) :
    Decidable (p.Steers workDir places) :=
  inferInstanceAs (Decidable (∀ l ∈ Path.passes (p.start workDir) _, ¬ places l))

namespace Context

variable {ctx : Context} {X Y : Disk}

/-- The two trees differ in template files only, and no template is looked up in the directory of the
sources, of the bundles or of the staging area, or above it. -/
structure TemplatesAside (ctx : Context) (X Y : Disk) : Prop where
  same : Disk.AgreesOff X.workDir (X.TemplateAt ctx.settings) X Y
  apart : ∀ dir ∈ [ctx.settings.srcDir, ctx.settings.outDir, ctx.settings.tmpDir],
    ∀ loc, X.heading? dir = some loc → ∀ l, X.TemplateAt ctx.settings l → Disk.Apart l loc

theorem TemplatesAside.clear (h : ctx.TemplatesAside X Y) {dir : Path}
    (hdir : dir ∈ [ctx.settings.srcDir, ctx.settings.outDir, ctx.settings.tmpDir])
    (hsteers : dir.Steers X.workDir (X.TemplateAt ctx.settings)) :
    dir.Clear X.workDir (X.TemplateAt ctx.settings) := by
  refine ⟨hsteers, fun l hbelow hl => ?_⟩
  have hheads := h.same.leftFree.heading?_eq_ends dir
  exact (h.apart dir hdir _ hheads l hl).2 (Disk.isBelow_iff.1 hbelow).1

/-- A build of modules reads no file, and it ignores the templates: from two trees that differ only in
them it ends with the same reports or the same failure, after the same calls and requests, and leaves the
same in the directories of the bundles and of the staging area. The paths to the directories must not
lead through a template. -/
theorem build_ignores_templates (usual : ctx.storage = .disk) (quiet : ctx.bundler.Quiet)
    (reads : ctx.bundler.ReadsEntry) (main : Path.Plain ctx.settings.mainEntry)
    (aside : ctx.TemplatesAside X Y)
    (steers : ∀ dir ∈ [ctx.settings.srcDir, ctx.settings.outDir, ctx.settings.tmpDir],
      dir.Steers X.workDir (X.TemplateAt ctx.settings)) :
    (ctx.buildFrom .esm X).1 = (ctx.buildFrom .esm Y).1 ∧
    (ctx.buildFrom .esm X).2.log = (ctx.buildFrom .esm Y).2.log ∧
    (ctx.buildFrom .esm X).2.console = (ctx.buildFrom .esm Y).2.console ∧
    (∀ p, .read p ∉ (ctx.buildFrom .esm X).2.log) ∧
    ∀ dir ∈ [ctx.settings.outDir, ctx.settings.tmpDir], ∀ loc, X.heading? dir = some loc →
      ∀ l, loc <+: l → (ctx.buildFrom .esm X).2.disk.get? l = (ctx.buildFrom .esm Y).2.disk.get? l := by
  have hclear : ctx.KeepsClear X.workDir (X.TemplateAt ctx.settings) := {
    main := main
    src := aside.clear (by simp) (steers _ (by simp))
    out := aside.clear (by simp) (steers _ (by simp))
    tmp := aside.clear (by simp) (steers _ (by simp)) }
  have hcarries := (corresponds_agreesOff usual quiet reads hclear.tmp).carries
  have hbuild := hcarries.build hclear.format (hclear.formatDir .esm).steers hclear.tmp.steers
  have hfresh : BuildState.AgreesOff X.workDir (X.TemplateAt ctx.settings) (.fresh X) (.fresh Y) :=
    ⟨aside.same, rfl, rfl, rfl, fun _ => List.not_mem_nil⟩
  obtain ⟨hresult, hend, -⟩ := hbuild _ _ hfresh
  refine ⟨hresult, hend.log, hend.console, hend.unread, fun dir hdir loc hloc l hl => ?_⟩
  refine hend.disk.get?_eq fun hplace => ?_
  exact (aside.apart dir (List.mem_cons_of_mem _ hdir) loc hloc l hplace).2 hl

end Context

/-! ## A small project -/

/-- The small project with short names and its default template. -/
def Disk.withTemplate : Disk :=
  Disk.short.set ["d"] (.file (Text.encode "h") false)

namespace Context

theorem templatesAside {ctx : Context} {X Y : Disk}
    (same : Disk.AgreesOff X.workDir (X.TemplateAt ctx.settings) X Y)
    (apart : ∀ dir ∈ [ctx.settings.srcDir, ctx.settings.outDir, ctx.settings.tmpDir],
      ∀ p ∈ [ctx.settings.defaultHeader, ctx.settings.localeHeader, ctx.settings.testHeader],
        ∀ loc ∈ X.heading? dir, ∀ l ∈ X.heading? p, Disk.Apart l loc) : ctx.TemplatesAside X Y := by
  refine ⟨same, fun dir hdir loc hloc l hl => ?_⟩
  obtain ⟨p, hp, hheads⟩ := hl
  exact apart dir hdir p hp loc hloc l hheads

theorem templatesAside_short : (small .short "b").TemplatesAside .withTemplate .short := by
  refine templatesAside (Disk.agreesOff_set (Disk.linkFree_of_entries ?_) ?_ ?_ rfl) ?_
  · decide +kernel
  · decide +kernel
  · decide +kernel
  · decide +kernel

theorem build_ignores_templates_small :
    (.read ⟨"/d"⟩ ∉ ((small .short "b").buildFrom .esm .withTemplate).2.log) ∧
    ((small .short "b").buildFrom .esm .withTemplate).1 = ((small .short "b").buildFrom .esm .short).1 := by
  have h := @build_ignores_templates (small .short "b") .withTemplate .short rfl (fun _ _ => rfl)
    (fun _ _ _ _ => rfl) Settings.plain_small templatesAside_short (by decide +kernel)
  exact ⟨h.2.2.2.1 _, h.1⟩

end Context

/-! ## Where a template matters -/

/-- The main entry, beside a directory. -/
def Disk.roomy : Disk :=
  ((empty.set ["e"] .directory).set ["s"] .directory).set ["s", "m.js"] (.file (Text.encode "m") false)

namespace Context

/-- The path to the bundles leads through the place of the default template. -/
def sideways : Context :=
  small { Settings.short with outDir := ⟨"/h/../o"⟩, defaultHeader := ⟨"/e/../h"⟩ } "b"

theorem templatesAside_roomy :
    sideways.TemplatesAside (Disk.roomy.set ["h"] (.file (Text.encode "h") false)) .roomy := by
  refine templatesAside (Disk.agreesOff_set (Disk.linkFree_of_entries ?_) ?_ ?_ rfl) ?_
  · decide +kernel
  · decide +kernel
  · decide +kernel
  · decide +kernel

set_option maxRecDepth 20000 in
theorem sideways_ends :
    (sideways.buildFrom .esm (Disk.roomy.set ["h"] (.file (Text.encode "h") false))).1.toOption.isSome =
      false ∧
    (sideways.buildFrom .esm .roomy).1.toOption.isSome = true := by
  decide +kernel

/-- A build of modules fails where the path to the bundles leads through a template, and succeeds without
the template. -/
theorem build_heeds_template : ∃ (ctx : Context) (X Y : Disk), ctx.storage = .disk ∧ ctx.bundler.Quiet ∧
    ctx.bundler.ReadsEntry ∧ Path.Plain ctx.settings.mainEntry ∧ ctx.TemplatesAside X Y ∧
    (ctx.buildFrom .esm X).1 ≠ (ctx.buildFrom .esm Y).1 := by
  obtain ⟨hfails, hdone⟩ := sideways_ends
  refine ⟨sideways, _, _, rfl, fun _ _ => rfl, fun _ _ _ _ => rfl, Settings.plain_small,
    templatesAside_roomy, fun he => ?_⟩
  rw [he, hdone] at hfails
  cases hfails

end Context

end LocaleForge
