import LocaleForge.Proofs.Answers
import LocaleForge.Proofs.Cleaning
import LocaleForge.Proofs.Setting
import Mathlib.Data.List.Nodup

/-!
The layout of a build: below the output directory of the format lie the files that the stages are
reported with, and nothing else; the text of each one is made from the bundler's answer to its job.
-/

namespace LocaleForge

namespace Disk

/-- The output directory can be cleared, and the paths to it and to the staging area head to places
apart from each other. No link is left below the second place. -/
structure Separates (d : Disk) (out : Path) (dir : Location) (staging : Path) (tmp : Location) :
    Prop where
  output : d.Lacks out dir ∨ d.Clearable out dir
  outputHeads : ((d.cleared out).cleared staging).heading? out = some dir
  stagingHeads : ((d.cleared out).cleared staging).heading? staging = some tmp
  noLinks : ∀ l, tmp <+: l → l ≠ tmp →
    ∀ target, ((d.cleared out).cleared staging).get? l ≠ some (.link target)
  apart : ¬ dir <+: tmp ∧ ¬ tmp <+: dir

variable {d X : Disk} {out staging p : Path} {dir tmp loc : Location}

theorem Separates.dir_ne_nil (h : d.Separates out dir staging tmp) : dir ≠ [] := by
  rintro rfl
  exact h.apart.1 List.nil_prefix

/-- Nothing is left at the output directory. -/
theorem Separates.get?_eq_none (h : d.Separates out dir staging tmp) {l : Location} (hl : dir <+: l) :
    ((d.cleared out).cleared staging).get? l = none := by
  refine (cleared_keeps _ staging).get?_eq_none ?_
  rw [cleared_eq_erase h.output, get?_erase]
  · rw [if_pos (List.isPrefixOf_iff_prefix.2 hl)]
  · rintro rfl
    exact h.dir_ne_nil (List.prefix_nil.1 hl)

theorem content?_eq_none (h : d.get? loc = none) : d.content? loc = none := by
  rw [content?, h]

theorem locate_of_find {e : Entry} {b : Bool} (h : d.find true p = .ok ⟨loc, some e, b⟩) :
    d.locate p = .ok loc := by
  rw [locate, h]
  simp only [bind, Except.bind, Option.isSome_some, if_true]

/-- Above a file are directories only. -/
theorem content?_eq_none_of_above {l : Location} {content : ByteArray} (h : d.content? l = some content)
    (hl : loc <+: l) (hne : l ≠ loc) : d.content? loc = none := by
  obtain ⟨x, hg⟩ := get?_of_content? h
  have hb : isBelow loc l = true := by simp [isBelow, List.isPrefixOf_iff_prefix.2 hl, hne]
  rw [content?, get?_of_isBelow hb hg]

/-- The jobs of a format write below its output directory, and all else goes to the staging area. -/
theorem Separates.zones (h : d.Separates out dir staging tmp) :
    ((d.cleared out).cleared staging).Zones out.Beneath staging.Beneath (dir <+: ·) (tmp <+: ·) where
  target := by
    rintro _ l ⟨rel, hrel, rfl⟩ hl
    rw [heading?_join h.outputHeads (fun l hl _ target hg => ?_) hrel] at hl
    · cases hl
      exact List.prefix_append dir _
    · rw [h.get?_eq_none hl] at hg
      cases hg
  other := by
    rintro _ l ⟨rel, hrel, rfl⟩ hl
    rw [heading?_join h.stagingHeads h.noLinks hrel] at hl
    cases hl
    exact List.prefix_append tmp _

/-- The first aggregate lies below the output directory. -/
theorem Separates.heading?_min {settings : Settings} {f : Format}
    (h : d.Separates (settings.formatDir f) dir staging tmp) :
    ((d.cleared (settings.formatDir f)).cleared staging).heading?
      (Pipeline.aggregateTarget settings f "locales.js") = some (dir ++ ["min", "locales.js"]) := by
  rw [Pipeline.aggregateTarget_eq Pipeline.simple_locales]
  have hrel := Pipeline.plain_min Pipeline.simple_locales
  rw [heading?_join h.outputHeads (fun l hl _ target hg => ?_) hrel]
  · rw [Pipeline.names_min Pipeline.simple_locales]
  · rw [h.get?_eq_none hl] at hg
    cases hg

theorem Separates.not_aside (h : d.Separates out dir staging tmp) {l : Location} (hl : dir <+: l) :
    ¬ tmp <+: l := by
  intro ht
  rcases List.prefix_or_prefix_of_prefix hl ht with hp | hp
  · exact h.apart.1 hp
  · exact h.apart.2 hp

end Disk

section

variable {ctx : Context} {d : Disk} {targets : Path → Prop} {product aside : Location → Prop}
  {s : BuildState} {o : List OpenCall} {a : Answered} {answers : List Answered} {l : Location}

/-- The job of an answer has its file where its target heads. -/
theorem Laid.isSome_content? (h : Laid ctx.settings d targets product aside ⟨o, answers, s⟩)
    (ha : a ∈ answers) (hl : d.heading? a.job.target = some l) (haside : ¬ aside l) :
    (s.disk.content? l).isSome := by
  have hc := h.content l haside
  cases hlast : Answered.lastAt d l answers with
  | none => exact absurd hl (Answered.lastAt_eq_none_iff.1 hlast a ha)
  | some b =>
    rw [hlast] at hc
    rw [hc]
    rfl

theorem Laid.locate (h : Laid ctx.settings d targets product aside ⟨o, answers, s⟩)
    (ha : a ∈ answers) : ∃ l, product l ∧ d.heading? a.job.target = some l ∧
      s.disk.locate a.job.target = .ok l := by
  obtain ⟨l, e, b, hp, hh, hf⟩ := h.placed a ha
  exact ⟨l, hp, hh, Disk.locate_of_find hf⟩

/-- Where a file lies that was not there at the start, there lies the target of a job. -/
theorem Laid.target_of_content? (h : Laid ctx.settings d targets product aside ⟨o, answers, s⟩)
    (haside : ¬ aside l) (hstart : d.content? l = none) (hc : (s.disk.content? l).isSome) :
    ∃ a ∈ answers, s.disk.locate a.job.target = .ok l := by
  rw [h.content l haside] at hc
  split at hc
  case h_1 a hlast =>
    obtain ⟨ha, hh⟩ := Answered.lastAt_eq_some hlast
    obtain ⟨l', -, hh', hlocate⟩ := h.locate ha
    rw [hh] at hh'
    cases hh'
    exact ⟨a, ha, hlocate⟩
  case h_2 =>
    rw [hstart] at hc
    cases hc

/-- If no two jobs share a target, each file is the output of its own job. -/
theorem Laid.readText (h : Laid ctx.settings d targets product aside ⟨o, answers, s⟩)
    (hapart : ∀ l, product l → ¬ aside l)
    (hdistinct : (answers.map fun a => s.disk.locate a.job.target).Nodup) (ha : a ∈ answers) :
    s.disk.readText a.job.target = .ok (a.call.output ctx.settings a.reply) := by
  obtain ⟨l, e, b, hp, hh, hf⟩ := h.placed a ha
  have hc := h.content l (hapart l hp)
  cases hlast : Answered.lastAt d l answers with
  | none => exact absurd hh (Answered.lastAt_eq_none_iff.1 hlast a ha)
  | some a' =>
    obtain ⟨ha', hh'⟩ := Answered.lastAt_eq_some hlast
    obtain ⟨l', -, hh'', hlocate⟩ := h.locate ha'
    rw [hh'] at hh''
    cases hh''
    obtain rfl : a' = a := List.inj_on_of_nodup_map hdistinct ha' ha
      (hlocate.trans (Disk.locate_of_find hf).symm)
    rw [hlast] at hc
    simp only [Answered.output] at hc
    exact Disk.readText_of_content? hf hc

end

open Pipeline

namespace Context

variable {ctx : Context} {f : Format} {d : Disk} {dir tmp : Location} {reports : List Report}
  {t : BuildState}

/-- A build that succeeds is a course from the cleaned tree in which each job is answered once. -/
theorem course_of_build (usual : ctx.storage = .disk) (quiet : ctx.bundler.Quiet)
    (hmain : Path.Plain ctx.settings.mainEntry)
    (h : d.Separates (ctx.settings.formatDir f) dir ctx.settings.tmpDir tmp)
    (hrun : (ctx.build f).Gives (.fresh d) reports t) :
    ∃ locales tests answers,
      (answers.map Answered.job).Perm (formatJobs ctx.settings f locales tests).flatten ∧
      reports.flatMap (·.outputs) =
        (formatJobs ctx.settings f locales tests).flatten.map (·.target) ∧
      Laid ctx.settings ((d.cleared (ctx.settings.formatDir f)).cleared ctx.settings.tmpDir)
        (ctx.settings.formatDir f).Beneath (dir <+: ·) (tmp <+: ·) ⟨[], answers, t⟩ ∧
      Faithful ctx ((d.cleared (ctx.settings.formatDir f)).cleared ctx.settings.tmpDir)
        (fun l => dir <+: l ∨ tmp <+: l) ⟨[], answers, t⟩ := by
  obtain ⟨u, v, rest, total, name, rfl, hstages, hu, hshelf, hlog, htv, htshelf, htlog⟩ :=
    runPipeline_clean_inv usual hrun
  have zones := h.zones
  have hbase : u.disk = (d.cleared (ctx.settings.formatDir f)).cleared ctx.settings.tmpDir := hu
  rw [← hbase] at zones ⊢
  obtain ⟨locales, tests, parts, hran, -, -, -⟩ :=
    ran_of_formatStages (a := []) usual (hmain.beneath _) (fun hrel => hrel.beneath _)
      (fun hrel => hrel.beneath _) hstages
  have laid : Laid ctx.settings u.disk (ctx.settings.formatDir f).Beneath (dir <+: ·) (tmp <+: ·)
      ⟨[], [], u⟩ := .start _ _ _ _ u
  have faithful : Faithful ctx u.disk (fun l => dir <+: l ∨ tmp <+: l) ⟨[], [], u⟩ :=
    .start ctx _ hshelf (by rw [hlog]; rfl)
  refine ⟨locales, tests, _, hran.jobs.perm, ?_, ?_, ?_⟩
  · rw [List.flatMap_cons, hran.flatMap_outputs, List.nil_append]
  · exact (laid.moves usual quiet zones hran.moves).same_disk htv fun _ h => absurd h List.not_mem_nil
  · exact (faithful.moves usual quiet zones laid hran.moves).same_shelf htshelf (by rw [htlog])

/-- The output directory itself is a directory, since an aggregate lies below it. -/
theorem content?_dir (h : d.Separates (ctx.settings.formatDir f) dir ctx.settings.tmpDir tmp)
    {locales : List String} {tests : List (List String)} {answers : List Answered}
    (hperm : (answers.map Answered.job).Perm (formatJobs ctx.settings f locales tests).flatten)
    (laid : Laid ctx.settings ((d.cleared (ctx.settings.formatDir f)).cleared ctx.settings.tmpDir)
        (ctx.settings.formatDir f).Beneath (dir <+: ·) (tmp <+: ·) ⟨[], answers, t⟩) :
    t.disk.content? dir = none := by
  obtain ⟨a, ha, hjob⟩ : ∃ a ∈ answers, a.job = aggregateJob ctx.settings "locales.js"
      (aggregateTarget ctx.settings f "locales.js") f true := by
    refine List.mem_map.1 (hperm.mem_iff.2 ?_)
    simp [formatJobs]
  have htarget : a.job.target = aggregateTarget ctx.settings f "locales.js" := by
    rw [hjob, aggregateJob]
  have hheads := h.heading?_min
  rw [← htarget] at hheads
  have hbelow : dir <+: dir ++ ["min", "locales.js"] := List.prefix_append _ _
  obtain ⟨content, hc⟩ := Option.isSome_iff_exists.1
    (laid.isSome_content? ha hheads (h.not_aside hbelow))
  exact Disk.content?_eq_none_of_above hc hbelow (by simp)

/-- A build that succeeds leaves exactly the reported files below the output directory. Each of its
jobs was answered once; if no two of them share a target, each file is the answer to its job, without
the first lines, with the header in front, and relocated. -/
theorem build_layout (usual : ctx.storage = .disk) (quiet : ctx.bundler.Quiet)
    (hmain : Path.Plain ctx.settings.mainEntry)
    (h : d.Separates (ctx.settings.formatDir f) dir ctx.settings.tmpDir tmp)
    (hrun : (ctx.build f).Gives (.fresh d) reports t) :
    (∀ p ∈ reports.flatMap (·.outputs), ∃ loc, t.disk.locate p = .ok loc) ∧
    (∀ loc, (Disk.isBelow dir loc ∧ (t.disk.content? loc).isSome) ↔
      ∃ p ∈ reports.flatMap (·.outputs), t.disk.locate p = .ok loc) ∧
    ∃ locales tests, ∃ answers : List Answered,
      (answers.map Answered.job).Perm (formatJobs ctx.settings f locales tests).flatten ∧
      reports.flatMap (·.outputs) =
        (formatJobs ctx.settings f locales tests).flatten.map (·.target) ∧
      t.log.filterMap Event.reply? =
        answers.map (fun a => ⟨.ofJob ctx.settings a.job, some a.reply⟩) ∧
      t.shelf.FitsTo ((d.cleared (ctx.settings.formatDir f)).cleared ctx.settings.tmpDir)
        (fun l => dir <+: l ∨ tmp <+: l) ∧
      (((reports.flatMap (·.outputs)).map t.disk.locate).Nodup → ∀ a ∈ answers,
        ∃ header, t.shelf.Heads ctx.settings a.job header ∧
          t.disk.readText a.job.target = .ok (relocate a.job.comments ctx.settings.localeMarker
            (header ++ Text.dropLines a.job.skipped a.reply))) := by
  obtain ⟨locales, tests, answers, hperm, houtputs, laid, faithful⟩ :=
    course_of_build usual quiet hmain h hrun
  have mem_outputs : ∀ p, p ∈ reports.flatMap (·.outputs) ↔ ∃ a ∈ answers, a.job.target = p := by
    intro p
    rw [houtputs, ← (hperm.map _).mem_iff, List.map_map]
    exact List.mem_map
  refine ⟨fun p hp => ?_, fun loc => ⟨?_, ?_⟩, locales, tests, answers, hperm, houtputs, ?_,
    faithful.shelf, fun hdistinct a ha => ?_⟩
  · obtain ⟨a, ha, rfl⟩ := (mem_outputs p).1 hp
    obtain ⟨l, -, -, hl⟩ := laid.locate ha
    exact ⟨l, hl⟩
  · rintro ⟨hbelow, hc⟩
    have hloc : dir <+: loc := (Disk.isBelow_iff.1 hbelow).1
    have hstart := Disk.content?_eq_none (h.get?_eq_none hloc)
    obtain ⟨a, ha, hl⟩ := laid.target_of_content? (h.not_aside hloc) hstart hc
    exact ⟨_, (mem_outputs _).2 ⟨a, ha, rfl⟩, hl⟩
  · rintro ⟨p, hp, hlocate⟩
    obtain ⟨a, ha, rfl⟩ := (mem_outputs p).1 hp
    obtain ⟨l, hl, hh, hl'⟩ := laid.locate ha
    rw [hlocate] at hl'
    cases hl'
    have hc := laid.isSome_content? ha hh (h.not_aside hl)
    refine ⟨Disk.isBelow_iff.2 ⟨hl, ?_⟩, hc⟩
    rintro rfl
    rw [content?_dir h hperm laid] at hc
    cases hc
  · exact faithful.replies.trans (List.map_congr_left fun a ha => by rw [(faithful.answered a ha).1])
  · rw [houtputs] at hdistinct
    have htargets := (hperm.map Job.target).map t.disk.locate
    have hlocates := htargets.nodup_iff.2 hdistinct
    simp only [List.map_map, Function.comp_def] at hlocates
    have happart : ∀ l, dir <+: l → ¬ tmp <+: l := fun l => h.not_aside
    have hread : t.disk.readText a.job.target = .ok (a.call.output ctx.settings a.reply) :=
      laid.readText happart hlocates ha
    exact ⟨a.call.header, (faithful.answered a ha).2, hread⟩

end Context

/-! ## A small project -/

namespace Disk

/-- The tree of the small project with an output file that is no longer made. -/
def stale : Disk :=
  (small.set ["build", "esm"] .directory).set ["build", "esm", "o"] (.file (Text.encode "o") false)

theorem stale_separates : stale.Separates ⟨"/build/esm"⟩ ["build", "esm"] ⟨"/build/tmp"⟩ ["build", "tmp"] where
  output := .inr ⟨⟨fun follow => by cases follow <;> rfl, rfl⟩, ⟨"esm", rfl, by decide, by decide⟩, _, rfl⟩
  outputHeads := by decide +kernel
  stagingHeads := by decide +kernel
  noLinks l hl hne target hg := by
    have hbelow : isBelow ["build", "tmp"] l = true := isBelow_iff.2 ⟨hl, hne⟩
    have hnone : ((stale.cleared ⟨"/build/esm"⟩).cleared ⟨"/build/tmp"⟩).get? ["build", "tmp"] = none := by
      decide +kernel
    rw [get?_eq_none_of_isBelow hbelow (by rw [hnone]; nofun)] at hg
    cases hg
  apart := by decide

end Disk

namespace Context

set_option maxRecDepth 10000 in
theorem build_layout_small : ∃ reports t,
    ((small .small "b").build .esm).Gives (.fresh .stale) reports t ∧
      ∀ loc, (Disk.isBelow ["build", "esm"] loc ∧ (t.disk.content? loc).isSome) ↔
        ∃ p ∈ reports.flatMap (·.outputs), t.disk.locate p = .ok loc := by
  have hsome : (((small .small "b").buildFrom .esm .stale).1.toOption).isSome = true := by
    decide +kernel
  obtain ⟨reports, hreports⟩ := Option.isSome_iff_exists.1 hsome
  have hrun := Build.gives_of_run hreports
  exact ⟨reports, _, hrun,
    (build_layout rfl (fun _ _ => rfl) Settings.plain_small Disk.stale_separates hrun).2.1⟩

/-- The small project with a path to the output directory that leads through a missing directory. -/
def astray : Context :=
  small { Settings.small with outDir := ⟨"/x/../build"⟩ } "b"

set_option maxRecDepth 10000 in
theorem astray_outputs :
    ((astray.buildFrom .esm .stale).1.toOption.map fun reports =>
      (reports.flatMap (·.outputs)).map (astray.buildFrom .esm .stale).2.disk.locate) =
      some [.ok ["build", "esm", "m.js"], .ok ["build", "esm", "min", "locales.js"],
        .ok ["build", "esm", "min", "moment-with-locales.js"]] ∧
    ((astray.buildFrom .esm .stale).2.disk.content? ["build", "esm", "o"]).isSome = true := by
  decide +kernel

/-- At first the path to the output directory may lead nowhere, since a directory on the way is
missing. Then nothing is removed, and once that directory is made, what earlier builds have left is
below the output directory again. -/
theorem build_keeps_stale_output :
    Path.Plain astray.settings.mainEntry ∧ astray.bundler.Quiet ∧
    Disk.stale.exists? (astray.settings.formatDir .esm) = false ∧
    ∃ reports t, (astray.build .esm).Gives (.fresh .stale) reports t ∧
      ∃ loc, (Disk.isBelow ["build", "esm"] loc ∧ (t.disk.content? loc).isSome) ∧
        ∀ p ∈ reports.flatMap (·.outputs), t.disk.locate p ≠ .ok loc := by
  obtain ⟨houtputs, hstale⟩ := astray_outputs
  obtain ⟨reports, hreports, hlocs⟩ := Option.map_eq_some_iff.1 houtputs
  refine ⟨Settings.plain_small, fun _ _ => rfl, rfl, reports, (astray.buildFrom .esm .stale).2,
    Build.gives_of_run hreports, ["build", "esm", "o"], ⟨by decide, hstale⟩, fun p hp hl => ?_⟩
  have hmem := List.mem_map_of_mem (f := (astray.buildFrom .esm .stale).2.disk.locate) hp
  rw [hlocs] at hmem
  rw [hl] at hmem
  simp at hmem

end Context

end LocaleForge
