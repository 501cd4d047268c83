import LocaleForge.Proofs.Arrangement
import LocaleForge.Proofs.ReleaseRun

/-!
A release and a build of one of its formats. In a tree without links, and where the inputs lie apart
from what is made, both leave the same files below the output directory of the format, but for those
that only a release makes.
-/

namespace LocaleForge

open Build

/-! ## Where the jobs of a format go -/

namespace Pipeline

variable {s : Settings} {d d' : Disk} {src out tmp loc : Location} {f g : Format} {j j' : Job}
  {js : List Job}

/-- A stage of a format runs one job, or one for each file that is found for a pattern. -/
theorem stage_cases (hmain : Path.Plain s.mainEntry) (h : js ∈ jobsFor s d f) :
    (∃ j, js = [j] ∧ (s.formatDir f).Beneath j.target) ∨
      ∃ pattern ∈ s.localesPattern :: s.testPatterns, ∃ template : JobTemplate,
        template.targetDir = s.formatDir f ∧
          js = (d.sources s pattern).map (template.jobFor s.srcDir) := by
  have hmin : ∀ {file}, Path.Simple file → (s.formatDir f).Beneath (aggregateTarget s f file) :=
    aggregateTarget_mem fun hrel => hrel.beneath _
  have hfirst := hmin simple_locales
  have hsecond := hmin simple_withLocales
  simp only [jobsFor, formatJobs, List.map_map, List.mem_append, List.mem_map, List.mem_cons,
    List.not_mem_nil, or_false] at h
  rcases h with ((rfl | rfl) | ⟨pattern, hp, rfl⟩) | rfl | rfl
  · exact .inl ⟨_, rfl, hmain.beneath _⟩
  · exact .inr ⟨_, List.mem_cons_self, localeTemplate s f, rfl, rfl⟩
  · exact .inr ⟨pattern, List.mem_cons_of_mem _ hp, testTemplate s f, rfl, rfl⟩
  · exact .inl ⟨_, rfl, by rw [Context.aggregateJob]; exact hfirst⟩
  · exact .inl ⟨_, rfl, by rw [Context.aggregateJob]; exact hsecond⟩

theorem beneath_of_mem_jobsFor (hmain : Path.Plain s.mainEntry) (h : j ∈ (jobsFor s d f).flatten) :
    (s.formatDir f).Beneath j.target := by
  obtain ⟨js, hjs, hj⟩ := List.mem_flatten.1 h
  rcases stage_cases hmain hjs with ⟨j', rfl, hj'⟩ | ⟨pattern, hp, template, hdir, rfl⟩
  · rw [List.mem_singleton.1 hj]
    exact hj'
  · obtain ⟨file, hfile, rfl⟩ := List.mem_map.1 hj
    have hplain := (Disk.selects_of_mem_sources hp hfile).2.1
    rw [JobTemplate.jobFor, hdir]
    exact hplain.beneath _

/-- Two jobs of a stage that head to one place are the same. -/
theorem eq_of_heading? (h : d.Arranged s src out tmp) (hmain : Path.Plain s.mainEntry)
    (hjs : js ∈ jobsFor s d' f) (hj : j ∈ js) (hj' : j' ∈ js) (hl : d.heading? j.target = some loc)
    (hl' : d.heading? j'.target = some loc) : j = j' := by
  rcases stage_cases hmain hjs with ⟨j₁, rfl, -⟩ | ⟨pattern, hp, template, hdir, rfl⟩
  · rw [List.mem_singleton.1 hj, List.mem_singleton.1 hj']
  · obtain ⟨file, hfile, rfl⟩ := List.mem_map.1 hj
    obtain ⟨file', hfile', rfl⟩ := List.mem_map.1 hj'
    obtain ⟨-, hplain, hrel⟩ := Disk.selects_of_mem_sources hp hfile
    obtain ⟨-, hplain', hrel'⟩ := Disk.selects_of_mem_sources hp hfile'
    simp only [JobTemplate.jobFor, hdir, h.heading?_target f hplain, h.heading?_target f hplain',
      Option.some.injEq] at hl hl'
    rw [← hl', List.append_cancel_left_eq] at hl
    rw [hrel, hrel', hl]

/-- Jobs of another format go elsewhere. -/
theorem not_below_of_ne (h : d.Arranged s src out tmp) (hmain : Path.Plain s.mainEntry) (hg : g ≠ f)
    (hj : j ∈ (jobsFor s d' g).flatten) (hl : d.heading? j.target = some loc) :
    Disk.isBelow (out ++ [f.word]) loc = false := by
  refine Bool.eq_false_iff.2 fun hb => hg ?_
  obtain ⟨rel, hrel, htarget⟩ := beneath_of_mem_jobsFor hmain hj
  rw [htarget, h.heading?_target g hrel, Option.some.injEq] at hl
  have hp := (Disk.isBelow_iff.1 hb).1
  rw [← hl, List.append_assoc, List.prefix_append_right_inj, List.singleton_append,
    List.cons_prefix_cons] at hp
  have hword : Format.ofWord? g.word = Format.ofWord? f.word := by rw [hp.1]
  rw [Format.ofWord?_word, Format.ofWord?_word] at hword
  exact Option.some.inj hword

end Pipeline

/-! ## What a run of formats leaves -/

/-- Some formats have been run from the tree `Z` that cleaning left, and aggregates after them that only
a release makes. -/
structure Produced (ctx : Context) (d : Disk) (out tmp : Location) (Z : Disk) (formats : List Format)
    (sections : List (List (List Answered))) (customs : List Answered) (t : BuildState) : Prop where
  altered : d.AlteredAt out tmp Z
  jobs : List.Forall₂ (fun f parts =>
    Answered.To parts (Pipeline.jobsFor ctx.settings ((d.erase out).erase tmp) f)) formats sections
  settled : ∀ a ∈ sections.flatten.flatten, a.Settled ctx ((d.erase out).erase tmp)
  besides : ∀ a ∈ customs, ∃ file ∈ Pipeline.releaseOnly,
    a.job.target = Pipeline.aggregateTarget ctx.settings .umd file
  laid : Laid ctx.settings Z ctx.settings.Bundle (out <+: ·) (Disk.Aside out tmp)
    ⟨[], sections.flatten.flatten ++ customs, t⟩

section

variable {ctx : Context} {d Z Z' : Disk} {src out tmp l : Location} {f : Format}
  {formats formats' : List Format} {sections sections' : List (List (List Answered))}
  {customs customs' new : List Answered} {s t t' u : BuildState}

theorem Produced.of_formats (usual : ctx.storage = .disk) (quiet : ctx.bundler.Quiet)
    (hmain : Path.Plain ctx.settings.mainEntry) (h : d.Arranged ctx.settings src out tmp)
    (c : d.AlteredAt out tmp u.disk) (hshelf : u.shelf = {})
    (hlog : u.log.filterMap Event.reply? = []) {settings : Settings} {n total : Nat}
    {reports : List Report}
    (hrun : (Pipeline.runFrom settings total n (formats.flatMap (Pipeline.formatStages ctx))).Gives u
      reports t) :
    ∃ sections, Produced ctx d out tmp u.disk formats sections [] t := by
  have zones := h.zones c
  have hregion : ∀ l, out <+: l ∨ Disk.Aside out tmp l → out <+: l ∨ tmp <+: l := by
    rintro l (hl | hl | rfl)
    · exact .inl hl
    · exact .inr hl
    · exact .inl (List.prefix_append out _)
  obtain ⟨sections, hjobs, hmoves, hmade⟩ := Pipeline.sections_of_formats usual quiet hmain
    ctx.settings.bundle_join ctx.settings.besides_join zones h.inputs c.grown hregion .refl hrun
  refine ⟨sections, c, hjobs, fun a ha => ?_, fun a ha => absurd ha List.not_mem_nil, ?_⟩
  · exact Pipeline.settled_of_sections usual quiet hmain zones h.inputs c.grown hregion hshelf hlog hjobs
      hmoves hmade ha
  · rw [List.append_nil]
    exact (Laid.start _ _ _ _ u).moves usual quiet zones hmoves

theorem Produced.more (usual : ctx.storage = .disk) (quiet : ctx.bundler.Quiet)
    (h : d.Arranged ctx.settings src out tmp) (p : Produced ctx d out tmp Z formats sections customs s)
    (hnew : ∀ a ∈ new, ∃ file ∈ Pipeline.releaseOnly,
      a.job.target = Pipeline.aggregateTarget ctx.settings .umd file)
    (hm : Moves ctx ctx.settings.Bundle ctx.settings.Besides
      ⟨[], sections.flatten.flatten ++ customs, s⟩
      ⟨[], sections.flatten.flatten ++ customs ++ new, t⟩) :
    Produced ctx d out tmp Z formats sections (customs ++ new) t where
  altered := p.altered
  jobs := p.jobs
  settled := p.settled
  besides a ha := (List.mem_append.1 ha).elim (p.besides a) (hnew a)
  laid := by
    rw [← List.append_assoc]
    exact p.laid.moves usual quiet (h.zones p.altered) hm

theorem Produced.same_disk (p : Produced ctx d out tmp Z formats sections customs s)
    (hd : t.disk = s.disk) : Produced ctx d out tmp Z formats sections customs t where
  altered := p.altered
  jobs := p.jobs
  settled := p.settled
  besides := p.besides
  laid := p.laid.same_disk hd fun _ h => absurd h List.not_mem_nil

/-- The last answer for a place is one to a job of a format, if only a release makes other files. -/
theorem Produced.lastAt_eq (h : d.Arranged ctx.settings src out tmp)
    (p : Produced ctx d out tmp Z formats sections customs t)
    (hl : ∀ file ∈ Pipeline.releaseOnly, l ≠ out ++ [Format.umd.word, "min", file]) :
    Answered.lastAt Z l (sections.flatten.flatten ++ customs) =
      Answered.lastAt d l sections.flatten.flatten := by
  have hheads := p.altered.heading?_eq h.linkFree
  have hcustoms : Answered.lastAt d l customs = none := by
    refine Answered.lastAt_eq_none_iff.2 fun a ha => ?_
    obtain ⟨file, hfile, htarget⟩ := p.besides a ha
    have hsimple := Pipeline.simple_of_mem_releaseOnly hfile
    rw [htarget, Pipeline.aggregateTarget_eq hsimple, h.heading?_min .umd hsimple]
    exact fun heq => hl file hfile (Option.some.inj heq).symm
  simp only [Answered.lastAt, hheads] at hcustoms ⊢
  rw [List.reverse_append, List.find?_append, hcustoms, Option.none_or]

/-- The last answers below the directory of a format are those to its own jobs. -/
theorem Produced.map_lastAt (h : d.Arranged ctx.settings src out tmp)
    (hmain : Path.Plain ctx.settings.mainEntry)
    (p : Produced ctx d out tmp Z formats sections customs t) (hf : f ∈ formats)
    (hl : Disk.isBelow (out ++ [f.word]) l = true) {parts : List (List Answered)}
    (hparts : Answered.To parts (Pipeline.jobsFor ctx.settings ((d.erase out).erase tmp) f)) :
    (Answered.lastAt d l sections.flatten.flatten).map Answered.job =
      (Answered.lastAt d l parts.flatten).map Answered.job := by
  have same : ∀ parts', Answered.To parts' (Pipeline.jobsFor ctx.settings ((d.erase out).erase tmp) f) →
      (Answered.lastAt d l parts'.flatten).map Answered.job =
        (Answered.lastAt d l parts.flatten).map Answered.job := by
    intro parts' hparts'
    refine hparts'.map_lastAt_eq hparts fun js hjs j hj j' hj' hheads hheads' => ?_
    exact Pipeline.eq_of_heading? h hmain hjs hj hj' hheads hheads'
  have others : ∀ g, g ≠ f → ∀ parts',
      Answered.To parts' (Pipeline.jobsFor ctx.settings ((d.erase out).erase tmp) g) →
        Answered.lastAt d l parts'.flatten = none := by
    intro g hg parts' hparts'
    refine Answered.lastAt_eq_none_iff.2 fun a ha hheads => ?_
    rw [Pipeline.not_below_of_ne h hmain hg (hparts'.job_mem ha) hheads] at hl
    cases hl
  rw [Answered.map_lastAt_sections p.jobs same others, if_pos hf]

/-- Two runs that both make a format leave the same file where cleaning left the same. -/
theorem Produced.content?_eq (h : d.Arranged ctx.settings src out tmp)
    (hmain : Path.Plain ctx.settings.mainEntry) (reads : ctx.bundler.ReadsEntry)
    (p : Produced ctx d out tmp Z formats sections customs t)
    (p' : Produced ctx d out tmp Z' formats' sections' customs' t') (hf : f ∈ formats)
    (hf' : f ∈ formats') (hl : Disk.isBelow (out ++ [f.word]) l = true)
    (hout : ∀ file ∈ Pipeline.releaseOnly, l ≠ out ++ [Format.umd.word, "min", file])
    (hleft : Z.get? l = Z'.get? l) : t.disk.content? l = t'.disk.content? l := by
  have haside : ¬ Disk.Aside out tmp l := by
    rintro (ht | rfl)
    · exact h.not_below_tmp hl ht
    · exact hout "tests.js" (by simp [Pipeline.releaseOnly]) rfl
  obtain ⟨parts, hparts⟩ : ∃ parts,
      Answered.To parts (Pipeline.jobsFor ctx.settings ((d.erase out).erase tmp) f) := by
    obtain ⟨i, hi, rfl⟩ := List.mem_iff_getElem.1 hf
    exact ⟨_, p.jobs.get hi (p.jobs.length_eq ▸ hi)⟩
  have hjob := (p.map_lastAt h hmain hf hl hparts).trans (p'.map_lastAt h hmain hf' hl hparts).symm
  rw [p.laid.content l haside, p'.laid.content l haside, p.lastAt_eq h hout, p'.lastAt_eq h hout]
  cases hlast : Answered.lastAt d l sections.flatten.flatten with
  | none =>
    rw [hlast, Option.map_none] at hjob
    rw [Option.map_eq_none_iff.1 hjob.symm]
    simp only [Disk.content?, hleft]
  | some a =>
    rw [hlast, Option.map_some] at hjob
    obtain ⟨a', hlast', hjob'⟩ := Option.map_eq_some_iff.1 hjob.symm
    rw [hlast']
    have hsettled := p.settled a (Answered.lastAt_eq_some hlast).1
    have hsettled' := p'.settled a' (Answered.lastAt_eq_some hlast').1
    exact congrArg some (hsettled.output_eq reads hsettled' hjob'.symm)

/-- After a run of a format the path of its directory can be followed. -/
theorem Produced.opens (hmain : Path.Plain ctx.settings.mainEntry)
    (p : Produced ctx d out tmp Z formats sections customs t) (hf : f ∈ formats) :
    t.disk.Opens (ctx.settings.formatDir f) := by
  obtain ⟨i, hi, rfl⟩ := List.mem_iff_getElem.1 hf
  have hi' : i < sections.length := p.jobs.length_eq ▸ hi
  have hparts := p.jobs.get hi hi'
  obtain ⟨a, ha, hjob⟩ : ∃ a ∈ sections[i].flatten,
      a.job = Pipeline.mainJob ctx.settings formats[i] := by
    refine List.mem_map.1 (hparts.perm.mem_iff.2 ?_)
    simp [Pipeline.jobsFor, Pipeline.formatJobs]
  have hmem : a ∈ sections.flatten.flatten := by
    obtain ⟨part, hpart, ha⟩ := List.mem_flatten.1 ha
    exact List.mem_flatten.2 ⟨part, List.mem_flatten.2 ⟨_, List.getElem_mem hi', hpart⟩, ha⟩
  obtain ⟨l, e, b, -, -, hfind⟩ := p.laid.placed a (List.mem_append_left _ hmem)
  rw [hjob] at hfind
  exact Disk.opens_of_join hmain.relative (ctx.settings.text_formatDir_ne _) (Disk.opens_of_find hfind)

/-! ## A build and a release -/

theorem produced_of_build (usual : ctx.storage = .disk) (quiet : ctx.bundler.Quiet)
    (hmain : Path.Plain ctx.settings.mainEntry) (h : d.Arranged ctx.settings src out tmp)
    {reports : List Report} (hrun : (ctx.build f).Gives (.fresh d) reports t) :
    ∃ sections, Produced ctx d out tmp
      ((d.cleared (ctx.settings.formatDir f)).cleared ctx.settings.tmpDir) [f] sections [] t := by
  obtain ⟨u, v, rest, total, name, -, hstages, hu, hshelf, hlog, htv, -, -⟩ :=
    Context.runPipeline_clean_inv usual hrun
  have hbase : u.disk = (d.cleared (ctx.settings.formatDir f)).cleared ctx.settings.tmpDir := hu
  have start : d.AlteredAt out tmp d := ⟨h.linkFree, rfl, fun _ _ => rfl⟩
  have altered := (start.clear h.linkFree (h.heading?_formatDir f)
    (.inl (List.prefix_append out _))).clear h.linkFree h.tmpHeads (.inr List.prefix_rfl)
  rw [← hbase] at altered ⊢
  rw [← List.flatMap_singleton (Pipeline.formatStages ctx) f] at hstages
  obtain ⟨sections, p⟩ := Produced.of_formats usual quiet hmain h altered hshelf (by rw [hlog]; rfl)
    hstages
  exact ⟨sections, p.same_disk htv⟩

theorem produced_of_release (usual : ctx.storage = .disk) (quiet : ctx.bundler.Quiet)
    (hprobe : ctx.probe.Quiet) (hmain : Path.Plain ctx.settings.mainEntry)
    (h : d.Arranged ctx.settings src out tmp) {plan : ReleasePlan} {reports : List Report}
    (hrun : (ctx.release plan).Gives (.fresh d) reports t) :
    ∃ sections customs, Produced ctx d out tmp (d.cleared ctx.settings.outDir) plan.formats sections
      customs t := by
  obtain ⟨files, r, hfiles, hrun⟩ := gives_bind_iff.1 hrun
  obtain ⟨hrd, hrs, hrl⟩ := Context.resolveLocales_inv usual hfiles
  rw [Pipeline.release, List.append_assoc, List.cons_append] at hrun
  obtain ⟨u, v, rest, total, name, -, hstages, hu, hshelf, hlog, htv, -, -⟩ :=
    Context.runPipeline_clean_inv usual hrun
  have hbase : u.disk = d.cleared ctx.settings.outDir := by rw [hu, hrd]; rfl
  have start : d.AlteredAt out tmp d := ⟨h.linkFree, rfl, fun _ _ => rfl⟩
  have altered := start.clear h.linkFree h.outHeads (.inl List.prefix_rfl)
  rw [← hbase] at altered ⊢
  have hlog' : u.log.filterMap Event.reply? = [] := by
    rw [hlog, List.filterMap_append, hrl]
    rfl
  obtain ⟨first, last, w, m, -, hformats, hlast⟩ := Pipeline.runFrom_append hstages
  obtain ⟨sections, p⟩ := Produced.of_formats usual quiet hmain h altered (hshelf.trans hrs) hlog'
    hformats
  obtain ⟨customs, hm, hcustoms⟩ := Pipeline.moves_of_extras usual hprobe
    ctx.settings.bundle_join ctx.settings.besides_join ctx.settings.besides_tests hlast
  exact ⟨sections, [] ++ customs, (p.more usual quiet h hcustoms hm).same_disk htv⟩

/-- A release leaves the same files below the directory of each of its formats as a build of this format
that begins with the same tree. The files are left aside that only a release makes. -/
theorem Context.release_agrees (usual : ctx.storage = .disk) (quiet : ctx.bundler.Quiet)
    (reads : ctx.bundler.ReadsEntry) (hprobe : ctx.probe.Quiet)
    (hmain : Path.Plain ctx.settings.mainEntry) (h : d.Arranged ctx.settings src out tmp)
    {plan : ReleasePlan} (hf : f ∈ plan.formats) {reports reports' : List Report}
    (hrelease : (ctx.release plan).Gives (.fresh d) reports t)
    (hbuild : (ctx.build f).Gives (.fresh d) reports' t')
    (hl : Disk.isBelow (out ++ [f.word]) l = true)
    (hout : ∀ file ∈ Pipeline.releaseOnly, l ≠ out ++ [Format.umd.word, "min", file]) :
    t.disk.content? l = t'.disk.content? l := by
  obtain ⟨sections, customs, p⟩ := produced_of_release usual quiet hprobe hmain h hrelease
  obtain ⟨sections', p'⟩ := produced_of_build usual quiet hmain h hbuild
  have hf' : f ∈ [f] := List.mem_singleton.2 rfl
  have hleft := h.leftovers (p'.opens hmain hf') hl
  exact p.content?_eq h hmain reads p' hf hf' hl hout hleft

end

/-! ## A small project -/

/-- A project whose sources are not copied into the staging area, since they have no usual names. -/
def Settings.sparse : Settings :=
  { small with
    srcDir := ⟨"/s"⟩
    outDir := ⟨"/o"⟩
    tmpDir := ⟨"/o/t"⟩
    mainEntry := "m"
    localesPattern := "a" }

/-- The main entry, and an output directory in which an earlier build has left a file. -/
def Disk.sparse : Disk :=
  ((((empty.set ["o"] .directory).set ["o", "esm"] .directory).set ["o", "esm", "x"]
    (.file (Text.encode "x") false)).set ["s"] .directory).set ["s", "m"]
    (.file (Text.encode "m") false)

theorem Disk.arranged_sparse : Disk.sparse.Arranged .sparse ["s"] ["o"] ["o", "t"] where
  linkFree := linkFree_of_entries (by decide +kernel)
  srcHeads := by decide +kernel
  outHeads := by decide +kernel
  tmpHeads := by decide +kernel
  sources := by decide
  templates := by decide +kernel
  apart f := by cases f <;> decide
  named := by decide
  source := fun _ => ⟨false, rfl⟩
  selected rel _ hin := by simp at hin

set_option maxRecDepth 10000 in
theorem Context.release_agrees_small : ∃ reports t reports' t',
    ((small .sparse "b").release ⟨[.esm, .esm], true, []⟩).Gives (.fresh .sparse) reports t ∧
    ((small .sparse "b").build .esm).Gives (.fresh .sparse) reports' t' ∧
      ∀ l, Disk.isBelow ["o", "esm"] l = true → t.disk.content? l = t'.disk.content? l := by
  have hrelease : (((small .sparse "b").releaseFrom ⟨[.esm, .esm], true, []⟩ .sparse).1.toOption).isSome =
        true := by decide +kernel
  have hbuild : (((small .sparse "b").buildFrom .esm .sparse).1.toOption).isSome = true := by
    decide +kernel
  obtain ⟨reports, hreports⟩ := Option.isSome_iff_exists.1 hrelease
  obtain ⟨reports', hreports'⟩ := Option.isSome_iff_exists.1 hbuild
  have hrelease := Build.gives_of_run hreports
  have hbuild := Build.gives_of_run hreports'
  have hmain : Path.Plain (small .sparse "b").settings.mainEntry := ⟨by decide, by decide⟩
  refine ⟨reports, _, reports', _, hrelease, hbuild, fun l hl => ?_⟩
  refine release_agrees rfl (fun _ _ => rfl) (fun _ _ _ _ => rfl) (fun _ _ => rfl) hmain
    Disk.arranged_sparse List.mem_cons_self hrelease hbuild hl fun file _ heq => ?_
  rw [heq] at hl
  cases hl

/-! ## Where a release and a build disagree -/

namespace Context

/-- The inputs lie apart from what is made, and the bundler answers to the request and the entry only.
Even so a release and a build of one of its formats succeed and leave different files at a place below
the directory of the format that not only a release writes to. -/
structure Disagrees (ctx : Context) (d : Disk) (src out tmp : Location) (plan : ReleasePlan) (f : Format)
    (l : Location) : Prop
    extends d.Separate ctx.settings src out tmp where
  quiet : ctx.bundler.Quiet
  reads : ctx.bundler.ReadsEntry
  main : Path.Plain ctx.settings.mainEntry
  planned : f ∈ plan.formats
  below : Disk.isBelow (out ++ [f.word]) l = true
  usual : ∀ file ∈ Pipeline.releaseOnly, l ≠ out ++ [Format.umd.word, "min", file]
  differ : (ctx.releaseFrom plan d).1.toOption.isSome ∧ (ctx.buildFrom f d).1.toOption.isSome ∧
    (ctx.releaseFrom plan d).2.disk.content? l ≠ (ctx.buildFrom f d).2.disk.content? l

/-- The whole tree is the source directory, and a locale is a test that has been built. -/
def around : Context :=
  small { Settings.sparse with
    srcDir := ⟨"/"⟩
    localesPattern := "o/esm/a"
    testPatterns := ["a"] } "b"

/-- The path to the sources leads through the output directory, and the bundler answers even if it
finds no entry. -/
def through : Context where
  settings := { Settings.sparse with srcDir := ⟨"/o/../s"⟩ }
  storage := .disk
  bundler := { suspensions := 0, reply := fun r d => (.ok ((d.readText r.entry).toOption.getD ""), d) }
  probe := { registered := fun _ d => (.ok [], d) }

/-- The probe writes a file of its own. -/
def probing : Context where
  settings := .sparse
  storage := .disk
  bundler := { suspensions := 0, reply := fun _ d => (.ok "b", d) }
  probe :=
    { registered := fun _ d => (.ok ["a"], d.set ["o", "esm", "p"] (.file (Text.encode "p") false)) }

/-- The path of the output directory is empty. -/
def nameless : Context :=
  small { Settings.sparse with outDir := ⟨""⟩, tmpDir := ⟨"/u"⟩ } "b"

end Context

namespace Disk

/-- Two sources at the root. -/
def exposed : Disk :=
  (empty.set ["a"] (.file (Text.encode "a") false)).set ["m"] (.file (Text.encode "m") false)

/-- The main entry, a locale and templates. -/
def localized : Disk :=
  (((sparse.set ["s", "a"] (.file (Text.encode "a") false)).set ["d"] (.file (Text.encode "") false)).set
    ["l"] (.file (Text.encode "") false))

/-- The main entry as seen from another directory, in which a build has left a file. -/
def elsewhere : Disk where
  workDir := ["w"]
  entries := (((sparse.set ["w"] .directory).set ["w", "esm"] .directory).set
    ["w", "esm", "x"] (.file (Text.encode "x") false)).entries
  isTree := Disk.isTree _

end Disk

namespace Context

set_option maxRecDepth 20000 in
theorem around_disagrees :
    around.Disagrees .exposed [] ["o"] ["o", "t"] ⟨[.esm, .esm], false, []⟩ .esm
      ["o", "esm", "o", "esm", "a"] where
  linkFree := Disk.linkFree_of_entries (by decide +kernel)
  srcHeads := by decide +kernel
  outHeads := by decide +kernel
  tmpHeads := by decide +kernel
  sources := by decide
  templates := by decide +kernel
  apart f := by cases f <;> decide
  quiet _ _ := rfl
  reads _ _ _ _ := rfl
  main := ⟨by decide, by decide⟩
  planned := by decide
  below := by decide
  usual := by decide
  differ := by decide +kernel

set_option maxRecDepth 20000 in
theorem through_disagrees :
    through.Disagrees .sparse ["s"] ["o"] ["o", "t"] ⟨[.esm], false, []⟩ .esm ["o", "esm", "m"] where
  linkFree := Disk.linkFree_of_entries (by decide +kernel)
  srcHeads := by decide +kernel
  outHeads := by decide +kernel
  tmpHeads := by decide +kernel
  sources := by decide
  templates := by decide +kernel
  apart f := by cases f <;> decide
  quiet _ _ := rfl
  reads r d d' h := by simp only [through, h]
  main := ⟨by decide, by decide⟩
  planned := by decide
  below := by decide
  usual := by decide
  differ := by decide +kernel

set_option maxRecDepth 20000 in
theorem probing_disagrees :
    probing.Disagrees .localized ["s"] ["o"] ["o", "t"] ⟨[.esm], false, ["a"]⟩ .esm ["o", "esm", "p"] where
  linkFree := Disk.linkFree_of_entries (by decide +kernel)
  srcHeads := by decide +kernel
  outHeads := by decide +kernel
  tmpHeads := by decide +kernel
  sources := by decide
  templates := by decide +kernel
  apart f := by cases f <;> decide
  quiet _ _ := rfl
  reads _ _ _ _ := rfl
  main := ⟨by decide, by decide⟩
  planned := by decide
  below := by decide
  usual := by decide
  differ := by decide +kernel

set_option maxRecDepth 20000 in
theorem nameless_disagrees :
    nameless.Disagrees .elsewhere ["s"] ["w"] ["u"] ⟨[.esm], false, []⟩ .esm ["w", "esm", "x"] where
  linkFree := Disk.linkFree_of_entries (by decide +kernel)
  srcHeads := by decide +kernel
  outHeads := by decide +kernel
  tmpHeads := by decide +kernel
  sources := by decide
  templates := by decide +kernel
  apart f := by cases f <;> decide
  quiet _ _ := rfl
  reads _ _ _ _ := rfl
  main := ⟨by decide, by decide⟩
  planned := by decide
  below := by decide
  usual := by decide
  differ := by decide +kernel

/-- A release and a build may disagree if bundles are among the sources, if the sources are not found
while the output directory is missing, if the probe writes files, or if the path of the output directory
is empty, since then it is not cleaned. -/
theorem release_disagrees :
    around.Disagrees .exposed [] ["o"] ["o", "t"] ⟨[.esm, .esm], false, []⟩ .esm
      ["o", "esm", "o", "esm", "a"] ∧
    through.Disagrees .sparse ["s"] ["o"] ["o", "t"] ⟨[.esm], false, []⟩ .esm ["o", "esm", "m"] ∧
    probing.Disagrees .localized ["s"] ["o"] ["o", "t"] ⟨[.esm], false, ["a"]⟩ .esm
      ["o", "esm", "p"] ∧
    nameless.Disagrees .elsewhere ["s"] ["w"] ["u"] ⟨[.esm], false, []⟩ .esm ["w", "esm", "x"] :=
  ⟨around_disagrees, through_disagrees, probing_disagrees, nameless_disagrees⟩

end Context

end LocaleForge
