import LocaleForge.Proofs.Arrangement
import LocaleForge.Proofs.Locations
import LocaleForge.Proofs.Matching
import LocaleForge.Proofs.Patterns
import LocaleForge.Proofs.ReleaseReports
import LocaleForge.Proofs.Requests

/-!
The joined tests of a release. What is found below the directory of wrapped bundles when the tests are
joined is what the stages of this format have written there for tests, each file once and in the order
of their locations, whichever patterns it has matched.
-/

namespace LocaleForge

open Build Pipeline

/-- The relative path leads into a directory of this name. -/
def Path.LiesIn (dir rel : String) : Prop :=
  Disk.isBelow [dir] (Path.names (Text.cut '/' rel)) = true

instance (dir rel : String) : Decidable (Path.LiesIn dir rel) :=
  inferInstanceAs (Decidable (_ = true))

/-- The path of the joined tests. -/
def Settings.joinedTests (s : Settings) : Path :=
  (s.formatDir .umd).join "min/tests.js"

/-- The text is made of the texts of these files below a directory, each once and in the order of their
locations. -/
def Disk.Joins (d : Disk) (dir : Path) (files : List Path) (text : String) : Prop :=
  ∃ (rels : List Location) (texts : List String), rels.Pairwise (· < ·) ∧
    (∀ rel ∈ rels, Disk.Inside rel) ∧
    (∀ p, p ∈ files ↔ ∃ rel ∈ rels, p = dir.join (Disk.relativePath rel)) ∧
    List.Forall₂ (fun rel text => d.readText (dir.join (Disk.relativePath rel)) = .ok text) rels texts ∧
    text = Text.unlines texts

theorem Pipeline.simple_test : Path.Simple "test" :=
  ⟨by decide, by decide, by decide⟩

/-- Each test pattern selects scripts in the directory of tests. -/
def Settings.TestsInPlace (s : Settings) : Prop :=
  ∀ pattern ∈ s.testPatterns, "test/".toList <+: pattern.toList ∧ ".js".toList <:+ pattern.toList

instance (s : Settings) : Decidable s.TestsInPlace :=
  inferInstanceAs (Decidable (∀ pattern ∈ s.testPatterns, _))

/-- The second tree has grown from the first one by aggregates of chosen locales and staged files
only. -/
structure Disk.SameButCustom (d : Disk) (out tmp : Location) (d' : Disk) : Prop where
  keeps : d.Keeps d'
  content : ∀ l, ¬ tmp <+: l →
    (∀ file ∈ customOnly, l ≠ out ++ [Format.umd.word] ++ ["min", file]) → d'.content? l = d.content? l

/-! ## The bundles of the formats -/

/-- Formats have been run, from a tree without links and without files where the wrapped bundles go. -/
structure Bundled (ctx : Context) (Z : Disk) (out tmp : Location) (formats : List Format)
    (found : List Files) (answers : List Answered) (s : BuildState) : Prop where
  linkFree : Z.LinkFree
  outHeads : Z.heading? ctx.settings.outDir = some out
  apart : Disk.Apart (out ++ [Format.umd.word]) tmp
  clean : ∀ l, Disk.isBelow (out ++ [Format.umd.word]) l = true → Z.content? l = none
  main : Path.Plain ctx.settings.mainEntry
  mainOut : ∀ dir ∈ ["test", "min"], ¬ Path.LiesIn dir ctx.settings.mainEntry
  localesInside : ∀ files ∈ found, ∀ file ∈ files.1, ∃ rel, Disk.Inside rel ∧ file = Disk.relativePath rel
  localesOut : ∀ files, (.umd, files) ∈ formats.zip found → ∀ file ∈ files.1, ∀ dir ∈ ["test", "min"],
    ¬ Path.LiesIn dir file
  testsInside : ∀ files ∈ found, ∀ file ∈ files.2.flatten, ∃ rel, Disk.Inside rel ∧
    file = Disk.relativePath rel ∧ "test/".toList <+: file.toList ∧ ".js".toList <:+ file.toList
  jobs : ∀ j, (∃ a ∈ answers, a.job = j) ↔ j ∈ (formatsJobs ctx.settings formats found).flatten
  laid : Laid ctx.settings Z ctx.settings.Bundle (out <+: ·) (tmp <+: ·) ⟨[], answers, s⟩

namespace Bundled

variable {ctx : Context} {Z : Disk} {out tmp rel : Location} {formats : List Format}
  {found : List Files} {answers : List Answered} {s t : BuildState}

/-- A test file of the wrapped format. -/
def TestFile (formats : List Format) (found : List Files) (file : String) : Prop :=
  ∃ files, (.umd, files) ∈ formats.zip found ∧ file ∈ files.2.flatten

theorem same_disk (h : Bundled ctx Z out tmp formats found answers s) (hd : t.disk = s.disk) :
    Bundled ctx Z out tmp formats found answers t :=
  { h with laid := h.laid.same_disk hd fun _ hc => absurd hc List.not_mem_nil }

/-- What an answer has written below the directory of wrapped bundles. -/
theorem target_cases (h : Bundled ctx Z out tmp formats found answers s) {a : Answered}
    (ha : a ∈ answers) (hl : Z.heading? a.job.target = some (out ++ [Format.umd.word] ++ rel)) :
    ∃ files, (.umd, files) ∈ formats.zip found ∧ ∃ file, rel = Path.names (Text.cut '/' file) ∧
      (file = ctx.settings.mainEntry ∨ file ∈ files.1 ∨ file ∈ files.2.flatten ∨
        ∃ name ∈ ["locales.js", "moment-with-locales.js"], file = "min/" ++ name) := by
  obtain ⟨f, files, hzip, file, htarget, hcases⟩ := Pipeline.target_cases ((h.jobs _).1 ⟨a, ha, rfl⟩)
  have hfiles : files ∈ found := (List.of_mem_zip hzip).2
  have hplain : Path.Plain file := by
    rcases hcases with rfl | hfile | hfile | ⟨name, hname, rfl⟩
    · exact h.main
    · obtain ⟨rel, hrel, rfl⟩ := h.localesInside files hfiles file hfile
      exact hrel.plain
    · obtain ⟨rel, hrel, rfl, -⟩ := h.testsInside files hfiles file hfile
      exact hrel.plain
    · refine plain_min ?_
      simp only [List.mem_cons, List.not_mem_nil, or_false] at hname
      rcases hname with rfl | rfl
      · exact simple_locales
      · exact simple_withLocales
  rw [htarget, h.linkFree.heading?_bundle h.outHeads f hplain, Option.some.injEq, List.append_assoc,
    List.append_assoc, List.append_cancel_left_eq, List.singleton_append, List.singleton_append,
    List.cons.injEq] at hl
  obtain ⟨hword, hnames⟩ := hl
  obtain rfl : f = .umd := by
    cases f with
    | umd => rfl
    | esm => simp [Format.word] at hword
  exact ⟨files, hzip, file, hnames.symm, hcases⟩

theorem names_aggregate {name : String} (h : name ∈ ["locales.js", "moment-with-locales.js"]) :
    Path.names (Text.cut '/' ("min/" ++ name)) = ["min", name] := by
  simp only [List.mem_cons, List.not_mem_nil, or_false] at h
  rcases h with rfl | rfl
  · exact names_min simple_locales
  · exact names_min simple_withLocales

/-- The files in the directory of tests are those written for tests. -/
theorem content?_test_iff (h : Bundled ctx Z out tmp formats found answers s) (hrel : Disk.Inside rel)
    (hin : Disk.isBelow ["test"] rel = true) :
    (s.disk.content? (out ++ [Format.umd.word] ++ rel)).isSome = true ↔
      TestFile formats found (Disk.relativePath rel) := by
  have haside : ¬ tmp <+: out ++ [Format.umd.word] ++ rel :=
    h.apart.not_above (List.prefix_append _ rel)
  constructor
  · intro hc
    have hstart : Z.content? (out ++ [Format.umd.word] ++ rel) = none := by
      refine h.clean _ (Disk.isBelow_iff.2 ⟨List.prefix_append _ rel, fun he => hrel.notEmpty ?_⟩)
      exact List.append_cancel_left (he.trans (List.append_nil _).symm)
    rw [h.laid.content _ haside, hstart] at hc
    cases hlast : Answered.lastAt Z (out ++ [Format.umd.word] ++ rel) answers with
    | none =>
      rw [hlast] at hc
      cases hc
    | some a =>
      obtain ⟨ha, hheads⟩ := Answered.lastAt_eq_some hlast
      obtain ⟨files, hzip, file, hnames, hcases⟩ := h.target_cases ha hheads
      rcases hcases with rfl | hfile | hfile | ⟨name, hname, rfl⟩
      · rw [hnames] at hin
        exact absurd hin (h.mainOut "test" (by simp))
      · rw [hnames] at hin
        exact absurd hin (h.localesOut files hzip file hfile "test" (by simp))
      · obtain ⟨rel', hrel', rfl, -⟩ := h.testsInside files (List.of_mem_zip hzip).2 file hfile
        rw [hrel'.names] at hnames
        rw [hnames]
        exact ⟨files, hzip, hfile⟩
      · rw [hnames, names_aggregate hname] at hin
        simp [Disk.isBelow] at hin
  · rintro ⟨files, hzip, hfile⟩
    obtain ⟨j, hj, htarget⟩ := exists_test_job ctx.settings hzip hfile
    obtain ⟨a, ha, rfl⟩ := (h.jobs j).2 hj
    refine h.laid.isSome_content? ha ?_ haside
    rw [htarget, h.linkFree.heading?_bundle h.outHeads .umd hrel.plain, hrel.names]

/-- No bundle has taken the place of the joined tests. -/
theorem content?_joinedTests (h : Bundled ctx Z out tmp formats found answers s) :
    s.disk.content? (out ++ [Format.umd.word] ++ ["min", "tests.js"]) = none := by
  have hbelow : out ++ [Format.umd.word] <+: out ++ [Format.umd.word] ++ ["min", "tests.js"] :=
    List.prefix_append _ _
  have hin : Disk.isBelow ["min"] ["min", "tests.js"] = true := by decide
  rw [h.laid.content _ (h.apart.not_above hbelow)]
  cases hlast : Answered.lastAt Z (out ++ [Format.umd.word] ++ ["min", "tests.js"]) answers with
  | none => exact h.clean _ (Disk.isBelow_iff.2 ⟨hbelow, by simp⟩)
  | some a =>
    obtain ⟨ha, hheads⟩ := Answered.lastAt_eq_some hlast
    obtain ⟨files, hzip, file, hnames, hcases⟩ := h.target_cases ha hheads
    rcases hcases with rfl | hfile | hfile | ⟨name, hname, rfl⟩
    · rw [hnames] at hin
      exact absurd hin (h.mainOut "min" (by simp))
    · rw [hnames] at hin
      exact absurd hin (h.localesOut files hzip file hfile "min" (by simp))
    · obtain ⟨rel, hrel, rfl, hfront, -⟩ := h.testsInside files (List.of_mem_zip hzip).2 file hfile
      have htest := (hrel.front_iff simple_test).1 hfront
      rw [← hrel.names, ← hnames] at htest
      cases htest
    · rw [names_aggregate hname] at hnames
      simp only [List.mem_cons, List.not_mem_nil, or_false] at hname
      rcases hname with rfl | rfl <;> simp at hnames

/-! ## Joining -/

/-- The test files are found again, in the order of their locations. -/
theorem locations_of_expand (h : Bundled ctx Z out tmp formats found answers s) {files : List String}
    (he : s.disk.expand (ctx.settings.formatDir .umd) Context.builtTests = .ok files) :
    ∃ rels : List Location, files = rels.map Disk.relativePath ∧ rels.Pairwise (· < ·) ∧
      (∀ rel ∈ rels, Disk.Inside rel) ∧
      ∀ file, TestFile formats found file ↔ ∃ rel ∈ rels, file = Disk.relativePath rel := by
  have hheads := h.linkFree.heading?_formatDir h.outHeads .umd
  have hroot : ∀ {l b}, s.disk.find true (ctx.settings.formatDir .umd) = .ok ⟨l, some .directory, b⟩ →
      l = out ++ [Format.umd.word] := fun hf =>
    Option.some.inj ((h.laid.grown.heading?_of_find hf).symm.trans hheads)
  obtain ⟨rels, hfiles, hsorted, hrels, hall⟩ := Disk.expand_locations hroot he
  refine ⟨rels, hfiles, hsorted, fun rel hrel => (hrels rel hrel).1, fun file => ⟨fun hfile => ?_, ?_⟩⟩
  · obtain ⟨files', hzip, hmem⟩ := hfile
    obtain ⟨rel, hrel, rfl, hfront, hback⟩ := h.testsInside files' (List.of_mem_zip hzip).2 file hmem
    have hin := (hrel.front_iff simple_test).1 hfront
    -- The directory is there, since the job of this file has written below it.
    obtain ⟨j, hj, htarget⟩ := exists_test_job ctx.settings hzip hmem
    obtain ⟨a, ha, rfl⟩ := (h.jobs j).2 hj
    obtain ⟨l, e, b, -, -, hplaced⟩ := h.laid.placed a ha
    rw [htarget] at hplaced
    obtain ⟨dir, hdir⟩ := Disk.find_of_join hrel.plain.relative
      (ctx.settings.text_formatDir_ne .umd) hplaced
    obtain rfl := hroot hdir
    refine ⟨rel, hall _ hdir _ Glob.parse_builtTests rel hrel.notEmpty ?_ ?_, rfl⟩
    · exact (h.content?_test_iff hrel hin).2 ⟨files', hzip, hmem⟩
    · exact (Glob.accepts_builtTests_iff Glob.parse_builtTests).2 ⟨hfront, hback⟩
  · rintro ⟨rel, hmem, rfl⟩
    obtain ⟨hrel, hc, tokens, hparse, haccept⟩ := hrels rel hmem
    have hfront := ((Glob.accepts_builtTests_iff hparse).1 haccept).1
    exact (h.content?_test_iff hrel ((hrel.front_iff simple_test).1 hfront)).1 hc

theorem readTexts_gives (usual : ctx.storage = .disk) {dir : Path} {files texts : List String}
    (h : (files.mapM fun file => ctx.read (dir.join file)).Gives s texts t) : t.disk = s.disk ∧
      List.Forall₂ (fun file text => s.disk.readText (dir.join file) = .ok text) files texts := by
  induction files generalizing s texts with
  | nil =>
    obtain ⟨rfl, rfl⟩ := gives_mapM_nil_iff.1 h
    exact ⟨rfl, .nil⟩
  | cons file files ih =>
    obtain ⟨text, u, rest, hfile, hrest, rfl⟩ := gives_mapM_cons_iff.1 h
    obtain ⟨hread, rfl⟩ := Context.read_gives hfile
    obtain ⟨hdisk, hreads⟩ := ih hrest
    exact ⟨hdisk, .cons ((Context.read_eq_ok_iff usual).1 hread) hreads⟩

/-- The stage writes nothing if there are no test files, and else the joined texts of these. -/
theorem joins (usual : ctx.storage = .disk) (h : Bundled ctx Z out tmp formats found answers s)
    {ends : List Path} (hrun : (Stage.concatTests ctx).run.Gives s ends t) :
    ∃ rels : List Location, rels.Pairwise (· < ·) ∧ (∀ rel ∈ rels, Disk.Inside rel) ∧
      (∀ file, TestFile formats found file ↔ ∃ rel ∈ rels, file = Disk.relativePath rel) ∧
      (rels = [] ∧ ends = [] ∧ t.disk = s.disk ∨
        rels ≠ [] ∧ ends = [ctx.settings.joinedTests] ∧ ∃ texts, List.Forall₂ (fun rel text =>
          s.disk.readText ((ctx.settings.formatDir .umd).join (Disk.relativePath rel)) = .ok text)
            rels texts ∧
          s.disk.Wrote ctx.settings.joinedTests (out ++ [Format.umd.word] ++ ["min", "tests.js"])
            (Text.encode (Text.unlines texts)) t.disk) := by
  obtain ⟨written, u, hjoin, hrun⟩ := gives_bind_iff.1 hrun
  obtain ⟨files, v, hfiles, hjoin⟩ := gives_bind_iff.1 hjoin
  obtain ⟨he, rfl⟩ := Context.expand_gives usual hfiles
  obtain ⟨rels, rfl, hsorted, hrels, hall⟩ := h.locations_of_expand he
  refine ⟨rels, hsorted, hrels, hall, ?_⟩
  cases rels with
  | nil =>
    obtain ⟨rfl, rfl⟩ := gives_pure_iff.1 hjoin
    obtain ⟨⟨⟩, w, htell, hrun⟩ := gives_bind_iff.1 hrun
    obtain ⟨rfl, rfl⟩ := gives_pure_iff.1 hrun
    obtain rfl := gives_tell_iff.1 htell
    exact .inl ⟨rfl, rfl, rfl⟩
  | cons rel rels =>
    obtain ⟨texts, w, hreads, hjoin⟩ := gives_bind_iff.1 hjoin
    obtain ⟨⟨⟩, x, hwrite, hjoin⟩ := gives_bind_iff.1 hjoin
    obtain ⟨rfl, rfl⟩ := gives_pure_iff.1 hjoin
    obtain ⟨rfl, rfl⟩ := gives_pure_iff.1 hrun
    obtain ⟨hdisk, htexts⟩ := readTexts_gives usual hreads
    obtain ⟨⟨loc, hwrote⟩, -⟩ := Context.write_gives usual hwrite
    rw [hdisk] at hwrote
    have hheads := h.linkFree.heading?_bundle h.outHeads .umd (plain_min simple_tests)
    rw [names_min simple_tests] at hheads
    obtain rfl := Option.some.inj ((hwrote.heading? h.laid.grown).symm.trans hheads)
    exact .inr ⟨List.cons_ne_nil _ _, rfl, texts, List.forall₂_map_left_iff.1 htexts, hwrote⟩

theorem test_below (h : Bundled ctx Z out tmp formats found answers s) (hrel : Disk.Inside rel)
    (hfile : TestFile formats found (Disk.relativePath rel)) : Disk.isBelow ["test"] rel = true := by
  obtain ⟨files, hzip, hmem⟩ := hfile
  obtain ⟨rel', -, -, hfront, -⟩ := h.testsInside files (List.of_mem_zip hzip).2 _ hmem
  exact (hrel.front_iff simple_test).1 hfront

theorem grown_of_joins (usual : ctx.storage = .disk) (h : Bundled ctx Z out tmp formats found answers s)
    {ends : List Path} (hrun : (Stage.concatTests ctx).run.Gives s ends t) :
    Z.Grown (fun l => out <+: l ∨ tmp <+: l) t.disk := by
  obtain ⟨-, -, -, -, ⟨-, -, hsame⟩ | ⟨-, -, texts, -, hwrote⟩⟩ := h.joins usual hrun
  · rw [hsame]
    exact h.laid.grown
  · refine h.laid.grown.wrote hwrote (.inl ?_)
    rw [List.append_assoc]
    exact List.prefix_append out _

end Bundled

namespace Context

variable {ctx : Context} {out tmp : Location} {plan : ReleasePlan} {s t : BuildState}
  {reports : List Report}

theorem runStage_gives {n total : Nat} {stage : Stage} {report : Report} {settings : Settings}
    (h : (runStage settings n total stage).Gives s report t) : ∃ u v,
      stage.run.Gives u report.outputs v ∧ u.disk = s.disk ∧ t.disk = v.disk ∧
        report.name = stage.name := by
  simp only [runStage, gives_bind_iff, gives_tell_iff, gives_during_iff, gives_pure_iff] at h
  obtain ⟨⟨⟩, _, rfl, outputs, v, hrun, ⟨⟩, _, rfl, rfl, rfl⟩ := h
  exact ⟨_, v, hrun, rfl, rfl, rfl⟩

/-- Aggregates of chosen locales change nothing but the two of them and the staging area. -/
theorem sameButCustom_of_custom (usual : ctx.storage = .disk) (quiet : ctx.bundler.Quiet)
    (hprobe : ctx.probe.Quiet) (links : s.disk.LinkFree)
    (hout : s.disk.heading? ctx.settings.outDir = some out)
    (htmp : s.disk.heading? ctx.settings.tmpDir = some tmp) {names files : List String} {n total : Nat}
    (hrun : (runFrom ctx.settings total n
      (if names.isEmpty then [] else Pipeline.custom ctx names files)).Gives s reports t) :
    s.disk.SameButCustom out tmp t.disk := by
  split at hrun
  case isTrue =>
    obtain ⟨-, rfl⟩ := gives_pure_iff.1 hrun
    exact ⟨.refl _, fun _ _ _ => rfl⟩
  case isFalse =>
    obtain ⟨customs, hm, hcustoms⟩ := moves_of_custom (a := []) usual hprobe
      ctx.settings.bundle_join (Path.Plain.beneath · ctx.settings.tmpDir) hrun
    have laid := (Laid.start ctx.settings ctx.settings.Bundle (out <+: ·) (tmp <+: ·) s).moves usual
      quiet (links.bundle_zones hout htmp) hm
    refine ⟨laid.grown.keeps, fun l haside hl => ?_⟩
    have hnone : Answered.lastAt s.disk l customs = none := by
      refine Answered.lastAt_eq_none_iff.2 fun a ha hheads => ?_
      obtain ⟨file, hfile, htarget⟩ := hcustoms a ha
      have hsimple := simple_of_mem_releaseOnly (mem_releaseOnly_of_customOnly hfile)
      rw [htarget, aggregateTarget_eq hsimple, links.heading?_bundle hout .umd (plain_min hsimple),
        names_min hsimple, Option.some.injEq] at hheads
      exact hl file hfile hheads.symm
    rw [laid.content l haside]
    simp only [List.nil_append, hnone]

/-- No file is left below a directory that is cleaned by a path that leads to something, or where none
was. -/
theorem content?_of_cleared {d : Disk} (links : d.LinkFree) {p : Path} (hout : d.heading? p = some out)
    {l : Location} (hbelow : Disk.isBelow out l = true)
    (hclean : d.exists? p = true ∨ d.content? l = none) : (d.cleared p).content? l = none := by
  rcases hclean with hx | hnone
  · exact Disk.content?_eq_none (links.get?_cleared_below hout hx hbelow)
  · refine Option.eq_none_iff_forall_ne_some.2 fun content hc => ?_
    obtain ⟨x, hg⟩ := Disk.get?_of_content? hc
    obtain ⟨e, he, hlike⟩ := (Disk.cleared_keeps d p).entry hg
    obtain ⟨content', x', rfl⟩ := hlike.of_file
    rw [Disk.content?, he] at hnone
    cases hnone

theorem inside_of_found {targets others : Path → Prop} {c : Course} {pattern file : String}
    {files : List String} (h : Found ctx targets others c pattern files) (hfile : file ∈ files) :
    ∃ rel tokens, Disk.Inside rel ∧ file = Disk.relativePath rel ∧ Glob.parse pattern = .ok tokens ∧
      Glob.accepts tokens file = true := by
  obtain ⟨a, u, -, he⟩ := h
  obtain ⟨tokens, rel, hparse, haccept, hrel, hcut, hnames⟩ := Disk.mem_expand he hfile
  exact ⟨rel, tokens, ⟨fun hnil => Text.cut_ne_nil _ _ (hcut.trans hnil), hnames⟩, hrel, hparse, haccept⟩

/-- The formats of a release leave their bundles, and nothing else, below the directory of wrapped
bundles. -/
theorem bundled_of_formats (usual : ctx.storage = .disk) (quiet : ctx.bundler.Quiet)
    (hmain : Path.Plain ctx.settings.mainEntry)
    (hmainOut : ∀ dir ∈ ["test", "min"], ¬ Path.LiesIn dir ctx.settings.mainEntry)
    (hpatterns : ctx.settings.TestsInPlace) (links : s.disk.LinkFree)
    (hout : s.disk.heading? ctx.settings.outDir = some out)
    (htmp : s.disk.heading? ctx.settings.tmpDir = some tmp)
    (apart : Disk.Apart (out ++ [Format.umd.word]) tmp)
    (clean : ∀ l, Disk.isBelow (out ++ [Format.umd.word]) l = true → s.disk.content? l = none)
    {formats : List Format} {n total : Nat}
    (hrun : (runFrom ctx.settings total n (formats.flatMap (formatStages ctx))).Gives s reports t) :
    ∃ (found : List Files) (answers : List Answered), formats.length = found.length ∧
      (∀ files ∈ found, files.2.length = ctx.settings.testPatterns.length) ∧
      reports.map (·.outputs) = (formatsJobs ctx.settings formats found).map (·.map (·.target)) ∧
      ((∀ files, (.umd, files) ∈ formats.zip found → ∀ file ∈ files.1, Path.Plain file →
          ∀ dir ∈ ["test", "min"], ¬ Path.LiesIn dir file) →
        Bundled ctx s.disk out tmp formats found answers t) := by
  obtain ⟨found, parts, hlength, hfound, hran⟩ := ran_of_formats (a := []) usual
    (fun f => ctx.settings.bundle_join f hmain) ctx.settings.bundle_join
    (Path.Plain.beneath · ctx.settings.tmpDir) hrun
  have laid := (Laid.start ctx.settings ctx.settings.Bundle (out <+: ·) (tmp <+: ·) s).moves usual
    quiet (links.bundle_zones hout htmp) hran.moves
  refine ⟨found, parts.flatten, hlength, fun files hfiles => (hfound files hfiles).2.length_eq.symm,
    hran.outputs, fun hlocales => ?_⟩
  exact {
    linkFree := links
    outHeads := hout
    apart := apart
    clean := clean
    main := hmain
    mainOut := hmainOut
    localesInside := fun files hfiles file hfile => by
      obtain ⟨rel, -, hrel, he, -⟩ := inside_of_found (hfound files hfiles).1 hfile
      exact ⟨rel, hrel, he⟩
    localesOut := fun files hzip file hfile => by
      obtain ⟨rel, -, hrel, he, -⟩ := inside_of_found (hfound files (List.of_mem_zip hzip).2).1 hfile
      exact hlocales files hzip file hfile (he ▸ hrel.plain)
    testsInside := fun files hfiles file hfile => by
      obtain ⟨tests, htests, hfile⟩ := List.mem_flatten.1 hfile
      obtain ⟨pattern, hp, hpfound⟩ := exists_of_forall₂ (hfound files hfiles).2 htests
      obtain ⟨rel, tokens, hrel, he, hparse, haccept⟩ := inside_of_found hpfound hfile
      obtain ⟨hfront, hback⟩ := hpatterns pattern hp
      exact ⟨rel, hrel, he,
        Glob.ends_of_accepts Glob.plain_test Glob.inner_js hfront hback hparse haccept⟩
    jobs := fun j => by
      rw [← hran.jobs.perm.mem_iff, List.mem_map]
    laid := laid }

/-- A release that joins tests does so after its formats, and the chosen locales come last. -/
theorem stages_of_release (usual : ctx.storage = .disk) (hconcat : plan.concatTests = true)
    (hrun : (ctx.release plan).Gives s reports t) :
    ∃ (u v w x : BuildState) (clean report : Report) (first last : List Report)
      (files : List String) (total n m k : Nat),
      reports = clean :: (first ++ report :: last) ∧ u.disk = s.disk.cleared ctx.settings.outDir ∧
      (runFrom ctx.settings total n (plan.formats.flatMap (formatStages ctx))).Gives u first v ∧
      (runStage ctx.settings m total (Stage.concatTests ctx)).Gives v report w ∧
      (runFrom ctx.settings total k
        (if plan.locales.isEmpty then [] else Pipeline.custom ctx plan.locales files)).Gives w last x ∧
      t.disk = x.disk := by
  obtain ⟨files, r, hfiles, hrun⟩ := gives_bind_iff.1 hrun
  obtain ⟨hr, -, -⟩ := Context.resolveLocales_inv usual hfiles
  rw [Pipeline.release, if_pos hconcat, List.append_assoc, List.cons_append] at hrun
  obtain ⟨u, x, rest, total, name, rfl, hstages, hu, -, -, htx, -, -⟩ :=
    Context.runPipeline_clean_inv usual hrun
  rw [hr] at hu
  obtain ⟨first, more, v, m, rfl, hfirst, hmore⟩ := runFrom_append hstages
  rw [List.singleton_append] at hmore
  obtain ⟨report, last, w, rfl, hreport, hlast⟩ := runFrom_cons hmore
  exact ⟨u, v, w, x, _, report, first, last, files, total, 2, m, m + 1, rfl, hu, hfirst, hreport,
    hlast, htx⟩

theorem testOutputs_of_not_mem (hf : Format.umd ∉ plan.formats) (settings : Settings)
    (reports : List Report) : testOutputs settings plan .umd reports = [] := by
  have hnone : outputsFor settings plan .umd reports = [] := by
    rw [outputsFor, List.map_eq_nil_iff, List.filter_eq_nil_iff]
    rintro ⟨f, stages⟩ hmem hf'
    obtain rfl : f = .umd := of_decide_eq_true hf'
    exact hf (List.of_mem_zip hmem).1
  rw [testOutputs, hnone, List.flatMap_nil]

/-- Up to the joining of the tests and after it, a release that joins tests. -/
structure JoinsTests (ctx : Context) (plan : ReleasePlan) (out tmp : Location) (reports : List Report)
    (report : Report) (found : List Files) (v w t : BuildState) : Prop where
  reported : Reported ctx.settings plan.formats found reports
  place : joinReport? ctx.settings plan reports = some report
  name : report.name = (Stage.concatTests ctx).name
  bundled : ∃ Z answers, Bundled ctx Z out tmp plan.formats found answers v
  run : (Stage.concatTests ctx).run.Gives v report.outputs w
  custom : w.disk.SameButCustom out tmp t.disk

theorem joinsTests_of_release (usual : ctx.storage = .disk) (quiet : ctx.bundler.Quiet)
    (hprobe : ctx.probe.Quiet) (hmain : Path.Plain ctx.settings.mainEntry)
    (hmainOut : ∀ dir ∈ ["test", "min"], ¬ Path.LiesIn dir ctx.settings.mainEntry)
    (hpatterns : ctx.settings.TestsInPlace) (links : s.disk.LinkFree)
    (hout : s.disk.heading? ctx.settings.outDir = some out)
    (htmp : s.disk.heading? ctx.settings.tmpDir = some tmp)
    (apart : Disk.Apart (out ++ [Format.umd.word]) tmp)
    (hclean : s.disk.exists? ctx.settings.outDir = true ∨
      ∀ l, Disk.isBelow (out ++ [Format.umd.word]) l = true → s.disk.content? l = none)
    (hconcat : plan.concatTests = true) (hrun : (ctx.release plan).Gives s reports t)
    (hlocales : ∀ file, Path.Plain file →
      (ctx.settings.formatDir .umd).join file ∈ localeOutputs ctx.settings plan .umd reports →
        ∀ dir ∈ ["test", "min"], ¬ Path.LiesIn dir file) :
    ∃ report found v w, JoinsTests ctx plan out tmp reports report found v w t := by
  obtain ⟨u, v, w, x, clean, report, first, last, files, total, n, m, k, rfl, hu, hfirst, hreport, hlast,
    htx⟩ := stages_of_release usual hconcat hrun
  have hkept := Disk.cleared_keeps s.disk ctx.settings.outDir
  rw [← hu] at hkept
  have links' := links.of_keeps hkept
  have heads := links.heading?_eq links' hkept.workDir.symm
  have hcleared : ∀ l, Disk.isBelow (out ++ [Format.umd.word]) l = true → u.disk.content? l = none := by
    intro l hl
    rw [hu]
    exact content?_of_cleared links hout (Disk.isBelow_of_append hl) (hclean.imp_right fun h => h l hl)
  obtain ⟨found, answers, hlength, htests, houtputs, hbundled⟩ := bundled_of_formats usual quiet hmain
    hmainOut hpatterns links' ((heads _).trans hout) ((heads _).trans htmp) apart hcleared hfirst
  have reported : Reported ctx.settings plan.formats found (clean :: (first ++ report :: last)) :=
    ⟨hlength, htests, clean, first, report :: last, rfl, houtputs⟩
  have bundled := hbundled fun files hzip file hfile hplain =>
    hlocales file hplain ((mem_localeOutputs_iff reported).2 ⟨files, hzip, file, hfile, rfl⟩)
  obtain ⟨v', w', hjoin, hv, hw, hname⟩ := runStage_gives hreport
  have bundled' := bundled.same_disk hv
  have hgrown := bundled'.grown_of_joins usual hjoin
  rw [← hw] at hgrown
  have linksw := hgrown.linkFree links'
  have headsw := links'.heading?_eq linksw hgrown.workDir
  refine ⟨report, found, v', w', reported, ?_, hname, ⟨_, _, bundled'⟩, hjoin, ?_⟩
  · rw [joinReport?, ← length_of_reported hlength htests houtputs, Nat.add_comm, List.getElem?_cons_succ,
      List.getElem?_append_right (Nat.le_refl _), Nat.sub_self, List.getElem?_cons_zero]
  · rw [htx, ← hw]
    exact sameButCustom_of_custom usual quiet hprobe linksw ((headsw _).trans ((heads _).trans hout))
      ((headsw _).trans ((heads _).trans htmp)) hlast

namespace JoinsTests

variable {report : Report} {found : List Files} {v w : BuildState}

theorem mem_testOutputs_iff (h : JoinsTests ctx plan out tmp reports report found v w t) {p : Path} :
    p ∈ testOutputs ctx.settings plan .umd reports ↔ ∃ file,
      Bundled.TestFile plan.formats found file ∧ p = (ctx.settings.formatDir .umd).join file := by
  rw [Pipeline.mem_testOutputs_iff h.reported]
  constructor
  · rintro ⟨files, hzip, file, hfile, rfl⟩
    exact ⟨file, ⟨files, hzip, hfile⟩, rfl⟩
  · rintro ⟨file, ⟨files, hzip, hfile⟩, rfl⟩
    exact ⟨files, hzip, file, hfile, rfl⟩

/-- What lies at the place of the joined tests stays. -/
theorem content?_joinedTests (h : JoinsTests ctx plan out tmp reports report found v w t) :
    t.disk.content? (out ++ [Format.umd.word] ++ ["min", "tests.js"]) =
      w.disk.content? (out ++ [Format.umd.word] ++ ["min", "tests.js"]) := by
  obtain ⟨Z, answers, bundled⟩ := h.bundled
  refine h.custom.content _ (bundled.apart.not_above (List.prefix_append _ _)) fun file hfile he => ?_
  simp only [customOnly, List.mem_cons, List.not_mem_nil, or_false] at hfile
  rcases hfile with rfl | rfl <;> simp at he

/-- The texts of the tests stay after they are joined. -/
theorem readText_test (h : JoinsTests ctx plan out tmp reports report found v w t) {content : ByteArray}
    (hwrote : v.disk.Wrote ctx.settings.joinedTests (out ++ [Format.umd.word] ++ ["min", "tests.js"])
      content w.disk) {rel : Location} (hrel : Disk.Inside rel)
    (hfile : Bundled.TestFile plan.formats found (Disk.relativePath rel)) {text : String}
    (hread : v.disk.readText ((ctx.settings.formatDir .umd).join (Disk.relativePath rel)) = .ok text) :
    t.disk.readText ((ctx.settings.formatDir .umd).join (Disk.relativePath rel)) = .ok text := by
  obtain ⟨Z, answers, bundled⟩ := h.bundled
  have htest := (Disk.isBelow_iff.1 (bundled.test_below hrel hfile)).1
  have hne : ∀ name, rel ≠ ["min", name] := by
    rintro name rfl
    simp at htest
  refine Disk.readText_of_keeps (hwrote.keeps.trans h.custom.keeps) (fun {l e b} hf => ?_) hread
  have hheads := bundled.laid.grown.heading?_of_find hf
  rw [bundled.linkFree.heading?_bundle bundled.outHeads .umd hrel.plain, hrel.names,
    Option.some.injEq] at hheads
  simp only at hheads
  rw [← hheads, h.custom.content _ (bundled.apart.not_above (List.prefix_append _ rel)), hwrote.content?,
    if_neg fun he => hne _ (List.append_cancel_left he)]
  exact fun file _ he => hne file (List.append_cancel_left he)

end JoinsTests

/-- A release that joins tests reports no file for this and leaves none, if it has made no wrapped tests.
Otherwise it reports the file of the joined tests, whose text is made of the texts of the tests that this
release has made, each once and in the order of their locations. -/
theorem release_joins_tests (usual : ctx.storage = .disk) (quiet : ctx.bundler.Quiet)
    (hprobe : ctx.probe.Quiet) (hmain : Path.Plain ctx.settings.mainEntry)
    (hmainOut : ∀ dir ∈ ["test", "min"], ¬ Path.LiesIn dir ctx.settings.mainEntry)
    (hpatterns : ctx.settings.TestsInPlace) (links : s.disk.LinkFree)
    (hout : s.disk.heading? ctx.settings.outDir = some out)
    (htmp : s.disk.heading? ctx.settings.tmpDir = some tmp)
    (apart : Disk.Apart (out ++ [Format.umd.word]) tmp)
    (hclean : s.disk.exists? ctx.settings.outDir = true ∨
      ∀ l, Disk.isBelow (out ++ [Format.umd.word]) l = true → s.disk.content? l = none)
    (hconcat : plan.concatTests = true) (hrun : (ctx.release plan).Gives s reports t)
    (hlocales : ∀ file, Path.Plain file →
      (ctx.settings.formatDir .umd).join file ∈ localeOutputs ctx.settings plan .umd reports →
        ∀ dir ∈ ["test", "min"], ¬ Path.LiesIn dir file) :
    ∃ report, joinReport? ctx.settings plan reports = some report ∧
      report.name = (Stage.concatTests ctx).name ∧
      (Format.umd ∉ plan.formats ∨ testOutputs ctx.settings plan .umd reports = [] →
        report.outputs = [] ∧
          t.disk.content? (out ++ [Format.umd.word] ++ ["min", "tests.js"]) = none) ∧
      (testOutputs ctx.settings plan .umd reports ≠ [] →
        report.outputs = [ctx.settings.joinedTests] ∧
          ∃ text, t.disk.readText ctx.settings.joinedTests = .ok text ∧
            t.disk.Joins (ctx.settings.formatDir .umd) (testOutputs ctx.settings plan .umd reports)
              text) := by
  obtain ⟨report, found, v, w, h⟩ := joinsTests_of_release usual quiet hprobe hmain hmainOut hpatterns
    links hout htmp apart hclean hconcat hrun hlocales
  obtain ⟨Z, answers, bundled⟩ := h.bundled
  obtain ⟨rels, hsorted, hrels, hall, hends⟩ := bundled.joins usual h.run
  have houtputs : ∀ p, p ∈ testOutputs ctx.settings plan .umd reports ↔
      ∃ rel ∈ rels, p = (ctx.settings.formatDir .umd).join (Disk.relativePath rel) := by
    intro p
    rw [h.mem_testOutputs_iff]
    constructor
    · rintro ⟨file, hfile, rfl⟩
      obtain ⟨rel, hrel, rfl⟩ := (hall file).1 hfile
      exact ⟨rel, hrel, rfl⟩
    · rintro ⟨rel, hrel, rfl⟩
      exact ⟨_, (hall _).2 ⟨rel, hrel, rfl⟩, rfl⟩
  have hempty : testOutputs ctx.settings plan .umd reports = [] ↔ rels = [] := by
    rw [List.eq_nil_iff_forall_not_mem, List.eq_nil_iff_forall_not_mem]
    constructor
    · exact fun hnone rel hrel => hnone _ ((houtputs _).2 ⟨rel, hrel, rfl⟩)
    · rintro hnone p hp
      obtain ⟨rel, hrel, -⟩ := (houtputs p).1 hp
      exact hnone rel hrel
  refine ⟨report, h.place, h.name, fun hnone => ?_, fun hsome => ?_⟩
  · have hnone' := hnone.elim (fun hf => testOutputs_of_not_mem hf ctx.settings reports) id
    rcases hends with ⟨-, hreported, hdisk⟩ | ⟨hne, -⟩
    · rw [h.content?_joinedTests, hdisk]
      exact ⟨hreported, bundled.content?_joinedTests⟩
    · exact absurd (hempty.1 hnone') hne
  · rcases hends with ⟨hnone, -⟩ | ⟨-, hreported, texts, htexts, hwrote⟩
    · exact absurd (hempty.2 hnone) hsome
    · refine ⟨hreported, _, ?_, rels, texts, hsorted, hrels, houtputs, ?_, rfl⟩
      · refine Disk.readText_of_keeps h.custom.keeps (fun {l e b} hf => ?_) hwrote.readText
        obtain ⟨e', b', hf'⟩ := hwrote.find
        rw [hf'] at hf
        cases hf
        exact h.content?_joinedTests
      · have hmem := (List.forall₂_and_left (p := (· ∈ rels)) _ _).2 ⟨fun _ hrel => hrel, htexts⟩
        exact hmem.imp fun rel text ⟨hrel, hread⟩ =>
          h.readText_test hwrote (hrels rel hrel) ((hall _).2 ⟨rel, hrel, rfl⟩) hread

end Context

/-! ## A small project -/

/-- The small project with short names and two patterns for tests, the second of which only matches a
file that the first one matches as well. -/
def Settings.withTests : Settings :=
  { small with
    srcDir := ⟨"/s"⟩
    outDir := ⟨"/o"⟩
    tmpDir := ⟨"/o/t"⟩
    mainEntry := "m"
    testPatterns := ["test/*.js", "test/a.js"] }

/-- The main entry, the templates, a test, and an output directory in which another test is left. -/
def Disk.withTests : Disk :=
  ((((((((((empty.set ["d"] (.file (Text.encode "") false)).set ["l"] (.file (Text.encode "") false)).set
    ["t"] (.file (Text.encode "") false)).set ["s"] .directory).set ["s", "m"]
    (.file (Text.encode "m") false)).set ["s", "test"] .directory).set ["s", "test", "a.js"]
    (.file (Text.encode "a") false)).set ["o"] .directory).set ["o", "umd"] .directory).set
    ["o", "umd", "test"] .directory).set ["o", "umd", "test", "b.js"] (.file (Text.encode "b") false)

/-- A release in one format with joined tests. -/
def ReleasePlan.joining (f : Format) : ReleasePlan where
  formats := [f]
  concatTests := true
  locales := []

namespace Context

set_option maxRecDepth 20000 in
theorem releaseFrom_withTests :
    ((small .withTests "b").releaseFrom (.joining .umd) .withTests).1.toOption.map (fun reports =>
      (localeOutputs .withTests (.joining .umd) .umd reports,
        testOutputs .withTests (.joining .umd) .umd reports)) =
      some ([], [⟨"/o/umd/test/a.js"⟩, ⟨"/o/umd/test/a.js"⟩]) := by
  decide +kernel

theorem release_joins_tests_small : ∃ reports t report text,
    ((small .withTests "b").release (.joining .umd)).Gives (.fresh .withTests) reports t ∧
      testOutputs .withTests (.joining .umd) .umd reports =
        [⟨"/o/umd/test/a.js"⟩, ⟨"/o/umd/test/a.js"⟩] ∧
      joinReport? .withTests (.joining .umd) reports = some report ∧
      report.outputs = [Settings.withTests.joinedTests] ∧
      t.disk.readText Settings.withTests.joinedTests = .ok text ∧
      t.disk.Joins (Settings.withTests.formatDir .umd)
        (testOutputs .withTests (.joining .umd) .umd reports) text := by
  obtain ⟨reports, hreports, houtputs⟩ := Option.map_eq_some_iff.1 releaseFrom_withTests
  obtain ⟨hlocales, htests⟩ := Prod.mk.inj houtputs
  have hrun := gives_of_run hreports
  obtain ⟨report, hplace, -, -, hjoined⟩ := release_joins_tests rfl (fun _ _ => rfl) (fun _ _ => rfl)
    ⟨by decide, by decide⟩ (by decide) (by decide)
    (Disk.linkFree_of_entries (by decide +kernel)) (by decide +kernel : Disk.withTests.heading?
      Settings.withTests.outDir = some ["o"]) (by decide +kernel : Disk.withTests.heading?
      Settings.withTests.tmpDir = some ["o", "t"])
    ⟨by decide, by decide⟩ (.inl (by decide +kernel)) rfl hrun fun file _ hmem => by
      rw [show localeOutputs (small .withTests "b").settings (.joining .umd) .umd reports = [] from
        hlocales] at hmem
      cases hmem
  obtain ⟨houtputs, text, hread, hjoins⟩ := hjoined (List.ne_nil_of_length_eq_add_one
    (congrArg List.length htests))
  exact ⟨reports, _, report, text, hrun, htests, hplace, houtputs, hread, hjoins⟩

end Context

/-! ## Files that no test stage has written -/

/-- The main entry and the templates at the root, beside a staging area in which nothing lies. -/
def Disk.rooted : Disk :=
  ((((Disk.empty.set ["m.js"] (.file (Text.encode "m") false)).set ["d"]
    (.file (Text.encode "") false)).set ["l"] (.file (Text.encode "") false)).set ["t"]
    (.file (Text.encode "") false)).set ["u"] .directory

namespace Context

/-- The inputs lie apart from the wrapped bundles, and what the patterns match at the start does so as
well. Even so the release succeeds and joins tests, though none has been written. -/
structure JoinsStrays (ctx : Context) (plan : ReleasePlan) (d : Disk) (src out tmp : Location) : Prop where
  usual : ctx.storage = .disk
  quiet : ctx.bundler.Quiet
  quietProbe : ctx.probe.Quiet
  main : Path.Plain ctx.settings.mainEntry
  mainOut : ∀ dir ∈ ["test", "min"], ¬ Path.LiesIn dir ctx.settings.mainEntry
  tests : ctx.settings.TestsInPlace
  linkFree : d.LinkFree
  srcHeads : d.heading? ctx.settings.srcDir = some src
  outHeads : d.heading? ctx.settings.outDir = some out
  tmpHeads : d.heading? ctx.settings.tmpDir = some tmp
  sources : ¬ (out ++ [Format.umd.word]) <+: src
  apart : Disk.Apart (out ++ [Format.umd.word]) tmp
  locales : ∃ files, d.expand ctx.settings.srcDir ctx.settings.localesPattern = .ok files ∧
    ∀ file ∈ files, ∀ dir ∈ ["test", "min"], ¬ Path.LiesIn dir file
  strays : (ctx.releaseFrom plan d).1.toOption.map (fun reports =>
      (testOutputs ctx.settings plan .umd reports,
        (joinReport? ctx.settings plan reports).map Report.outputs)) =
    some ([], some [ctx.settings.joinedTests])

/-- The path of the output directory leads through a directory that is missing until the first bundle
is written, so that nothing is cleaned. -/
def detour : Context :=
  small { Settings.withTests with
    outDir := ⟨"/x/../o"⟩
    testPatterns := [] } "b"

/-- The output directory is the directory of tests, and the first wrapped bundle is a locale. -/
def nested : Context :=
  small { Settings.small with
    srcDir := ⟨"/"⟩
    outDir := ⟨"/test"⟩
    tmpDir := ⟨"/u"⟩
    mainEntry := "m.js"
    localesPattern := "**/m.js" } "b"

set_option maxRecDepth 20000 in
theorem detour_joinsStrays :
    detour.JoinsStrays (.joining .esm) .withTests ["s"] ["o"] ["o", "t"] where
  usual := rfl
  quiet _ _ := rfl
  quietProbe _ _ := rfl
  main := ⟨by decide, by decide⟩
  mainOut := by decide
  tests := by decide
  linkFree := Disk.linkFree_of_entries (by decide +kernel)
  srcHeads := by decide +kernel
  outHeads := by decide +kernel
  tmpHeads := by decide +kernel
  sources := by decide
  apart := ⟨by decide, by decide⟩
  locales := ⟨[], by decide +kernel, by decide⟩
  strays := by decide +kernel

set_option maxRecDepth 20000 in
theorem nested_joinsStrays :
    nested.JoinsStrays (.joining .umd) Disk.rooted [] ["test"] ["u"] where
  usual := rfl
  quiet _ _ := rfl
  quietProbe _ _ := rfl
  main := ⟨by decide, by decide⟩
  mainOut := by decide
  tests := by decide
  linkFree := Disk.linkFree_of_entries (by decide +kernel)
  srcHeads := by decide +kernel
  outHeads := by decide +kernel
  tmpHeads := by decide +kernel
  sources := by decide
  apart := ⟨by decide, by decide⟩
  locales := ⟨["m.js"], by decide +kernel, by decide⟩
  strays := by decide +kernel

/-- A release joins files that no stage for tests has written, if the output directory is not cleaned
since its path leads through a missing directory, or if bundles become locales in the directory of
tests. -/
theorem release_joins_strays :
    detour.JoinsStrays (.joining .esm) .withTests ["s"] ["o"] ["o", "t"] ∧
    nested.JoinsStrays (.joining .umd) Disk.rooted [] ["test"] ["u"] :=
  ⟨detour_joinsStrays, nested_joinsStrays⟩

end Context

end LocaleForge
