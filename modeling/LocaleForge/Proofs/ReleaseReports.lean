import LocaleForge.Proofs.ReleaseRun

/-!
The reports of a release by format and stage: what the stages of a format report for its locales and
tests, and where the report on the joined tests stands.
-/

namespace LocaleForge

open Build

theorem chunks_append {α : Type} {size : Nat} (hsize : 0 < size) {xs : List α} (hxs : xs.length = size)
    (ys : List α) : chunks size (xs ++ ys) = xs :: chunks size ys := by
  cases xs with
  | nil =>
    rw [List.length_nil] at hxs
    omega
  | cons x xs =>
    have hlength : xs.length = size - 1 := by
      rw [List.length_cons] at hxs
      omega
    rw [List.cons_append, chunks, List.take_left' hlength, List.drop_left' hlength]

theorem zip_chunks {α β γ : Type} {size : Nat} (hsize : 0 < size) {f : α × β → List γ} {as : List α}
    {bs : List β} (h : as.length = bs.length) (hf : ∀ x ∈ as.zip bs, (f x).length = size)
    (more : List γ) :
    as.zip (chunks size ((as.zip bs).flatMap f ++ more)) = (as.zip bs).map fun x => (x.1, f x) := by
  induction as generalizing bs with
  | nil => rfl
  | cons a as ih =>
    cases bs with
    | nil => cases h
    | cons b bs =>
      rw [List.zip_cons_cons, List.forall_mem_cons] at hf
      rw [List.zip_cons_cons, List.flatMap_cons, List.append_assoc, chunks_append hsize hf.1,
        List.zip_cons_cons, List.map_cons, ih (Nat.succ.inj h) hf.2]

namespace Pipeline

/-- The number of stages of a format. -/
def formatLength (s : Settings) : Nat :=
  s.testPatterns.length + 4

/-- What the stages of a format have written in a release, stage by stage and run by run. -/
def outputsFor (s : Settings) (plan : ReleasePlan) (f : Format) (reports : List Report) :
    List (List (List Path)) :=
  ((plan.formats.zip (chunks (formatLength s) (reports.tail.map (·.outputs)))).filter (·.1 = f)).map
    (·.2)

/-- The reported bundles of locales: the second stage of a format. -/
def localeOutputs (s : Settings) (plan : ReleasePlan) (f : Format) (reports : List Report) : List Path :=
  (outputsFor s plan f reports).flatMap fun stages => ((stages.drop 1).take 1).flatten

/-- The reported bundles of tests: those of the stages behind the locales, one for each pattern. -/
def testOutputs (s : Settings) (plan : ReleasePlan) (f : Format) (reports : List Report) : List Path :=
  (outputsFor s plan f reports).flatMap fun stages =>
    ((stages.drop 2).take s.testPatterns.length).flatten

/-- The report on the joined tests, which comes after the formats. -/
def joinReport? (s : Settings) (plan : ReleasePlan) (reports : List Report) : Option Report :=
  reports[1 + plan.formats.length * formatLength s]?

/-- The locale files of a format and the test files of each pattern. -/
abbrev Files := List String × List (List String)

/-- The jobs of formats, each with its own files. -/
def formatsJobs (s : Settings) (formats : List Format) (found : List Files) : List (List Job) :=
  (formats.zip found).flatMap fun x => formatJobs s x.1 x.2.1 x.2.2

/-- These files have matched the patterns in trees reached from a course. -/
def FilesFound (ctx : Context) (targets others : Path → Prop) (c : Course) (files : Files) : Prop :=
  Found ctx targets others c ctx.settings.localesPattern files.1 ∧
    List.Forall₂ (Found ctx targets others c) ctx.settings.testPatterns files.2

section

variable {ctx : Context} {targets others : Path → Prop} {s t : BuildState} {a : List Answered}
  {reports : List Report} {formats : List Format} {found : List Files} {f : Format} {j : Job}
  {settings : Settings} {plan : ReleasePlan} {p : Path}

/-- The stages of formats run the jobs for the files that each format finds. -/
theorem ran_of_formats (usual : ctx.storage = .disk)
    (hmain : ∀ f, targets ((ctx.settings.formatDir f).join ctx.settings.mainEntry))
    (ht : ∀ f {rel}, Path.Plain rel → targets ((ctx.settings.formatDir f).join rel))
    (ho : ∀ {rel}, Path.Plain rel → others (ctx.settings.tmpDir.join rel)) {n total : Nat}
    (h : (runFrom settings total n (formats.flatMap (formatStages ctx))).Gives s reports t) :
    ∃ (found : List Files) (answers : List (List Answered)), formats.length = found.length ∧
      (∀ files ∈ found, FilesFound ctx targets others ⟨[], a, s⟩ files) ∧
      Ran ctx targets others s a reports (formatsJobs ctx.settings formats found) answers t := by
  induction formats generalizing n s reports a with
  | nil =>
    obtain ⟨rfl, rfl⟩ := gives_pure_iff.1 h
    exact ⟨[], [], rfl, nofun, .nil⟩
  | cons f formats ih =>
    rw [List.flatMap_cons] at h
    obtain ⟨first, rest, u, m, rfl, hfirst, hrest⟩ := runFrom_append h
    obtain ⟨locales, tests, answers, hran, hlocales, htests, -⟩ :=
      ran_of_formatStages (a := a) usual (hmain f) (ht f) ho hfirst
    obtain ⟨found, answers', hlength, hfound, hran'⟩ := ih (a := a ++ answers.flatten) hrest
    refine ⟨(locales, tests) :: found, answers ++ answers', congrArg (· + 1) hlength, ?_,
      hran.append hran'⟩
    rintro files (_ | ⟨_, hmem⟩)
    · exact ⟨hlocales, htests⟩
    · obtain ⟨hl, hts⟩ := hfound files hmem
      exact ⟨hl.of_moves hran.moves, hts.imp fun _ _ ht => ht.of_moves hran.moves⟩

theorem target_aggregate {file : String} (hfile : Path.Simple file) (excludeBase : Bool) :
    (Context.aggregateJob settings file (aggregateTarget settings f file) f excludeBase).target =
      (settings.formatDir f).join ("min/" ++ file) := by
  rw [Context.aggregateJob, aggregateTarget_eq hfile]

/-- A job of formats is that of the main entry of one of them, of a locale, of a test or of an
aggregate. -/
theorem target_cases (h : j ∈ (formatsJobs settings formats found).flatten) :
    ∃ f files, (f, files) ∈ formats.zip found ∧ ∃ rel, j.target = (settings.formatDir f).join rel ∧
      (rel = settings.mainEntry ∨ rel ∈ files.1 ∨ rel ∈ files.2.flatten ∨
        ∃ file ∈ ["locales.js", "moment-with-locales.js"], rel = "min/" ++ file) := by
  obtain ⟨js, hjs, hj⟩ := List.mem_flatten.1 h
  obtain ⟨⟨f, files⟩, hmem, hjs⟩ := List.mem_flatMap.1 hjs
  refine ⟨f, files, hmem, ?_⟩
  simp only [formatJobs, List.mem_append, List.mem_map, List.mem_cons, List.not_mem_nil,
    or_false] at hjs
  rcases hjs with ((rfl | rfl) | ⟨tests, htests, rfl⟩) | rfl | rfl
  · rw [List.mem_singleton.1 hj]
    exact ⟨_, rfl, .inl rfl⟩
  · obtain ⟨file, hfile, rfl⟩ := List.mem_map.1 hj
    exact ⟨file, rfl, .inr (.inl hfile)⟩
  · obtain ⟨file, hfile, rfl⟩ := List.mem_map.1 hj
    exact ⟨file, rfl, .inr (.inr (.inl (List.mem_flatten_of_mem htests hfile)))⟩
  · rw [List.mem_singleton.1 hj]
    exact ⟨_, target_aggregate simple_locales true, .inr (.inr (.inr ⟨_, by simp, rfl⟩))⟩
  · rw [List.mem_singleton.1 hj]
    exact ⟨_, target_aggregate simple_withLocales false, .inr (.inr (.inr ⟨_, by simp, rfl⟩))⟩

theorem exists_test_job (settings : Settings) {files : Files} (h : (f, files) ∈ formats.zip found)
    {file : String} (hfile : file ∈ files.2.flatten) : ∃ j ∈ (formatsJobs settings formats found).flatten,
      j.target = (settings.formatDir f).join file := by
  obtain ⟨tests, htests, hfile⟩ := List.mem_flatten.1 hfile
  refine ⟨(testTemplate settings f).jobFor settings.srcDir file, ?_, rfl⟩
  refine List.mem_flatten.2 ⟨_, List.mem_flatMap.2 ⟨_, h, ?_⟩, List.mem_map_of_mem hfile⟩
  rw [formatJobs]
  exact List.mem_append_left _ (List.mem_append_right _ (List.mem_map_of_mem htests))

/-! ## Where the reports stand -/

/-- The reports of a release: on cleaning, on the formats and on what follows. -/
structure Reported (s : Settings) (formats : List Format) (found : List Files) (reports : List Report) :
    Prop where
  lengths : formats.length = found.length
  tests : ∀ files ∈ found, files.2.length = s.testPatterns.length
  outputs : ∃ clean first more, reports = clean :: (first ++ more) ∧
    first.map (·.outputs) = (formatsJobs s formats found).map (·.map (·.target))

theorem length_formatJobs {files : Files} (h : files.2.length = settings.testPatterns.length) :
    (formatJobs settings f files.1 files.2).length = formatLength settings := by
  simp only [formatJobs, formatLength, List.length_append, List.length_map, List.length_cons,
    List.length_nil, h]
  omega

theorem outputsFor_eq (h : Reported settings plan.formats found reports) :
    outputsFor settings plan f reports = ((plan.formats.zip found).filter (·.1 = f)).map fun x =>
      (formatJobs settings x.1 x.2.1 x.2.2).map (·.map (·.target)) := by
  obtain ⟨clean, first, more, rfl, houtputs⟩ := h.outputs
  have hlength : ∀ x ∈ plan.formats.zip found, ((formatJobs settings x.1 x.2.1 x.2.2).map
      (·.map (·.target))).length = formatLength settings := by
    intro x hx
    rw [List.length_map, length_formatJobs (h.tests x.2 (List.of_mem_zip hx).2)]
  rw [outputsFor, List.tail_cons, List.map_append, houtputs, formatsJobs, List.map_flatMap,
    zip_chunks (by rw [formatLength]; omega) h.lengths hlength, List.filter_map, List.map_map]
  rfl

theorem mem_localeOutputs_iff (h : Reported settings plan.formats found reports) :
    p ∈ localeOutputs settings plan f reports ↔ ∃ files, (f, files) ∈ plan.formats.zip found ∧
      ∃ file ∈ files.1, p = (settings.formatDir f).join file := by
  rw [localeOutputs, outputsFor_eq h, List.flatMap_map, List.mem_flatMap]
  constructor
  · rintro ⟨⟨g, files⟩, hin, hp⟩
    obtain ⟨hmem, hg⟩ := List.mem_filter.1 hin
    obtain rfl : g = f := of_decide_eq_true hg
    simp only [formatJobs, List.cons_append, List.map_cons, List.drop_succ_cons, List.drop_zero,
      List.take_succ_cons, List.take_zero, List.flatten_cons, List.flatten_nil, List.append_nil,
      List.map_map, List.mem_map] at hp
    obtain ⟨file, hfile, rfl⟩ := hp
    exact ⟨files, hmem, file, hfile, rfl⟩
  · rintro ⟨files, hmem, file, hfile, rfl⟩
    refine ⟨(f, files), List.mem_filter.2 ⟨hmem, decide_eq_true rfl⟩, ?_⟩
    simp only [formatJobs, List.cons_append, List.map_cons, List.drop_succ_cons, List.drop_zero,
      List.take_succ_cons, List.take_zero, List.flatten_cons, List.flatten_nil, List.append_nil,
      List.map_map, List.mem_map]
    exact ⟨file, hfile, rfl⟩

theorem mem_testOutputs_iff (h : Reported settings plan.formats found reports) :
    p ∈ testOutputs settings plan f reports ↔ ∃ files, (f, files) ∈ plan.formats.zip found ∧
      ∃ file ∈ files.2.flatten, p = (settings.formatDir f).join file := by
  have hstages : ∀ files ∈ found, (((formatJobs settings f files.1 files.2).map
      (·.map (·.target))).drop 2).take settings.testPatterns.length =
        files.2.map (·.map (settings.formatDir f).join) := by
    intro files hmem
    have hlength := h.tests files hmem
    simp only [formatJobs, List.cons_append, List.nil_append, List.map_cons, List.map_append,
      List.drop_succ_cons, List.drop_zero, List.map_map]
    rw [List.take_left' (by rw [List.length_map, hlength])]
    refine List.map_congr_left fun tests _ => ?_
    rw [Function.comp_apply, List.map_map]
    rfl
  rw [testOutputs, outputsFor_eq h, List.flatMap_map, List.mem_flatMap]
  constructor
  · rintro ⟨⟨g, files⟩, hin, hp⟩
    obtain ⟨hmem, hg⟩ := List.mem_filter.1 hin
    obtain rfl : g = f := of_decide_eq_true hg
    rw [hstages files (List.of_mem_zip hmem).2, ← List.map_flatten] at hp
    obtain ⟨file, hfile, rfl⟩ := List.mem_map.1 hp
    exact ⟨files, hmem, file, hfile, rfl⟩
  · rintro ⟨files, hmem, file, hfile, rfl⟩
    refine ⟨(f, files), List.mem_filter.2 ⟨hmem, decide_eq_true rfl⟩, ?_⟩
    rw [hstages files (List.of_mem_zip hmem).2, ← List.map_flatten]
    exact List.mem_map_of_mem hfile

theorem length_of_reported {first : List Report} (hlength : plan.formats.length = found.length)
    (htests : ∀ files ∈ found, files.2.length = settings.testPatterns.length)
    (hfirst : first.map (·.outputs) = (formatsJobs settings plan.formats found).map (·.map (·.target))) :
    first.length = plan.formats.length * formatLength settings := by
  have hmap := congrArg List.length hfirst
  rw [List.length_map, List.length_map, formatsJobs, List.length_flatMap] at hmap
  rw [hmap, List.map_congr_left fun x hx => length_formatJobs (htests x.2 (List.of_mem_zip hx).2),
    List.map_const', List.sum_replicate_nat, List.length_zip, ← hlength, Nat.min_self]

end

end Pipeline

end LocaleForge
