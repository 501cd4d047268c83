import LocaleForge.Proofs.Asking
import LocaleForge.Proofs.Finding
import LocaleForge.Proofs.Moves
import LocaleForge.Proofs.Sequence
import Mathlib.Data.List.Forall2
import Mathlib.Data.List.Perm.Basic

/-!
The stages of one format as moves: which jobs they run, which files they find for that, and what the
aggregates are made from.
-/

namespace LocaleForge

open Build

theorem Format.simple_word (f : Format) : Path.Simple f.word := by
  cases f <;> exact ⟨by decide, by decide, by decide⟩

theorem Disk.Wrote.readText {X Y : Disk} {p : Path} {loc : Location} {text : String}
    (h : X.Wrote p loc (Text.encode text) Y) : Y.readText p = .ok text := by
  obtain ⟨e, b, hf⟩ := h.find
  refine Disk.readText_of_content? hf ?_
  rw [h.content?, if_pos rfl]

/-- In a tree that was reached on the way from a course, these files matched a pattern. -/
def Found (ctx : Context) (targets others : Path → Prop) (c : Course) (pattern : String)
    (files : List String) : Prop :=
  ∃ a u, Moves ctx targets others c ⟨[], a, u⟩ ∧
    u.disk.expand ctx.settings.srcDir pattern = .ok files

/-- An aggregate was made from an entry for the locale files found. -/
def MadeFrom (ctx : Context) (targets others : Path → Prop) (c : Course) (answer : Answered) : Prop :=
  ∃ files, Found ctx targets others c ctx.settings.localesPattern files ∧
    answer.tree.readText answer.job.entryPath =
      .ok (Locale.entryText ctx.settings.baseModule ctx.settings.defaultLocale files)

/-- The answers of each stage are answers to its jobs, in some order. -/
abbrev Answered.To (parts : List (List Answered)) (jobs : List (List Job)) : Prop :=
  List.Forall₂ (fun part js => (part.map Answered.job).Perm js) parts jobs

theorem Answered.To.perm {parts : List (List Answered)} {jobs : List (List Job)} (h : To parts jobs) :
    (parts.flatten.map Answered.job).Perm jobs.flatten := by
  rw [List.map_flatten]
  exact List.Perm.flatten_congr (List.forall₂_map_left_iff.2 h)

theorem Answered.To.job_mem {parts : List (List Answered)} {jobs : List (List Job)} (h : To parts jobs)
    {a : Answered} (ha : a ∈ parts.flatten) : a.job ∈ jobs.flatten :=
  h.perm.mem_iff.1 (List.mem_map_of_mem ha)

section

variable {ctx : Context} {targets others : Path → Prop} {c c' : Course} {s t : BuildState}
  {a : List Answered}

theorem Found.of_moves {pattern : String} {files : List String}
    (h : Found ctx targets others c' pattern files) (hm : Moves ctx targets others c c') :
    Found ctx targets others c pattern files := by
  obtain ⟨a, u, hu, he⟩ := h
  exact ⟨a, u, hm.trans hu, he⟩

theorem MadeFrom.of_moves {answer : Answered} (h : MadeFrom ctx targets others c' answer)
    (hm : Moves ctx targets others c c') : MadeFrom ctx targets others c answer := by
  obtain ⟨files, hf, hr⟩ := h
  exact ⟨files, hf.of_moves hm, hr⟩

/-! ## Single stages -/

theorem moves_of_expand (usual : ctx.storage = .disk) {root : Path} {pattern : String}
    {files : List String} (h : (ctx.expand root pattern).Gives s files t) :
    s.disk.expand root pattern = .ok files ∧
      Moves ctx targets others ⟨[], a, s⟩ ⟨[], a, t⟩ := by
  obtain ⟨he, rfl⟩ := Context.expand_gives usual h
  exact ⟨he, .single (.notes _ rfl)⟩

theorem moves_of_single {j : Job} {ends : List Path} (hj : targets j.target)
    (h : (Stage.single ctx j).run.Gives s ends t) :
    ends = [j.target] ∧ ∃ answer, answer.job = j ∧
      Moves ctx targets others ⟨[], a, s⟩ ⟨[], a ++ [answer], t⟩ := by
  obtain ⟨target, u, ht, h⟩ := gives_bind_iff.1 h
  obtain ⟨rfl, rfl⟩ := gives_pure_iff.1 h
  obtain ⟨rfl, answer, hjob, -, hm⟩ := Context.moves_of_transpile hj ht
  exact ⟨rfl, answer, hjob, hm⟩

theorem moves_of_batch (usual : ctx.storage = .disk) {pattern : String} {template : JobTemplate}
    {ends : List Path} (hj : ∀ {rel}, Path.Plain rel → targets (template.targetDir.join rel))
    (h : (Stage.batch ctx pattern template).run.Gives s ends t) :
    ∃ files, Found ctx targets others ⟨[], a, s⟩ pattern files ∧
      ends = (files.map (template.jobFor ctx.settings.srcDir)).map (·.target) ∧
      (ctx.bundler.suspensions = 0 → s.Asked t ((files.map (template.jobFor ctx.settings.srcDir)).map
        fun j => .request (.ofJob ctx.settings j))) ∧
      ∃ new, (new.map Answered.job).Perm (files.map (template.jobFor ctx.settings.srcDir)) ∧
        Moves ctx targets others ⟨[], a, s⟩ ⟨[], a ++ new, t⟩ := by
  obtain ⟨files, u, hfiles, h⟩ := gives_bind_iff.1 h
  obtain ⟨he, hm⟩ := moves_of_expand usual hfiles
  have hj' : ∀ j ∈ files.map (template.jobFor ctx.settings.srcDir), targets j.target := by
    intro j hmem
    obtain ⟨file, hfile, rfl⟩ := List.mem_map.1 hmem
    exact hj (Disk.plain_of_expand he hfile)
  obtain ⟨hends, new, hperm, hm'⟩ := Context.moves_of_runJobs others a hj' h
  refine ⟨files, ⟨a, s, .refl, he⟩, hends, fun now => ?_, new, hperm, hm.trans hm'⟩
  exact ((ctx.asks_expand _ _).of_gives hfiles).trans
    ((ctx.asks_transpiles _).of_gives (Context.mapM_of_runJobs now h))

theorem moves_of_copies {root dir : Path} {files : List String}
    (ho : ∀ file ∈ files, others (dir.join file))
    (h : (files.forM fun file => ctx.copy (root.join file) (dir.join file)).Gives s () t) :
    Moves ctx targets others ⟨[], a, s⟩ ⟨[], a, t⟩ := by
  induction files generalizing s with
  | nil =>
    obtain ⟨-, rfl⟩ := gives_pure_iff.1 h
    exact .refl
  | cons file files ih =>
    obtain ⟨⟨⟩, u, hfile, h⟩ := gives_bind_iff.1 h
    have first : Move ctx targets others ⟨[], a, s⟩ ⟨[], a, u⟩ :=
      .copies (ho file List.mem_cons_self) hfile
    exact .head first (ih (fun x hx => ho x (List.mem_cons_of_mem _ hx)) h)

theorem moves_of_prepareStaging (usual : ctx.storage = .disk)
    (ho : ∀ {rel}, Path.Plain rel → others (ctx.settings.tmpDir.join rel)) {n : Nat}
    (h : ctx.prepareStaging.Gives s n t) : Moves ctx targets others ⟨[], a, s⟩ ⟨[], a, t⟩ := by
  obtain ⟨found, u, hfound, h⟩ := gives_bind_iff.1 h
  simp only [Context.hasEntry, gives_bind_iff, gives_get_iff, gives_pure_iff] at hfound
  obtain ⟨_, _, ⟨rfl, rfl⟩, -, rfl⟩ := hfound
  cases found with
  | true =>
    obtain ⟨-, rfl⟩ := gives_pure_iff.1 h
    exact .refl
  | false =>
    obtain ⟨files, v, hfiles, h⟩ := gives_bind_iff.1 h
    obtain ⟨⟨⟩, w, hcopies, h⟩ := gives_bind_iff.1 h
    obtain ⟨-, rfl⟩ := gives_pure_iff.1 h
    obtain ⟨he, hm⟩ := moves_of_expand usual hfiles
    exact hm.trans (moves_of_copies (fun file hf => ho (Disk.plain_of_expand he hf)) hcopies)

theorem moves_of_aggregate (usual : ctx.storage = .disk)
    (ho : ∀ {rel}, Path.Plain rel → others (ctx.settings.tmpDir.join rel)) {target end_ : Path}
    {entry : String} {files : List String} {f : Format} {excludeBase : Bool}
    (hentry : target.fileName? = some entry) (ht : targets target)
    (h : (ctx.aggregate target files f excludeBase).Gives s end_ t) :
    end_ = target ∧ ∃ answer,
      answer.job = Context.aggregateJob ctx.settings entry target f excludeBase ∧
      answer.tree.readText answer.job.entryPath =
        .ok (Locale.entryText ctx.settings.baseModule ctx.settings.defaultLocale files) ∧
      Moves ctx targets others ⟨[], a, s⟩ ⟨[], a ++ [answer], t⟩ := by
  obtain ⟨n, u, hstaging, h⟩ := gives_bind_iff.1 h
  rw [hentry] at h
  obtain ⟨⟨⟩, v, hwrite, h⟩ := gives_bind_iff.1 h
  obtain ⟨rfl, answer, hjob, htree, hm⟩ := Context.moves_of_transpile (j :=
    Context.aggregateJob ctx.settings entry target f excludeBase) (o := []) (a := a) ht h
  refine ⟨rfl, answer, hjob, ?_, ?_⟩
  · obtain ⟨⟨loc, hw⟩, -⟩ := Context.write_gives usual hwrite
    rw [htree, hjob]
    exact hw.readText
  · have write : Move ctx targets others ⟨[], a, u⟩ ⟨[], a, v⟩ :=
      .writes (ho (Path.Simple.of_fileName? hentry).plain) hwrite
    exact (moves_of_prepareStaging usual ho hstaging).trans (.head write hm)

/-- The stage of an aggregate of all locales. -/
theorem moves_of_aggregateStage (usual : ctx.storage = .disk)
    (ho : ∀ {rel}, Path.Plain rel → others (ctx.settings.tmpDir.join rel)) {target : Path}
    {ends : List Path} {entry : String} {f : Format} {excludeBase : Bool}
    (hentry : target.fileName? = some entry) (ht : targets target)
    (h : (Stage.aggregate ctx target none f excludeBase).run.Gives s ends t) :
    ends = [target] ∧ ∃ answer,
      answer.job = Context.aggregateJob ctx.settings entry target f excludeBase ∧
      MadeFrom ctx targets others ⟨[], a, s⟩ answer ∧
      Moves ctx targets others ⟨[], a, s⟩ ⟨[], a ++ [answer], t⟩ := by
  obtain ⟨files, u, hfiles, h⟩ := gives_bind_iff.1 h
  obtain ⟨end_, v, hend, h⟩ := gives_bind_iff.1 h
  obtain ⟨rfl, rfl⟩ := gives_pure_iff.1 h
  obtain ⟨he, hm⟩ := moves_of_expand usual hfiles
  obtain ⟨rfl, answer, hjob, hread, hm'⟩ := moves_of_aggregate usual ho hentry ht hend
  exact ⟨rfl, answer, hjob, ⟨files, ⟨a, s, .refl, he⟩, hread⟩, hm.trans hm'⟩

/-! ## Pipelines -/

namespace Pipeline

/-- A stage that is run prints, runs, prints again and is reported with its files. -/
theorem runStage_inv (targets others : Path → Prop) (a : List Answered) {settings : Settings}
    {n total : Nat} {stage : Stage} {report : Report} (h : (runStage settings n total stage).Gives s report t) :
    ∃ u v, stage.run.Gives u report.outputs v ∧ (u.log = s.log ∧ t.log = v.log) ∧
      Moves ctx targets others ⟨[], a, s⟩ ⟨[], a, u⟩ ∧
      ∀ a, Moves ctx targets others ⟨[], a, v⟩ ⟨[], a, t⟩ := by
  simp only [runStage, gives_bind_iff, gives_tell_iff, gives_during_iff, gives_pure_iff] at h
  obtain ⟨⟨⟩, _, rfl, outputs, v, hrun, ⟨⟩, _, rfl, rfl, rfl⟩ := h
  exact ⟨_, v, hrun, ⟨rfl, rfl⟩, .single (.tells _), fun a => .single (.tells _)⟩

theorem runFrom_append {settings : Settings} {total n : Nat} {p q : Pipeline} {reports : List Report}
    (h : (runFrom settings total n (p ++ q)).Gives s reports t) :
    ∃ first second u m, reports = first ++ second ∧ (runFrom settings total n p).Gives s first u ∧
      (runFrom settings total m q).Gives u second t := by
  induction p generalizing n s reports with
  | nil => exact ⟨[], reports, s, n, rfl, gives_pure [] s, h⟩
  | cons stage stages ih =>
    obtain ⟨report, u, hreport, h⟩ := gives_bind_iff.1 h
    obtain ⟨rest, v, hrest, h⟩ := gives_bind_iff.1 h
    obtain ⟨rfl, rfl⟩ := gives_pure_iff.1 h
    obtain ⟨first, second, w, m, rfl, hfirst, hsecond⟩ := ih hrest
    exact ⟨report :: first, second, w, m, rfl, hreport.bind (hfirst.bind (gives_pure _ w)), hsecond⟩

theorem runFrom_cons {settings : Settings} {total n : Nat} {stage : Stage} {stages : Pipeline}
    {reports : List Report} (h : (runFrom settings total n (stage :: stages)).Gives s reports t) :
    ∃ report rest u, reports = report :: rest ∧ (runStage settings n total stage).Gives s report u ∧
      (runFrom settings total (n + 1) stages).Gives u rest t := by
  obtain ⟨report, u, hreport, h⟩ := gives_bind_iff.1 h
  obtain ⟨rest, v, hrest, h⟩ := gives_bind_iff.1 h
  obtain ⟨rfl, rfl⟩ := gives_pure_iff.1 h
  exact ⟨report, rest, u, rfl, hreport, hrest⟩

/-- The jobs of the stages of a format, for the locale files and the test files that are found. -/
def formatJobs (s : Settings) (f : Format) (locales : List String) (tests : List (List String)) :
    List (List Job) :=
  [[mainJob s f], locales.map ((localeTemplate s f).jobFor s.srcDir)] ++
    tests.map (fun files => files.map ((testTemplate s f).jobFor s.srcDir)) ++
    [[Context.aggregateJob s "locales.js" (aggregateTarget s f "locales.js") f true],
      [Context.aggregateJob s "moment-with-locales.js"
        (aggregateTarget s f "moment-with-locales.js") f false]]

/-- The stages that give these outputs run these jobs, each stage its own in some order. Where no call
waits, the bundler is asked in the order of the jobs. -/
structure Ran (ctx : Context) (targets others : Path → Prop) (s : BuildState) (a : List Answered)
    (reports : List Report) (jobs : List (List Job)) (answers : List (List Answered))
    (t : BuildState) : Prop where
  outputs : reports.map (·.outputs) = jobs.map (·.map (·.target))
  asked : ctx.bundler.suspensions = 0 →
    s.Asked t (jobs.flatten.map fun j => .request (.ofJob ctx.settings j))
  jobs : Answered.To answers jobs
  moves : Moves ctx targets others ⟨[], a, s⟩ ⟨[], a ++ answers.flatten, t⟩

theorem Ran.flatMap_outputs {reports : List Report} {jobs : List (List Job)}
    {answers : List (List Answered)} (h : Ran ctx targets others s a reports jobs answers t) :
    reports.flatMap (·.outputs) = jobs.flatten.map (·.target) := by
  rw [List.flatMap_def, h.outputs, List.map_flatten]

theorem Ran.nil : Ran ctx targets others s a [] [] [] s where
  outputs := rfl
  jobs := .nil
  asked _ := .of_log rfl
  moves := by simpa using .refl

theorem Ran.append {u : BuildState} {reports reports' : List Report} {jobs jobs' : List (List Job)}
    {answers answers' : List (List Answered)}
    (h : Ran ctx targets others s a reports jobs answers u)
    (h' : Ran ctx targets others u (a ++ answers.flatten) reports' jobs' answers' t) :
    Ran ctx targets others s a (reports ++ reports') (jobs ++ jobs') (answers ++ answers') t where
  outputs := by rw [List.map_append, List.map_append, h.outputs, h'.outputs]
  jobs := List.rel_append h.jobs h'.jobs
  asked now := by
    rw [List.flatten_append, List.map_append]
    exact (h.asked now).trans (h'.asked now)
  moves := by
    rw [List.flatten_append, ← List.append_assoc]
    exact h.moves.trans h'.moves

theorem Ran.single {report : Report} {jobs : List Job} {new : List Answered}
    (houtputs : report.outputs = jobs.map (·.target)) (hjobs : (new.map Answered.job).Perm jobs)
    (hasked : ctx.bundler.suspensions = 0 →
      s.Asked t (jobs.map fun j => .request (.ofJob ctx.settings j)))
    (hm : Moves ctx targets others ⟨[], a, s⟩ ⟨[], a ++ new, t⟩) :
    Ran ctx targets others s a [report] [jobs] [new] t where
  outputs := by rw [List.map_singleton, List.map_singleton, houtputs]
  jobs := .cons hjobs .nil
  asked := by rwa [List.flatten_singleton]
  moves := by rwa [List.flatten_singleton]

variable {f : Format}

theorem ran_of_single (others : Path → Prop) (a : List Answered) {settings : Settings} {n total : Nat}
    {j : Job} {report : Report}
    (hj : targets j.target) (h : (runStage settings n total (Stage.single ctx j)).Gives s report t) :
    ∃ answer, Ran ctx targets others s a [report] [[j]] [[answer]] t := by
  obtain ⟨u, v, hrun, hlog, hm, hm'⟩ := runStage_inv targets others a h
  obtain ⟨hends, answer, rfl, hmid⟩ := moves_of_single hj hrun
  refine ⟨answer, .single hends (.refl _) (fun _ => ?_) ((hm.trans hmid).trans (hm' _))⟩
  exact ((Stage.asks_single ctx _).of_gives hrun).of_logs hlog

theorem ran_of_batch (usual : ctx.storage = .disk) (others : Path → Prop) (a : List Answered)
    {settings : Settings} {n total : Nat}
    {pattern : String} {template : JobTemplate} {report : Report}
    (hj : ∀ {rel}, Path.Plain rel → targets (template.targetDir.join rel))
    (h : (runStage settings n total (Stage.batch ctx pattern template)).Gives s report t) :
    ∃ files new, Found ctx targets others ⟨[], a, s⟩ pattern files ∧
      Ran ctx targets others s a [report] [files.map (template.jobFor ctx.settings.srcDir)] [new] t := by
  obtain ⟨u, v, hrun, hlog, hm, hm'⟩ := runStage_inv targets others a h
  obtain ⟨files, hfound, hends, hasked, new, hperm, hmid⟩ := moves_of_batch usual hj hrun
  exact ⟨files, new, hfound.of_moves hm, .single hends hperm (fun now => (hasked now).of_logs hlog)
    ((hm.trans hmid).trans (hm' _))⟩

theorem ran_of_batches (usual : ctx.storage = .disk) (others : Path → Prop) (a : List Answered)
    {settings : Settings} {n total : Nat}
    {patterns : List String} {template : JobTemplate} {reports : List Report}
    (hj : ∀ {rel}, Path.Plain rel → targets (template.targetDir.join rel))
    (h : (runFrom settings total n (patterns.map fun pattern => Stage.batch ctx pattern template)).Gives
      s reports t) :
    ∃ filess answers, List.Forall₂ (Found ctx targets others ⟨[], a, s⟩) patterns filess ∧
      Ran ctx targets others s a reports
        (filess.map fun files => files.map (template.jobFor ctx.settings.srcDir)) answers t := by
  induction patterns generalizing n s reports a with
  | nil =>
    obtain ⟨rfl, rfl⟩ := gives_pure_iff.1 h
    exact ⟨[], [], .nil, .nil⟩
  | cons pattern patterns ih =>
    obtain ⟨report, rest, u, rfl, hreport, hrest⟩ := runFrom_cons h
    obtain ⟨files, new, hfound, hran⟩ := ran_of_batch usual others a hj hreport
    obtain ⟨filess, answers, hfounds, hrans⟩ := ih (a ++ [new].flatten) hrest
    refine ⟨files :: filess, new :: answers, .cons hfound ?_, hran.append hrans⟩
    exact hfounds.imp fun _ _ h => h.of_moves hran.moves

theorem ran_of_aggregate (usual : ctx.storage = .disk) (a : List Answered)
    (ho : ∀ {rel}, Path.Plain rel → others (ctx.settings.tmpDir.join rel)) {settings : Settings}
    {n total : Nat} {target : Path} {report : Report} {entry : String} {excludeBase : Bool}
    (hentry : target.fileName? = some entry) (ht : targets target)
    (h : (runStage settings n total (Stage.aggregate ctx target none f excludeBase)).Gives s report t) :
    ∃ answer, MadeFrom ctx targets others ⟨[], a, s⟩ answer ∧
      Ran ctx targets others s a [report]
        [[Context.aggregateJob ctx.settings entry target f excludeBase]] [[answer]] t := by
  obtain ⟨u, v, hrun, hlog, hm, hm'⟩ := runStage_inv targets others a h
  obtain ⟨hends, answer, hjob, hmade, hmid⟩ := moves_of_aggregateStage usual ho hentry ht hrun
  refine ⟨answer, hmade.of_moves hm, .single hends ?_ (fun _ => ?_) ((hm.trans hmid).trans (hm' _))⟩
  · rw [List.map_singleton, hjob]
  · exact ((Stage.asks_aggregate ctx hentry f excludeBase).of_gives hrun).of_logs hlog

theorem simple_min : Path.Simple "min" :=
  ⟨by decide, by decide, by decide⟩

theorem simple_locales : Path.Simple "locales.js" :=
  ⟨by decide, by decide, by decide⟩

theorem simple_withLocales : Path.Simple "moment-with-locales.js" :=
  ⟨by decide, by decide, by decide⟩

theorem simple_tests : Path.Simple "tests.js" :=
  ⟨by decide, by decide, by decide⟩

theorem simple_customLocales : Path.Simple "locales.custom.js" :=
  ⟨by decide, by decide, by decide⟩

theorem simple_withCustomLocales : Path.Simple "moment-with-locales.custom.js" :=
  ⟨by decide, by decide, by decide⟩

theorem aggregateTarget_eq {settings : Settings} {file : String} (h : Path.Simple file) :
    aggregateTarget settings f file = (settings.formatDir f).join ("min/" ++ file) :=
  Path.join_join _ simple_min h.plain

theorem fileName?_aggregateTarget {settings : Settings} {file : String} (h : Path.Simple file) :
    (aggregateTarget settings f file).fileName? = some file :=
  Path.fileName?_join _ h

theorem cut_min {file : String} (h : Path.Simple file) :
    Text.cut '/' ("min/" ++ file) = ["min", file] := by
  rw [show "min/" = "min" ++ "/" from rfl, Path.cut_append_slash, simple_min.cut, h.cut]
  rfl

theorem names_min {file : String} (h : Path.Simple file) :
    Path.names (Text.cut '/' ("min/" ++ file)) = ["min", file] := by
  rw [cut_min h, Path.names_cons simple_min.notIdle, Path.names_cons h.notIdle, Path.names_nil]

theorem plain_min {file : String} (h : Path.Simple file) : Path.Plain ("min/" ++ file) where
  relative := by
    rw [Path.isAbsolute, String.toList_append]
    rfl
  noUp := by
    rw [cut_min h]
    simp [Ne.symm h.notUp]

theorem aggregateTarget_mem {settings : Settings} {paths : Path → Prop}
    (hf : ∀ {rel}, Path.Plain rel → paths ((settings.formatDir f).join rel)) {file : String}
    (hfile : Path.Simple file) : paths (aggregateTarget settings f file) := by
  rw [aggregateTarget_eq hfile]
  exact hf (plain_min hfile)

/-- Only the aggregates keep the documentation lines in their places. -/
theorem comments_of_mem_jobs {settings : Settings} {locales : List String} {tests : List (List String)}
    {j : Job} (h : j ∈ ([[mainJob settings f]] ++
      [locales.map ((localeTemplate settings f).jobFor settings.srcDir)] ++
      tests.map fun files => files.map ((testTemplate settings f).jobFor settings.srcDir)).flatten) :
    j.comments = .full := by
  simp only [List.flatten_append, List.mem_append, List.mem_flatten, List.mem_map,
    List.mem_singleton, exists_eq_left] at h
  rcases h with (rfl | ⟨file, -, rfl⟩) | ⟨_, ⟨files, -, rfl⟩, h⟩
  · rfl
  · rfl
  · obtain ⟨file, -, rfl⟩ := List.mem_map.1 h
    rfl

/-- The stages of a format after its directory is cleaned: the main entry, the locales, the tests for
each pattern, and two aggregates that are made from the locale files found. -/
theorem ran_of_formatStages (usual : ctx.storage = .disk) {settings : Settings} {n total : Nat}
    {reports : List Report}
    (hmain : targets ((ctx.settings.formatDir f).join ctx.settings.mainEntry))
    (ht : ∀ {rel}, Path.Plain rel → targets ((ctx.settings.formatDir f).join rel))
    (ho : ∀ {rel}, Path.Plain rel → others (ctx.settings.tmpDir.join rel))
    (h : (runFrom settings total n (formatStages ctx f)).Gives s reports t) :
    ∃ locales tests answers,
      Ran ctx targets others s a reports (formatJobs ctx.settings f locales tests) answers t ∧
      Found ctx targets others ⟨[], a, s⟩ ctx.settings.localesPattern locales ∧
      List.Forall₂ (Found ctx targets others ⟨[], a, s⟩) ctx.settings.testPatterns tests ∧
      ∀ z ∈ answers.flatten, z.job.comments ≠ .full → MadeFrom ctx targets others ⟨[], a, s⟩ z := by
  rw [formatStages] at h
  obtain ⟨front, last, w, m, rfl, hfront, hlast⟩ := runFrom_append h
  obtain ⟨front, middle, v, m', rfl, hfront, hmiddle⟩ := runFrom_append hfront
  -- The main entry and the locales.
  obtain ⟨r, rs, s₁, rfl, hr, hfront⟩ := runFrom_cons hfront
  obtain ⟨r', rs, s₂, rfl, hr', hfront⟩ := runFrom_cons hfront
  obtain ⟨rfl, rfl⟩ := gives_pure_iff.1 hfront
  obtain ⟨main, hmainRan⟩ := ran_of_single others a hmain hr
  have hlocales : ∀ {rel}, Path.Plain rel →
      targets ((localeTemplate ctx.settings f).targetDir.join rel) := ht
  obtain ⟨locales, new, hfound, hlocalesRan⟩ :=
    ran_of_batch usual others (a ++ [[main]].flatten) hlocales hr'
  have hfrontRan := hmainRan.append hlocalesRan
  -- The tests.
  have htests : ∀ {rel}, Path.Plain rel →
      targets ((testTemplate ctx.settings f).targetDir.join rel) := ht
  obtain ⟨tests, answers, hfounds, htestsRan⟩ :=
    ran_of_batches usual others (a ++ ([[main]] ++ [new]).flatten) htests hmiddle
  have hmiddleRan := hfrontRan.append htestsRan
  -- The aggregates.
  obtain ⟨r₁, rs, s₃, rfl, hr₁, hlast⟩ := runFrom_cons hlast
  obtain ⟨r₂, rs, s₄, rfl, hr₂, hlast⟩ := runFrom_cons hlast
  obtain ⟨rfl, rfl⟩ := gives_pure_iff.1 hlast
  obtain ⟨x, hx, hxRan⟩ := ran_of_aggregate usual
    (a ++ ([[main]] ++ [new] ++ answers).flatten) ho
    (fileName?_aggregateTarget simple_locales) (aggregateTarget_mem ht simple_locales) hr₁
  have hxRan' := hmiddleRan.append hxRan
  obtain ⟨y, hy, hyRan⟩ := ran_of_aggregate usual
    (a ++ ([[main]] ++ [new] ++ answers ++ [[x]]).flatten) ho
    (fileName?_aggregateTarget simple_withLocales) (aggregateTarget_mem ht simple_withLocales) hr₂
  have hyRan' := hxRan'.append hyRan
  refine ⟨locales, tests, [[main], new] ++ answers ++ [[x], [y]], ?_, ?_, ?_, fun z hz hcomments => ?_⟩
  · simpa only [formatJobs, List.append_assoc, List.cons_append, List.nil_append] using hyRan'
  · exact hfound.of_moves hmainRan.moves
  · exact hfounds.imp fun _ _ h => h.of_moves hfrontRan.moves
  · rw [List.flatten_append, List.mem_append] at hz
    rcases hz with hz | hz
    · exact absurd (comments_of_mem_jobs (hmiddleRan.jobs.job_mem hz)) hcomments
    · simp only [List.flatten_cons, List.flatten_nil, List.append_nil, List.cons_append,
        List.nil_append, List.mem_cons, List.not_mem_nil, or_false] at hz
      rcases hz with rfl | rfl
      · exact hx.of_moves hmiddleRan.moves
      · exact hy.of_moves hxRan'.moves

end Pipeline

end

end LocaleForge
