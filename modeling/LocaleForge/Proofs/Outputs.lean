import LocaleForge.Proofs.Deposits
import LocaleForge.Proofs.Identifiers
import LocaleForge.Proofs.Layout
import LocaleForge.Proofs.Relative

/-!
One job for each file that a pattern finds. The outputs lie below the target directory as the files lie below their
root, each at a path of its own; on the tree they are as many as the places that these paths head to.
-/

namespace LocaleForge

open Build

open Disk (Inside relativePath)

/-! ## The calls of a run -/

theorem flatMap_range_getElem? {α : Type} (xs : List α) :
    (List.range xs.length).flatMap (fun n => xs[n]?.toList) = xs := by
  induction xs with
  | nil => rfl
  | cons x xs ih =>
    rw [List.length_cons, List.range_succ_eq_map, List.flatMap_cons, List.flatMap_map]
    exact congrArg (x :: ·) ih

theorem Trace.perm_own (trace : Trace) (n : Nat) :
    ((trace.filter (·.1 < n)).map (·.2)).Perm ((List.range n).flatMap trace.own) := by
  induction n with
  | zero => simp
  | succ n ih =>
    have hsplit := (List.filter_append_perm (·.1 < n) (trace.filter (·.1 < n + 1))).symm.map (·.2)
    rw [List.map_append, List.filter_filter, List.filter_filter] at hsplit
    rw [List.range_succ, List.flatMap_append, List.flatMap_singleton]
    have hbelow : trace.filter (fun x => decide (x.1 < n) && decide (x.1 < n + 1)) =
        trace.filter (·.1 < n) := by
      refine List.filter_congr fun x _ => Bool.eq_iff_iff.2 ?_
      simp only [Bool.and_eq_true, decide_eq_true_eq]
      omega
    have hself : trace.filter (fun x => !decide (x.1 < n) && decide (x.1 < n + 1)) =
        trace.filter (·.1 = n) := by
      refine List.filter_congr fun x _ => Bool.eq_iff_iff.2 ?_
      simp only [Bool.and_eq_true, Bool.not_eq_true', decide_eq_true_eq, decide_eq_false_iff_not]
      omega
    rw [hbelow, hself] at hsplit
    exact hsplit.trans (ih.append_right _)

namespace Interleaving

variable {settings : Settings} {groups : List (List Job)} {s : BuildState} {trace : Trace}
  {i : Interleaving} {targets : List Path}

/-- If each job has made one call of a kind, these are the calls of this kind. -/
theorem Stands.perm_calls {α : Type} (h : Stands settings groups s trace i) (f : Event → Option α)
    (val : Job → α) (hown : ∀ (n : Nat) (j : Job), groups.flatten[n]? = some j →
      (Trace.own trace n).filterMap f = [val j]) :
    ((trace.map (·.2)).filterMap f).Perm (groups.flatten.map val) := by
  have hall : trace.filter (·.1 < groups.flatten.length) = trace :=
    List.filter_eq_self.2 fun x hx => decide_eq_true (h.numbered x.1 x.2 hx)
  have hperm := (Trace.perm_own trace groups.flatten.length).filterMap f
  rw [hall, List.filterMap_flatMap] at hperm
  have hrange : (List.range groups.flatten.length).flatMap (fun n => (Trace.own trace n).filterMap f) =
      (List.range groups.flatten.length).flatMap fun n => (groups.flatten.map val)[n]?.toList := by
    refine List.flatMap_congr fun n hn => ?_
    have hj := List.getElem?_eq_getElem (List.mem_range.1 hn)
    rw [hown n _ hj, List.getElem?_map, hj]
    rfl
  rwa [hrange, ← List.length_map val, flatMap_range_getElem?] at hperm

end Interleaving

/-! ## Jobs for found files -/

namespace Disk

variable {d : Disk} {root p : Path} {pattern file : String} {files : List String} {loc : Location}

theorem exists_inside_of_expand (h : d.expand root pattern = .ok files) (hf : file ∈ files) :
    ∃ rel, Inside rel ∧ file = relativePath rel := by
  obtain ⟨-, rel, -, -, hrel, hcut, hnames⟩ := mem_expand h hf
  exact ⟨rel, ⟨hcut ▸ Text.cut_ne_nil '/' file, hnames⟩, hrel⟩

/-- Where no link lies below a directory, files that are found elsewhere head to places of their own there. -/
theorem headings_of_expand (h : d.expand root pattern = .ok files) (heads : d.heading? p = some loc)
    (noLinks : ∀ l, loc <+: l → l ≠ loc → ∀ target, d.get? l ≠ some (.link target)) :
    (∀ file ∈ files, d.heading? (p.join file) = some (loc ++ Text.cut '/' file)) ∧
      ∀ file ∈ files, ∀ other ∈ files, d.heading? (p.join other) = d.heading? (p.join file) →
        other = file := by
  have hall : ∀ file ∈ files, d.heading? (p.join file) = some (loc ++ Text.cut '/' file) := by
    intro file hf
    obtain ⟨rel, hrel, rfl⟩ := exists_inside_of_expand h hf
    rw [heading?_join heads noLinks hrel.plain, hrel.names, hrel.cut]
  refine ⟨hall, fun file hf other ho hsame => ?_⟩
  rw [hall file hf, hall other ho] at hsame
  have hcut := List.append_cancel_left (Option.some.inj hsame)
  rw [← Text.join_cut '/' other, hcut, Text.join_cut]

end Disk

namespace JobTemplate

variable {t : JobTemplate} {d : Disk} {root : Path} {pattern : String} {files : List String} {j : Job}

/-- The target of a job lies below the target directory where its entry lies below the root. -/
theorem target_of_expand (h : d.expand root pattern = .ok files) (hj : j ∈ files.map (t.jobFor root)) :
    j.entry ∈ files ∧ Text.cut '/' j.entry ≠ [] ∧ (∀ n ∈ Text.cut '/' j.entry, IsName n) ∧
      j.target.components = t.targetDir.components ++ (Text.cut '/' j.entry).map .name ∧
      Path.below? t.targetDir j.target = some ⟨j.entry⟩ ∧ Path.below? root j.entryPath = some ⟨j.entry⟩ := by
  obtain ⟨file, hf, rfl⟩ := List.mem_map.1 hj
  obtain ⟨rel, hrel, rfl⟩ := Disk.exists_inside_of_expand h hf
  refine ⟨hf, Text.cut_ne_nil _ _, ?_, ?_, Path.below?_join t.targetDir hrel, Path.below?_join root hrel⟩
  · simp only [jobFor, hrel.cut]
    exact hrel.named
  · simp only [jobFor, hrel.cut]
    exact Path.components_join t.targetDir hrel

theorem nodup_targets (h : d.expand root pattern = .ok files) :
    ((files.map (t.jobFor root)).map (·.target.components)).Nodup := by
  rw [List.map_map]
  refine (List.nodup_map_iff_inj_on (Disk.nodup_of_expand h)).2 fun file hf other ho hsame => ?_
  have hcomponents := fun {file} (hf : file ∈ files) =>
    (target_of_expand (t := t) h (List.mem_map_of_mem hf)).2.2.2.1
  simp only [Function.comp_apply] at hsame
  rw [hcomponents hf, hcomponents ho] at hsame
  have hnames := List.append_cancel_left hsame
  have hcut : Text.cut '/' file = Text.cut '/' other :=
    List.map_injective_iff.2 (fun _ _ h => Path.Component.name.inj h) hnames
  rw [← Text.join_cut '/' file, hcut, Text.join_cut]

end JobTemplate

/-! ## Runs that succeed -/

/-- What a run of one job for each file has come to when it succeeds. -/
structure JobTemplate.Mirrored (ctx : Context) (t : JobTemplate) (root : Path) (files : List String)
    (s : BuildState) (targets : List Path) (u : BuildState) : Prop where
  targets_eq : targets = files.map t.targetDir.join
  /-- Each job has asked once and has written once. -/
  calls : ∃ calls, u.log = s.log ++ calls ∧
    (calls.filterMap Event.request?).Perm (files.map fun file => .ofJob ctx.settings (t.jobFor root file)) ∧
    (calls.filterMap Event.written?).Perm targets
  placed : ctx.bundler.Quiet → ∀ file ∈ files, ∃ loc,
    s.disk.heading? (t.targetDir.join file) = some loc ∧ u.disk.locate (t.targetDir.join file) = .ok loc
  /-- An output is overwritten only where the target of another job heads to the same place. -/
  kept : ctx.bundler.Quiet → ∀ file ∈ files,
    (∀ other ∈ files, s.disk.heading? (t.targetDir.join other) = s.disk.heading? (t.targetDir.join file) →
      other = file) →
    ∃ header reply, u.shelf.Heads ctx.settings (t.jobFor root file) header ∧
      Event.reply ⟨.ofJob ctx.settings (t.jobFor root file), some reply⟩ ∈ u.log.drop s.log.length ∧
      u.disk.readText (t.targetDir.join file) = .ok (relocate t.comments ctx.settings.localeMarker
        (header ++ Text.dropLines (t.jobFor root file).skipped reply))
  untouched : ctx.bundler.Quiet → ∀ loc,
    (∀ file ∈ files, s.disk.heading? (t.targetDir.join file) ≠ some loc) →
    u.disk.content? loc = s.disk.content? loc

namespace Context

variable {ctx : Context} {s : BuildState} {t : JobTemplate} {root : Path} {files : List String}
  {targets : List Path}

/-- In whatever order the answers come, the outputs are those of the jobs. -/
theorem mirrored_of_reaches (usual : ctx.storage = .disk) (hfiles : files.Nodup) {slots : Nat}
    {i : Interleaving} (h : Interleaving.Reaches ctx slots
      (.ofGroups s (ctx.settings.groups (files.map (t.jobFor root)))) i)
    (hresults : i.results? = some targets) : t.Mirrored ctx root files s targets i.current.state := by
  obtain ⟨first, later, hbegun, hjobs, -⟩ :=
    Interleaving.ofGroups_eq ctx.settings s (files.map (t.jobFor root))
  rw [hbegun] at h
  obtain ⟨trace, htrace⟩ := h.traced
  have stands := htrace.stands
  obtain ⟨htargets, hwritten⟩ := stands.results hresults
  have hcalls : ∀ (n : Nat) (j : Job), (first :: later).flatten[n]? = some j →
      (Trace.own trace n).filterMap Event.request? = [.ofJob ctx.settings j] ∧
        (Trace.own trace n).filterMap Event.written? = [j.target] :=
    fun n j hj => (stands.of_written hj (hwritten n j hj)).2
  have hplace : ∀ file ∈ files, ∃ n : Nat,
      files[n]? = some file ∧ (first :: later).flatten[n]? = some (t.jobFor root file) := by
    intro file hf
    obtain ⟨n, hn⟩ := List.mem_iff_getElem?.1 hf
    exact ⟨n, hn, by rw [hjobs, List.getElem?_map, hn]; rfl⟩
  have hdeposited := fun quiet => h.deposited usual quiet
  refine ⟨?_, ⟨_, stands.log, ?_, ?_⟩, fun quiet file hf => ?_, fun quiet file hf hown => ?_,
    fun quiet loc hother => ?_⟩
  · rw [htargets, hjobs, List.map_map]
    rfl
  · have hperm := stands.perm_calls Event.request? (.ofJob ctx.settings) fun n j hj => (hcalls n j hj).1
    rwa [hjobs, List.map_map] at hperm
  · rw [htargets]
    exact stands.perm_calls Event.written? (·.target) fun n j hj => (hcalls n j hj).2
  · obtain ⟨n, -, hn⟩ := hplace file hf
    obtain ⟨loc, e, b, -, -, hloc, hfind, -⟩ := (hdeposited quiet).written n _ _ hn (hwritten n _ hn)
    exact ⟨loc, hloc, Disk.locate_of_find hfind⟩
  · obtain ⟨n, hfile, hn⟩ := hplace file hf
    refine ((hdeposited quiet).written n _ _ hn (hwritten n _ hn)).read fun loc hloc m k hk hheads => ?_
    rw [hjobs, List.getElem?_map] at hk
    obtain ⟨other, ho, rfl⟩ := Option.map_eq_some_iff.1 hk
    have hsame : other = file := hown other (List.mem_of_getElem? ho) (hheads.trans hloc.symm)
    have hlt : n < files.length := (List.getElem?_eq_some_iff.1 hfile).1
    exact ((List.getElem?_inj hlt hfiles).1 (by rw [hfile, ho, hsame])).symm
  · refine (hdeposited quiet).grown.content?_eq fun ⟨j, hj, hheads⟩ => ?_
    rw [hjobs] at hj
    obtain ⟨file, hf, rfl⟩ := List.mem_map.1 hj
    exact hother file hf hheads

/-- One job runs for each found file, in the order of the files. The targets lie below the target directory, each at
a path of its own, which is the path of the entry below the root. In whatever order the answers come, a run that
succeeds has written one file for each entry; where no link lies below the target directory these are as many files,
each with the output of its job, and no other file is changed. -/
theorem transpileMany_mirrors (usual : ctx.storage = .disk) {pattern : String}
    (found : s.disk.expand root pattern = .ok files) :
    let jobs := files.map (t.jobFor root)
    let begun := { s with log := s.log ++ [.expand root pattern] }
    ((ctx.transpileMany root pattern t).run.run s = (ctx.runJobs jobs).run.run begun) ∧
    (jobs.map (·.target.components)).Nodup ∧
    (∀ j ∈ jobs, j.entry ∈ files ∧ Text.cut '/' j.entry ≠ [] ∧ (∀ n ∈ Text.cut '/' j.entry, IsName n) ∧
      j.target.components = t.targetDir.components ++ (Text.cut '/' j.entry).map .name ∧
      Path.below? t.targetDir j.target = some ⟨j.entry⟩ ∧ Path.below? root j.entryPath = some ⟨j.entry⟩) ∧
    (∀ slots i targets, Interleaving.Reaches ctx slots (.ofGroups begun (ctx.settings.groups jobs)) i →
      i.results? = some targets → t.Mirrored ctx root files begun targets i.current.state) ∧
    (∀ targets u, (ctx.transpileMany root pattern t).Gives s targets u →
      t.Mirrored ctx root files begun targets u) ∧
    ∀ dir, s.disk.heading? t.targetDir = some dir →
      (∀ l, dir <+: l → l ≠ dir → ∀ target, s.disk.get? l ≠ some (.link target)) →
      (∀ file ∈ files, s.disk.heading? (t.targetDir.join file) = some (dir ++ Text.cut '/' file)) ∧
        ∀ file ∈ files, ∀ other ∈ files,
          s.disk.heading? (t.targetDir.join other) = s.disk.heading? (t.targetDir.join file) → other = file := by
  intro jobs begun
  have hrun : (ctx.transpileMany root pattern t).run.run s = (ctx.runJobs jobs).run.run begun := by
    rw [transpileMany, run_bind, run_expand_usual usual, found, mapError_ok]
  have hnodup := Disk.nodup_of_expand found
  refine ⟨hrun, JobTemplate.nodup_targets found, fun j hj => JobTemplate.target_of_expand found hj,
    fun slots i targets h hresults => mirrored_of_reaches usual hnodup h hresults,
    fun targets u h => ?_, fun dir heads noLinks => Disk.headings_of_expand found heads noLinks⟩
  rw [Gives, hrun] at h
  rcases Interleaving.endsWith_or_panics ctx begun jobs with hends | ⟨-, -, hpanic⟩
  · rw [h] at hends
    obtain ⟨i, hreach, rfl, hresults⟩ := hends
    exact mirrored_of_reaches usual hnodup hreach hresults
  · rw [hpanic] at h
    cases h

/-- The small project with a bundler that answers with the text of the entry when all jobs have asked. -/
def echoing : Context :=
  { small .small "" with
    bundler := { suspensions := 1, reply := fun r d => (.ok ((d.readText r.entry).toOption.getD ""), d) } }

def bare : JobTemplate where
  format := .esm
  header := .none
  skip := some 0
  comments := .keep
  excludeBase := false
  targetDir := ⟨"/o"⟩

def twoScripts : Disk :=
  ((Disk.small.set ["src", "a"] .directory).set ["src", "a", "b.js"] (.file (Text.encode "b") false)).set
    ["o"] .directory

theorem transpileMany_mirrors_two :
    echoing.storage = .disk ∧ twoScripts.expand ⟨"/src"⟩ "**/*.js" = .ok ["a/b.js", "m.js"] ∧
    ∃ u, (echoing.transpileMany ⟨"/src"⟩ "**/*.js" bare).Gives (.fresh twoScripts)
      [⟨"/o/a/b.js"⟩, ⟨"/o/m.js"⟩] u ∧ bare.Mirrored echoing ⟨"/src"⟩ ["a/b.js", "m.js"]
        { BuildState.fresh twoScripts with log := [.expand ⟨"/src"⟩ "**/*.js"] }
        [⟨"/o/a/b.js"⟩, ⟨"/o/m.js"⟩] u := by
  have found : twoScripts.expand ⟨"/src"⟩ "**/*.js" = .ok ["a/b.js", "m.js"] :=
    eq_ok_of_toOption (by decide +kernel)
  have hgives : (echoing.transpileMany ⟨"/src"⟩ "**/*.js" bare).Gives (.fresh twoScripts)
      [⟨"/o/a/b.js"⟩, ⟨"/o/m.js"⟩] _ := gives_of_run (by decide +kernel)
  obtain ⟨-, -, -, -, hmirrored, -⟩ :=
    @transpileMany_mirrors echoing (.fresh twoScripts) bare ⟨"/src"⟩ ["a/b.js", "m.js"] rfl "**/*.js" found
  exact ⟨rfl, found, _, hgives, hmirrored _ _ hgives⟩

/-- The output of one job is to lie where a link to the output of another one lies. -/
def linkedOutput : Disk :=
  (((Disk.small.set ["src", "a.js"] (.file (Text.encode "a") false)).set
    ["src", "b.js"] (.file (Text.encode "b") false)).set ["o"] .directory).set ["o", "b.js"] (.link "a.js")

/-- Both outputs go to one file, and the first of them is lost. -/
theorem linked_output_overwritten : ∃ u,
    (echoing.transpileMany ⟨"/src"⟩ "?.js" bare).Gives (.fresh linkedOutput)
      [⟨"/o/a.js"⟩, ⟨"/o/b.js"⟩, ⟨"/o/m.js"⟩] u ∧
    linkedOutput.readText ⟨"/src/a.js"⟩ = .ok "a" ∧ u.disk.readText ⟨"/o/a.js"⟩ = .ok "b" ∧
    u.disk.locate ⟨"/o/b.js"⟩ = .ok ["o", "a.js"] :=
  ⟨_, gives_of_run (by decide +kernel), eq_ok_of_toOption (by decide +kernel),
    eq_ok_of_toOption (by decide +kernel), eq_ok_of_toOption (by decide +kernel)⟩

end Context

end LocaleForge
