import LocaleForge.Proofs.Arrangement
import LocaleForge.Proofs.StagingArea
import LocaleForge.Proofs.Requests

/-!
The staging area after a build: each script among the sources lies there as it lies among them, but for
the entries of the aggregates, which are written over what was copied to their places.
-/

namespace LocaleForge

open Build Pipeline

namespace Disk

variable {d X Y : Disk} {region : Location → Prop} {targets : Path → Prop} {p root : Path}
  {src out tmp rel l loc : Location} {content : ByteArray}

theorem find_of_toOption {e : Option Entry} {b : Bool}
    (h : (d.find true p).toOption.map (fun s => (s.location, s.entry, s.slashed)) = some (loc, e, b)) :
    d.find true p = .ok ⟨loc, e, b⟩ := by
  cases hf : d.find true p with
  | error fault =>
    rw [hf] at h
    cases h
  | ok spot =>
    rw [hf] at h
    cases h
    rfl

/-- The file of the one directory lies in the other one as well, if it lies there at all. -/
def Mirrors (d : Disk) (src tmp rel : Location) : Prop :=
  d.content? (tmp ++ rel) = d.content? (src ++ rel)

theorem Wrote.mirrors (h : X.Wrote p loc content Y) (hsrc : src ++ rel ≠ loc) (htmp : tmp ++ rel ≠ loc)
    (hm : X.Mirrors src tmp rel) : Y.Mirrors src tmp rel := by
  rw [Mirrors, h.content?, h.content?, if_neg hsrc, if_neg htmp]
  exact hm

/-! ## Trees that receive files -/

/-- A tree after some attempts to write files by paths of a kind. -/
inductive Received (targets : Path → Prop) (d : Disk) : Disk → Prop
  | refl : Received targets d d
  | more {X Y : Disk} {p : Path} (h : Received targets d X) (hp : targets p) (ht : X.Touched p Y) :
      Received targets d Y

theorem Received.grown (h : Received targets d X) : d.Grown (fun _ => True) X := by
  induction h with
  | refl => exact .refl d _
  | more _ _ ht ih => exact ih.touched ht fun _ _ => trivial

/-- Where no path leads, nothing comes to lie. -/
theorem Received.get?_eq_none (h : Received targets d X) (hnone : d.get? l = none)
    (hfree : ∀ p, targets p → d.heading? p ≠ some l ∧ ¬ d.OnWay p l) : X.get? l = none := by
  induction h with
  | refl => exact hnone
  | @more X Y p h hp ht ih =>
    have hlinks := h.grown.sameLinks
    cases hy : Y.get? l with
    | none => rfl
    | some e =>
      rcases ht with rfl | ⟨s, content, hw, hputs⟩
      · exact absurd (made_of_makeRoom hlinks ih (by simp [hy])) (hfree p hp).2
      · have hne : l ≠ s.location := by
          rintro rfl
          have hmid := h.grown.extends (extends_makeRoom p X) (workDir_makeRoom p X)
          exact (hfree p hp).1 (hmid.heading?_of_find (find_of_writable hw).1)
        rw [hputs.get?_of_ne hne] at hy
        exact absurd (made_of_makeRoom hlinks ih (by simp [hy])) (hfree p hp).2

/-- Where a build of the format puts bundles in this tree, it neither finds nor makes a staging area;
once the main bundle is written, it finds the sources. -/
structure Ready (d : Disk) (s : Settings) (f : Format) (src : Location) : Prop where
  unstaged : ∀ X, Received (s.Target f) d X → X.exists? s.tmpDir = false
  source : ∀ X, Received (s.Target f) d X → X.isFile ((s.formatDir f).join s.mainEntry) = true →
    X.get? src = some .directory → ∃ b, X.find true s.srcDir = .ok ⟨src, some .directory, b⟩

/-- The sources, the bundles of the format and the staging area have places apart from each other in a
tree without links. -/
structure Sited (d : Disk) (s : Settings) (f : Format) (src out tmp : Location) : Prop where
  linkFree : d.LinkFree
  srcHeads : d.heading? s.srcDir = some src
  outHeads : d.heading? s.outDir = some out
  tmpHeads : d.heading? s.tmpDir = some tmp
  sources : ∀ l ∈ [out, tmp], Apart l src
  staging : Apart (out ++ [f.word]) tmp

variable {s : Settings} {f : Format}

theorem Sited.of_keeps (h : d.Sited s f src out tmp) (hk : X.Keeps d) : X.Sited s f src out tmp := by
  have hlinks := h.linkFree.of_keeps hk
  have hsame := h.linkFree.heading?_eq hlinks hk.workDir.symm
  exact ⟨hlinks, (hsame _).trans h.srcHeads, (hsame _).trans h.outHeads, (hsame _).trans h.tmpHeads,
    h.sources, h.staging⟩

theorem Sited.grown (h : d.Sited s f src out tmp) (hg : d.Grown region X) : X.Sited s f src out tmp := by
  have hlinks := hg.linkFree h.linkFree
  have hsame := h.linkFree.heading?_eq hlinks hg.workDir
  exact ⟨hlinks, (hsame _).trans h.srcHeads, (hsame _).trans h.outHeads, (hsame _).trans h.tmpHeads,
    h.sources, h.staging⟩

theorem Sited.wrote (h : X.Sited s f src out tmp) (hw : X.Wrote p loc content Y) :
    Y.Sited s f src out tmp :=
  h.grown ((Grown.refl X fun _ => True).wrote hw trivial)

theorem Sited.not_source (h : d.Sited s f src out tmp) : src ++ rel ≠ tmp ++ l := by
  intro he
  have hpre : src <+: tmp ++ l := he ▸ List.prefix_append src rel
  exact (h.sources tmp (by simp)).not_above (List.prefix_append tmp l) hpre

/-- Bundles are put beside the sources and the staged files. -/
theorem Sited.not_bundle (h : d.Sited s f src out tmp) :
    src ++ rel ≠ out ++ [f.word] ++ l ∧ tmp ++ rel ≠ out ++ [f.word] ++ l := by
  constructor
  · intro he
    have hpre : src <+: out ++ ([f.word] ++ l) := by
      rw [← List.append_assoc, ← he]
      exact List.prefix_append src rel
    exact (h.sources out (by simp)).not_above (List.prefix_append out _) hpre
  · intro he
    have hpre : tmp <+: out ++ [f.word] ++ l := he ▸ List.prefix_append tmp rel
    exact h.staging.not_above (List.prefix_append _ l) hpre

theorem noUp_join (hp : ".." ∉ Text.cut '/' p.text) {file : String} (hfile : Path.Plain file) :
    ".." ∉ Text.cut '/' (p.join file).text := by
  obtain ⟨ps, hps, hjoin⟩ := p.cut_join hfile.relative
  rw [hjoin, List.mem_append, not_or]
  refine ⟨fun hmem => hp ?_, hfile.noUp⟩
  rcases hps with hps | hps
  · rwa [hps]
  · rw [hps]
    exact List.mem_append_left _ hmem

/-- Where the paths of the bundles go down only, it is enough that the staging area has been cleaned and
that the sources are found. -/
theorem Sited.ready (h : d.Sited s f src out tmp) (hout : ".." ∉ Text.cut '/' s.outDir.text)
    (hmain : Path.Plain s.mainEntry) (hnone : d.get? tmp = none)
    (hfound : ∃ b, d.find true s.srcDir = .ok ⟨src, some .directory, b⟩) : d.Ready s f src where
  unstaged X hX := by
    have hfree : ∀ p, s.Target f p → d.heading? p ≠ some tmp ∧ ¬ d.OnWay p tmp := by
      intro p hp
      obtain ⟨rel, hrel, rfl⟩ : (s.formatDir f).Beneath p := hp.elim id fun he => he ▸ hmain.beneath _
      have hheads := h.linkFree.heading?_bundle h.outHeads f hrel
      have hnot := h.staging.not_above (List.prefix_append _ (Path.names (Text.cut '/' rel)))
      refine ⟨fun he => hnot ?_, fun hway => hnot ?_⟩
      · rw [hheads, Option.some.injEq] at he
        exact he ▸ List.prefix_rfl
      · obtain ⟨loc, hloc, habove, -⟩ := hway.above h.linkFree
          (noUp_join (noUp_join hout f.simple_word.plain) hrel)
        rw [hheads, Option.some.injEq] at hloc
        rwa [hloc]
    have hmissing := hX.get?_eq_none hnone hfree
    refine Bool.eq_false_iff.2 fun hexists => ?_
    obtain ⟨l, e, b, hf⟩ := exists?_eq_true_iff.1 hexists
    obtain rfl := Option.some.inj (h.tmpHeads.symm.trans (hX.grown.heading?_of_find hf))
    have hentry := (sound_of_find hf).entry_eq
    rw [hmissing] at hentry
    cases hentry
  source X hX _ _ := by
    obtain ⟨b, hf⟩ := hfound
    obtain ⟨e, hl, hf'⟩ := hX.grown.keeps.find hf
    obtain rfl := hl.eq_of_not_isFile rfl
    exact ⟨b, hf'⟩

end Disk

namespace Context

variable {ctx : Context} {f : Format} {src out tmp rel : Location} {s t u : BuildState} {n : Nat}

/-! ## Staging -/

/-- A script that is staged: no staging area is found, but the directory of the sources is. -/
structure Stages (ctx : Context) (d : Disk) (src rel : Location) : Prop where
  unstaged : d.exists? ctx.settings.tmpDir = false
  source : ∃ b, d.find true ctx.settings.srcDir = .ok ⟨src, some .directory, b⟩
  notEmpty : rel ≠ []
  lies : (d.content? (src ++ rel)).isSome = true
  script : ".js".toList <:+ (Disk.relativePath rel).toList

/-- From one tree to another one the sources stay as they are. Those that are staged or mirrored in the
first tree are mirrored in the second one, but for the entries. -/
structure MirrorsBut (ctx : Context) (f : Format) (src out tmp : Location) (entries : List Location)
    (X Y : Disk) : Prop where
  sited : Y.Sited ctx.settings f src out tmp
  sources : ∀ rel, Y.content? (src ++ rel) = X.content? (src ++ rel)
  mirrors : ∀ rel, rel ∉ entries → ctx.Stages X src rel ∨ X.Mirrors src tmp rel → Y.Mirrors src tmp rel

theorem mirrors_of_staging (usual : ctx.storage = .disk) (hs : s.disk.Sited ctx.settings f src out tmp)
    (h : ctx.prepareStaging.Gives s n t) : ctx.MirrorsBut f src out tmp [] s.disk t.disk := by
  cases hexists : s.disk.exists? ctx.settings.tmpDir with
  | true =>
    obtain ⟨-, rfl⟩ := (prepareStaging_of_exists usual hexists).unique h
    refine ⟨hs, fun _ => rfl, fun rel _ hrel => hrel.resolve_left fun hstages => ?_⟩
    cases hexists.symm.trans hstages.unstaged
  | false =>
    have apart : Disk.Apart src tmp := (hs.sources tmp (by simp)).symm
    have hc := copied_of_prepareStaging usual hs.linkFree hs.srcHeads hs.tmpHeads apart hexists h
    have sources : ∀ rel, t.disk.content? (src ++ rel) = s.disk.content? (src ++ rel) := fun rel =>
      hc.others _ fun _ _ => hs.not_source
    refine ⟨hs.grown hc.grown, sources, fun rel _ hrel => ?_⟩
    by_cases hscript : rel ∈ s.disk.scripts ctx.settings.srcDir
    · rw [Disk.Mirrors, hc.copies rel hscript, sources]
    · rcases hrel with hstages | hmirrors
      · obtain ⟨b, hf⟩ := hstages.source
        refine absurd ((Disk.mem_scripts_iff hf).2 ⟨hstages.notEmpty, hstages.lies, ?_⟩) hscript
        exact (Disk.isScript_iff hstages.notEmpty).2 hstages.script
      · rw [Disk.Mirrors, sources, ← hmirrors]
        exact hc.others _ fun r hr he => hscript (List.append_cancel_left he ▸ hr)

/-! ## Aggregates -/

theorem mirrors_of_aggregate (usual : ctx.storage = .disk) (quiet : ctx.bundler.Quiet)
    (hs : s.disk.Sited ctx.settings f src out tmp) {entry : String} (hentry : Path.Simple entry)
    {files : List String} {excludeBase : Bool} {p : Path}
    (h : (ctx.aggregate (aggregateTarget ctx.settings f entry) files f excludeBase).Gives s p t) :
    ctx.MirrorsBut f src out tmp [[entry]] s.disk t.disk := by
  obtain ⟨-, ⟨n, v, X, place, goal, header, reply, hstaging, hplaced, -, hwritten⟩, -⟩ :=
    aggregated_of_gives usual (fileName?_aggregateTarget hentry) h
  rw [quiet] at hwritten
  obtain ⟨hv, hsources, hmirrors⟩ := mirrors_of_staging usual hs hstaging
  have hX := hv.wrote hplaced
  have hplace := hplaced.heading? (.refl _ fun _ => False)
  have hgoal := hwritten.heading? (.refl _ fun _ => False)
  rw [hv.linkFree.heading?_staged hv.tmpHeads hentry.plain, hentry.cut, Path.names_cons hentry.notIdle,
    Path.names_nil, Option.some.injEq] at hplace
  rw [aggregateTarget_eq hentry, hX.linkFree.heading?_bundle hX.outHeads f (plain_min hentry),
    Option.some.injEq] at hgoal
  subst hplace hgoal
  refine ⟨hX.wrote hwritten, fun rel => ?_, fun rel hne hrel => ?_⟩
  · rw [hwritten.content?, if_neg hX.not_bundle.1, hplaced.content?, if_neg hX.not_source, hsources]
  · refine hwritten.mirrors hX.not_bundle.1 hX.not_bundle.2 ?_
    have hother : tmp ++ rel ≠ tmp ++ [entry] := fun he =>
      hne (List.mem_singleton.2 (List.append_cancel_left he))
    exact hplaced.mirrors hX.not_source hother (hmirrors rel List.not_mem_nil hrel)

theorem mirrors_of_stage (usual : ctx.storage = .disk) (quiet : ctx.bundler.Quiet)
    (hs : s.disk.Sited ctx.settings f src out tmp) {entry : String} (hentry : Path.Simple entry)
    {settings : Settings} {total : Nat} {excludeBase : Bool} {report : Report}
    (h : (runStage settings n total
      (Stage.aggregate ctx (aggregateTarget ctx.settings f entry) none f excludeBase)).Gives s report t) :
    ctx.MirrorsBut f src out tmp [[entry]] s.disk t.disk := by
  simp only [runStage, gives_bind_iff, gives_tell_iff, gives_during_iff, gives_pure_iff] at h
  obtain ⟨⟨⟩, _, rfl, outputs, v, hrun, ⟨⟩, _, rfl, -, rfl⟩ := h
  obtain ⟨files, u, hfiles, hrun⟩ := gives_bind_iff.1 hrun
  obtain ⟨p, w, hp, hrun⟩ := gives_bind_iff.1 hrun
  obtain ⟨-, rfl⟩ := gives_pure_iff.1 hrun
  obtain ⟨-, hu⟩ := expand_gives usual hfiles
  have hdisk : u.disk = s.disk := by rw [hu]
  rw [← hdisk] at hs ⊢
  exact mirrors_of_aggregate (t := w) usual quiet hs hentry hp

/-! ## The build -/

theorem guards_received (usual : ctx.storage = .disk) (quiet : ctx.bundler.Quiet) (d : Disk)
    (targets : Path → Prop) :
    ctx.Guards (fun s => d.Received targets s.disk) targets (fun _ => False) where
  usual := usual
  steady {_ t} hs hdisk _ := by
    change Disk.Received targets d t.disk
    rwa [hdisk]
  bundler r s hs := by rwa [quiet r s.disk]
  touched hs _ hp ht := hs.more hp ht
  cleared _ hp := hp.elim

theorem received_of_runFrom (usual : ctx.storage = .disk) (quiet : ctx.bundler.Quiet)
    {targets : Path → Prop} {p : Pipeline} {settings : Settings} {total : Nat} {reports : List Report}
    (hsafe : p.Safe fun t => Disk.Received targets s.disk t.disk)
    (h : (runFrom settings total n p).Gives s reports t) : Disk.Received targets s.disk t.disk := by
  have g := (guards_received usual quiet s.disk targets).carries
  have hall : p.Throughout fun _ b P => b.Safe (fun t => Disk.Received targets s.disk t.disk) P := hsafe
  have hrun := (hall.runFrom g.composes g.tell settings total n s .refl).1
  rwa [h] at hrun

theorem isFile_of_single (usual : ctx.storage = .disk) {j : Job} {settings : Settings} {total : Nat}
    {report : Report} (h : (runStage settings n total (Stage.single ctx j)).Gives s report t) :
    t.disk.isFile j.target = true := by
  simp only [runStage, gives_bind_iff, gives_tell_iff, gives_during_iff, gives_pure_iff] at h
  obtain ⟨⟨⟩, _, rfl, outputs, v, hrun, ⟨⟩, _, rfl, -, rfl⟩ := h
  obtain ⟨p, w, hp, hrun⟩ := gives_bind_iff.1 hrun
  obtain ⟨-, rfl⟩ := gives_pure_iff.1 hrun
  obtain ⟨call, u, hopen, hclose⟩ := gives_bind_iff.1 hp
  obtain ⟨-, -, hjob, -, -⟩ := openCall_gives hopen
  obtain ⟨-, reply, x, -, hwrite⟩ := closeCall_gives hclose
  obtain ⟨⟨loc, hw⟩, -⟩ := write_gives usual hwrite
  rw [← hjob]
  exact hw.isFile

/-- Before the aggregates are made, only bundles are added, and the main one is there. -/
theorem received_of_sources (usual : ctx.storage = .disk) (quiet : ctx.bundler.Quiet)
    {settings : Settings} {total : Nat} {reports : List Report}
    (h : (runFrom settings total n (sourceStages ctx f)).Gives s reports t) :
    Disk.Received (ctx.settings.Target f) s.disk t.disk ∧
      t.disk.isFile ((ctx.settings.formatDir f).join ctx.settings.mainEntry) = true := by
  have hsafe : ∀ d : Disk,
      (sourceStages ctx f).Safe fun s => Disk.Received (ctx.settings.Target f) d s.disk := fun d =>
    safe_sourceStages (guards_received usual quiet d _) (.inr rfl) fun hrel => .inl (hrel.beneath _)
  refine ⟨received_of_runFrom usual quiet (hsafe s.disk) h, ?_⟩
  obtain ⟨report, rest, u, -, hmain, hrest⟩ := runFrom_cons h
  have hothers := (List.forall_mem_cons.1 (hsafe u.disk)).2
  have hkeeps := (received_of_runFrom usual quiet hothers hrest).grown.keeps
  have hfile := isFile_of_single usual hmain
  exact hkeeps.isFile hfile

/-- After a build each script that lies among the sources lies in the staging area as well, with the same
content, but for the entries of the aggregates. -/
theorem build_mirrors_sources (usual : ctx.storage = .disk) (quiet : ctx.bundler.Quiet)
    (sited : s.disk.Sited ctx.settings f src out tmp)
    (ready : (s.disk.cleanedFor ctx.settings f).Ready ctx.settings f src) {reports : List Report}
    (hrun : (ctx.build f).Gives s reports t) {dirs : Location} {name : String} {content : ByteArray}
    (hname : ".js".toList <:+ name.toList)
    (hentry : dirs ++ [name] ∉ [["locales.js"], ["moment-with-locales.js"]])
    (hfile : t.disk.content? (src ++ (dirs ++ [name])) = some content) :
    t.disk.content? (tmp ++ (dirs ++ [name])) = some content := by
  obtain ⟨u, v, rest, total, title, rfl, hstages, hu, -, -, htv, -, -⟩ := runPipeline_clean_inv usual hrun
  have hclean : u.disk = s.disk.cleanedFor ctx.settings f := hu
  rw [← hclean] at ready
  have sitedClean := sited.of_keeps (s.disk.cleanedFor_keeps ctx.settings f)
  rw [← hclean] at sitedClean
  obtain ⟨first, last, w, m, -, hsources, hlast⟩ := runFrom_append hstages
  obtain ⟨r₁, rs, x, -, hr₁, hlast⟩ := runFrom_cons hlast
  obtain ⟨r₂, rs, y, -, hr₂, hlast⟩ := runFrom_cons hlast
  obtain ⟨-, rfl⟩ := gives_pure_iff.1 hlast
  obtain ⟨received, hmain⟩ := received_of_sources usual quiet hsources
  have h₁ := mirrors_of_stage usual quiet (sitedClean.grown received.grown) simple_locales hr₁
  have h₂ := mirrors_of_stage usual quiet h₁.sited simple_withLocales hr₂
  rw [htv] at hfile ⊢
  have hlies : w.disk.content? (src ++ (dirs ++ [name])) = some content := by
    rw [← h₁.sources, ← h₂.sources, hfile]
  have hdirectory : w.disk.get? src = some .directory := by
    obtain ⟨executable, hg⟩ := Disk.get?_of_content? hlies
    exact Disk.get?_of_isBelow (Disk.isBelow_iff.2 ⟨List.prefix_append src _, by simp⟩) hg
  have hstages : ctx.Stages w.disk src (dirs ++ [name]) := {
    unstaged := ready.unstaged _ received
    source := ready.source _ received hmain hdirectory
    notEmpty := by simp
    lies := by rw [hlies]; rfl
    script := hname.trans (Disk.suffix_relativePath dirs name) }
  simp only [List.mem_cons, List.not_mem_nil, or_false, not_or] at hentry
  have hmirrors := h₂.mirrors _ (by simpa using hentry.2)
    (.inr (h₁.mirrors _ (by simpa using hentry.1) (.inl hstages)))
  exact hmirrors.trans hfile

end Context

/-! ## A small project -/

/-- The small project with short names. -/
def Settings.short : Settings :=
  { small with srcDir := ⟨"/s"⟩, outDir := ⟨"/o"⟩, tmpDir := ⟨"/o/t"⟩ }

/-- The main entry, and an old copy of it in the staging area. -/
def Disk.short : Disk :=
  ((((empty.set ["s"] .directory).set ["s", "m.js"] (.file (Text.encode "m") false)).set ["o"]
    .directory).set ["o", "t"] .directory).set ["o", "t", "m.js"] (.file (Text.encode "o") false)

theorem Disk.sited_short : Disk.short.Sited .short .esm ["s"] ["o"] ["o", "t"] where
  linkFree := linkFree_of_entries (by decide +kernel)
  srcHeads := by decide +kernel
  outHeads := by decide +kernel
  tmpHeads := by decide +kernel
  sources := by decide
  staging := by decide

theorem Disk.ready_short : (Disk.short.cleanedFor .short .esm).Ready .short .esm ["s"] := by
  have sited := sited_short.of_keeps (short.cleanedFor_keeps .short .esm)
  have hup : ".." ∉ Text.cut '/' Settings.short.outDir.text := by decide
  have hnone : (Disk.short.cleanedFor .short .esm).get? ["o", "t"] = none := by decide +kernel
  have hfound : ((Disk.short.cleanedFor .short .esm).find true Settings.short.srcDir).toOption.map
      (fun s => (s.location, s.entry, s.slashed)) = some (["s"], some .directory, false) := by
    decide +kernel
  exact sited.ready hup Settings.plain_small hnone ⟨false, find_of_toOption hfound⟩

namespace Context

set_option maxRecDepth 20000 in
theorem buildFrom_short : ((small .short "b").buildFrom .esm .short).1.toOption.isSome = true ∧
    ((small .short "b").buildFrom .esm .short).2.disk.content? ["s", "m.js"] = some (Text.encode "m") := by
  decide +kernel

theorem build_mirrors_sources_small : ∃ reports t,
    ((small .short "b").build .esm).Gives (.fresh .short) reports t ∧
      t.disk.content? ["o", "t", "m.js"] = some (Text.encode "m") := by
  obtain ⟨hdone, hfile⟩ := buildFrom_short
  obtain ⟨reports, hreports⟩ := Option.isSome_iff_exists.1 hdone
  have hrun := gives_of_run hreports
  have hname : ".js".toList <:+ "m.js".toList := by decide
  have hentry : ([] : Location) ++ ["m.js"] ∉ [["locales.js"], ["moment-with-locales.js"]] := by decide
  exact ⟨reports, _, hrun, @build_mirrors_sources (small .short "b") .esm ["s"] ["o"] ["o", "t"]
    (.fresh .short) _ rfl (fun _ _ => rfl) Disk.sited_short Disk.ready_short reports hrun [] "m.js" _
    hname hentry hfile⟩

end Context

/-! ## Where sources are not mirrored -/

/-- A script with the name of an aggregate. -/
def Disk.hidden : Disk :=
  (empty.set ["s"] .directory).set ["s", "locales.js"] (.file (Text.encode "m") false)

/-- The main entry, beside a directory that the build cleans. -/
def Disk.beside : Disk :=
  ((empty.set ["s"] .directory).set ["s", "m.js"] (.file (Text.encode "m") false)).set ["t"] .directory

namespace Context

/-- A build succeeds from a tree in which the sources, the bundles and the staging area have places apart
from each other, and a script among the sources is not mirrored. -/
structure Unmirrored (ctx : Context) (f : Format) (d : Disk) (src out tmp : Location) (file text : String) :
    Prop extends d.Sited ctx.settings f src out tmp where
  usual : ctx.storage = .disk
  quiet : ctx.bundler.Quiet
  main : Path.Plain ctx.settings.mainEntry
  script : ".js".toList <:+ file.toList
  differs : (ctx.buildFrom f d).1.toOption.isSome = true ∧
    ((ctx.buildFrom f d).2.disk.readText (ctx.settings.srcDir.join file)).toOption = some text ∧
    ((ctx.buildFrom f d).2.disk.readText (ctx.settings.tmpDir.join file)).toOption ≠ some text

/-- The path to the bundles leads through the staging area. -/
def across : Context :=
  small { Settings.short with outDir := ⟨"/t/../o"⟩, tmpDir := ⟨"/t"⟩ } "b"

/-- The path to the sources leads through the staging area. -/
def roundabout : Context :=
  small { Settings.short with srcDir := ⟨"/t/../s"⟩, tmpDir := ⟨"/t"⟩ } "b"

set_option maxRecDepth 20000 in
theorem short_unmirrored :
    (small .short "b").Unmirrored .esm .hidden ["s"] ["o"] ["o", "t"] "locales.js" "m" where
  linkFree := Disk.linkFree_of_entries (by decide +kernel)
  srcHeads := by decide +kernel
  outHeads := by decide +kernel
  tmpHeads := by decide +kernel
  sources := by decide
  staging := by decide
  usual := rfl
  quiet _ _ := rfl
  main := Settings.plain_small
  script := by decide
  differs := by decide +kernel

set_option maxRecDepth 20000 in
theorem across_unmirrored : across.Unmirrored .esm .beside ["s"] ["o"] ["t"] "m.js" "m" where
  linkFree := Disk.linkFree_of_entries (by decide +kernel)
  srcHeads := by decide +kernel
  outHeads := by decide +kernel
  tmpHeads := by decide +kernel
  sources := by decide
  staging := by decide
  usual := rfl
  quiet _ _ := rfl
  main := Settings.plain_small
  script := by decide
  differs := by decide +kernel

set_option maxRecDepth 20000 in
theorem roundabout_unmirrored : roundabout.Unmirrored .esm .beside ["s"] ["o"] ["t"] "m.js" "m" where
  linkFree := Disk.linkFree_of_entries (by decide +kernel)
  srcHeads := by decide +kernel
  outHeads := by decide +kernel
  tmpHeads := by decide +kernel
  sources := by decide
  staging := by decide
  usual := rfl
  quiet _ _ := rfl
  main := Settings.plain_small
  script := by decide
  differs := by decide +kernel

/-- A script is not mirrored if an aggregate has its name, if the bundles make the staging area before it
is looked for, or if the sources are not found once it has been cleaned. -/
theorem build_leaves_unmirrored :
    (small .short "b").Unmirrored .esm .hidden ["s"] ["o"] ["o", "t"] "locales.js" "m" ∧
    across.Unmirrored .esm .beside ["s"] ["o"] ["t"] "m.js" "m" ∧
    roundabout.Unmirrored .esm .beside ["s"] ["o"] ["t"] "m.js" "m" :=
  ⟨short_unmirrored, across_unmirrored, roundabout_unmirrored⟩

end Context

end LocaleForge
