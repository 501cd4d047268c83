import LocaleForge.Proofs.LinkFree
import LocaleForge.Proofs.Sections

/-!
A release as a course: what is resolved before it, the formats, and what is made besides them. The
joined tests and the aggregates of chosen locales go to places of their own.
-/

namespace LocaleForge

open Build

/-- The files of a release that no build of a format makes. -/
def Pipeline.releaseOnly : List String :=
  ["tests.js", "locales.custom.js", "moment-with-locales.custom.js"]

/-- The aggregates of chosen locales. -/
def Pipeline.customOnly : List String :=
  ["locales.custom.js", "moment-with-locales.custom.js"]

theorem Pipeline.mem_releaseOnly_of_customOnly {file : String} (h : file ∈ customOnly) :
    file ∈ releaseOnly :=
  List.mem_cons_of_mem _ h

theorem Pipeline.simple_of_mem_releaseOnly {file : String} (h : file ∈ releaseOnly) :
    Path.Simple file := by
  simp only [releaseOnly, List.mem_cons, List.not_mem_nil, or_false] at h
  rcases h with rfl | rfl | rfl
  · exact simple_tests
  · exact simple_customLocales
  · exact simple_withCustomLocales

section

variable {ctx : Context} {targets others : Path → Prop} {s t : BuildState} {a : List Answered}
  {reports : List Report}

/-- Resolving names reads only. -/
theorem Context.resolveLocales_inv (usual : ctx.storage = .disk) {names files : List String}
    (h : (ctx.resolveLocales names).Gives s files t) :
    t.disk = s.disk ∧ t.shelf = s.shelf ∧
      t.log.filterMap Event.reply? = s.log.filterMap Event.reply? := by
  rw [resolveLocales] at h
  induction names generalizing s files with
  | nil =>
    obtain ⟨-, rfl⟩ := gives_mapM_nil_iff.1 h
    exact ⟨rfl, rfl, rfl⟩
  | cons name names ih =>
    obtain ⟨file, u, rest, hfirst, hrest, -⟩ := gives_mapM_cons_iff.1 h
    obtain ⟨found, v, hfound, hfirst⟩ := gives_bind_iff.1 hfirst
    obtain ⟨-, rfl⟩ := expand_gives usual hfound
    obtain ⟨hd, hs, hl⟩ := ih hrest
    split at hfirst
    case h_1 =>
      obtain ⟨-, rfl⟩ := gives_pure_iff.1 hfirst
      refine ⟨hd, hs, hl.trans (reply?_note _ rfl)⟩
    all_goals exact absurd hfirst not_gives_throw

theorem moves_of_reads {dir : Path} {files texts : List String}
    (h : (files.mapM fun file => ctx.read (dir.join file)).Gives s texts t) :
    Moves ctx targets others ⟨[], a, s⟩ ⟨[], a, t⟩ := by
  induction files generalizing s texts with
  | nil =>
    obtain ⟨-, rfl⟩ := gives_mapM_nil_iff.1 h
    exact .refl
  | cons file files ih =>
    obtain ⟨text, u, rest, hfile, hrest, -⟩ := gives_mapM_cons_iff.1 h
    obtain ⟨-, rfl⟩ := Context.read_gives hfile
    exact .head (.notes _ rfl) (ih hrest)

theorem moves_of_concatTests (usual : ctx.storage = .disk)
    (ho : others ((ctx.settings.formatDir .umd).join "min/tests.js")) {ends : List Path}
    (h : (Stage.concatTests ctx).run.Gives s ends t) :
    Moves ctx targets others ⟨[], a, s⟩ ⟨[], a, t⟩ := by
  obtain ⟨found, u, hfound, h⟩ := gives_bind_iff.1 h
  have hlast : Moves ctx targets others ⟨[], a, u⟩ ⟨[], a, t⟩ := by
    cases found with
    | some p =>
      obtain ⟨-, rfl⟩ := gives_pure_iff.1 h
      exact .refl
    | none =>
      obtain ⟨⟨⟩, v, htell, h⟩ := gives_bind_iff.1 h
      obtain ⟨-, rfl⟩ := gives_pure_iff.1 h
      obtain rfl := gives_tell_iff.1 htell
      exact .single (.tells _)
  refine Relation.ReflTransGen.trans ?_ hlast
  obtain ⟨files, v, hfiles, hfound⟩ := gives_bind_iff.1 hfound
  obtain ⟨-, hm⟩ := moves_of_expand usual hfiles
  refine hm.trans ?_
  split at hfound
  · obtain ⟨-, rfl⟩ := gives_pure_iff.1 hfound
    exact .refl
  · obtain ⟨texts, w, hreads, hfound⟩ := gives_bind_iff.1 hfound
    obtain ⟨⟨⟩, x, hwrite, hfound⟩ := gives_bind_iff.1 hfound
    obtain ⟨-, rfl⟩ := gives_pure_iff.1 hfound
    exact (moves_of_reads hreads).tail (.writes ho hwrite)

theorem moves_of_verify (quiet : ctx.probe.Quiet) {bundle : Path} {requested : List String}
    {ends : List Path} (h : (Stage.verify ctx bundle requested).run.Gives s ends t) :
    Moves ctx targets others ⟨[], a, s⟩ ⟨[], a, t⟩ := by
  obtain ⟨n, u, hverify, h⟩ := gives_bind_iff.1 h
  obtain ⟨⟨⟩, v, htell, h⟩ := gives_bind_iff.1 h
  obtain ⟨-, rfl⟩ := gives_pure_iff.1 h
  obtain rfl := gives_tell_iff.1 htell
  obtain ⟨names, w, hnames, hverify⟩ := gives_bind_iff.1 hverify
  simp only [Context.registered, gives_bind_iff, gives_note_iff, gives_alter_iff] at hnames
  obtain ⟨⟨⟩, _, rfl, -, rfl⟩ := hnames
  refine .head (.notes (.probe bundle) rfl) (.single ?_)
  simp only at hverify
  split at hverify
  · obtain ⟨-, rfl⟩ := gives_pure_iff.1 hverify
    rw [quiet bundle s.disk]
    exact .tells _
  · exact absurd hverify not_gives_throw

/-- The stage of an aggregate of given locales. -/
theorem moves_of_customStage (usual : ctx.storage = .disk)
    (ho : ∀ {rel}, Path.Plain rel → others (ctx.settings.tmpDir.join rel)) {target : Path}
    {files : List String} {ends : List Path} {entry : String} {f : Format} {excludeBase : Bool}
    (hentry : target.fileName? = some entry) (ht : targets target)
    (h : (Stage.aggregate ctx target (some files) f excludeBase).run.Gives s ends t) :
    ∃ answer, answer.job.target = target ∧
      Moves ctx targets others ⟨[], a, s⟩ ⟨[], a ++ [answer], t⟩ := by
  obtain ⟨files', u, hfiles, h⟩ := gives_bind_iff.1 h
  obtain ⟨rfl, rfl⟩ := gives_pure_iff.1 hfiles
  obtain ⟨target', v, hend, h⟩ := gives_bind_iff.1 h
  obtain ⟨rfl, rfl⟩ := gives_pure_iff.1 h
  obtain ⟨-, answer, hjob, -, hm⟩ := moves_of_aggregate usual ho hentry ht hend
  exact ⟨answer, by rw [hjob]; rfl, hm⟩

namespace Pipeline

theorem moves_of_custom (usual : ctx.storage = .disk) (quiet : ctx.probe.Quiet)
    (ht : ∀ f {rel}, Path.Plain rel → targets ((ctx.settings.formatDir f).join rel))
    (ho : ∀ {rel}, Path.Plain rel → others (ctx.settings.tmpDir.join rel)) {names files : List String}
    {settings : Settings} {n total : Nat}
    (h : (runFrom settings total n (custom ctx names files)).Gives s reports t) :
    ∃ customs, Moves ctx targets others ⟨[], a, s⟩ ⟨[], a ++ customs, t⟩ ∧
      ∀ x ∈ customs, ∃ file ∈ customOnly, x.job.target = aggregateTarget ctx.settings .umd file := by
  obtain ⟨r₁, rs, s₁, rfl, hr₁, h⟩ := runFrom_cons h
  obtain ⟨r₂, rs, s₂, rfl, hr₂, h⟩ := runFrom_cons h
  obtain ⟨r₃, rs, s₃, rfl, hr₃, h⟩ := runFrom_cons h
  obtain ⟨rfl, rfl⟩ := gives_pure_iff.1 h
  obtain ⟨u₁, v₁, hrun₁, -, hm₁, hm₁'⟩ := runStage_inv targets others a hr₁
  obtain ⟨x, hx, hmx⟩ := moves_of_customStage (a := a) usual ho
    (fileName?_aggregateTarget simple_customLocales) (aggregateTarget_mem (ht _) simple_customLocales)
    hrun₁
  obtain ⟨u₂, v₂, hrun₂, -, hm₂, hm₂'⟩ := runStage_inv targets others (a ++ [x]) hr₂
  obtain ⟨y, hy, hmy⟩ := moves_of_customStage (a := a ++ [x]) usual ho
    (fileName?_aggregateTarget simple_withCustomLocales)
    (aggregateTarget_mem (ht _) simple_withCustomLocales) hrun₂
  obtain ⟨u₃, v₃, hrun₃, -, hm₃, hm₃'⟩ := runStage_inv targets others (a ++ [x] ++ [y]) hr₃
  refine ⟨[x, y], ?_, fun z hz => ?_⟩
  · have hfirst := (hm₁.trans hmx).trans (hm₁' _)
    have hsecond := (hm₂.trans hmy).trans (hm₂' _)
    have hthird := (hm₃.trans (moves_of_verify quiet hrun₃)).trans (hm₃' _)
    have hall := (hfirst.trans hsecond).trans hthird
    rwa [List.append_assoc] at hall
  · simp only [List.mem_cons, List.not_mem_nil, or_false] at hz
    rcases hz with rfl | rfl
    · exact ⟨_, by simp [customOnly], hx⟩
    · exact ⟨_, by simp [customOnly], hy⟩

/-- What follows the formats in a release. -/
theorem moves_of_extras (usual : ctx.storage = .disk) (quiet : ctx.probe.Quiet)
    (ht : ∀ f {rel}, Path.Plain rel → targets ((ctx.settings.formatDir f).join rel))
    (ho : ∀ {rel}, Path.Plain rel → others (ctx.settings.tmpDir.join rel))
    (htests : others ((ctx.settings.formatDir .umd).join "min/tests.js")) {plan : ReleasePlan}
    {files : List String} {settings : Settings} {n total : Nat}
    (h : (runFrom settings total n ((if plan.concatTests then [Stage.concatTests ctx] else []) ++
      (if plan.locales.isEmpty then [] else custom ctx plan.locales files))).Gives s reports t) :
    ∃ customs, Moves ctx targets others ⟨[], a, s⟩ ⟨[], a ++ customs, t⟩ ∧
      ∀ x ∈ customs, ∃ file ∈ releaseOnly, x.job.target = aggregateTarget ctx.settings .umd file := by
  obtain ⟨first, second, u, m, -, hconcat, hcustom⟩ := runFrom_append h
  have joined : Moves ctx targets others ⟨[], a, s⟩ ⟨[], a, u⟩ := by
    split at hconcat
    case isTrue =>
      obtain ⟨report, rest, w, -, hreport, hrest⟩ := runFrom_cons hconcat
      obtain ⟨-, rfl⟩ := gives_pure_iff.1 hrest
      obtain ⟨v, v', hstage, -, hm, hm'⟩ := runStage_inv targets others a hreport
      exact (hm.trans (moves_of_concatTests usual htests hstage)).trans (hm' _)
    case isFalse =>
      obtain ⟨-, rfl⟩ := gives_pure_iff.1 hconcat
      exact .refl
  split at hcustom
  case isTrue =>
    obtain ⟨-, rfl⟩ := gives_pure_iff.1 hcustom
    exact ⟨[], by rwa [List.append_nil], fun x hx => absurd hx List.not_mem_nil⟩
  case isFalse =>
    obtain ⟨customs, hm, hcustoms⟩ := moves_of_custom usual quiet ht ho hcustom
    refine ⟨customs, joined.trans hm, fun x hx => ?_⟩
    obtain ⟨file, hfile, htarget⟩ := hcustoms x hx
    exact ⟨file, mem_releaseOnly_of_customOnly hfile, htarget⟩

end Pipeline

end

end LocaleForge
