import LocaleForge.Build.Commands
import LocaleForge.Proofs.FormatRun

/-!
Judgements on computations that go along with the ways to put computations together. Such a judgement
holds of every command as soon as it holds of the calls that commands are made of.
-/

namespace LocaleForge

namespace Build

variable {α β : Type} {P : α → Prop} {Q : β → Prop}

/-- A judgement on computations and what they give goes along with the ways to put computations
together. -/
structure Composes (Φ : ∀ α : Type, Build α → (α → Prop) → Prop) : Prop where
  pure : ∀ {α : Type} {P : α → Prop} {a : α}, P a → Φ α (Pure.pure a) P
  throw : ∀ {α : Type} {P : α → Prop} (e : Stop), Φ α (MonadExcept.throw e) P
  bind : ∀ {α β : Type} {P : α → Prop} {Q : β → Prop} {b : Build α} {f : α → Build β},
    Φ α b P → (∀ a, P a → Φ β (f a) Q) → Φ β (b >>= f) Q
  tryCatch : ∀ {α : Type} {P : α → Prop} {b : Build α} {h : Stop → Build α},
    Φ α b P → (∀ e, Φ α (h e) P) → Φ α (MonadExcept.tryCatch b h) P

namespace Composes

variable {Φ : ∀ α : Type, Build α → (α → Prop) → Prop} (c : Composes Φ)

include c

theorem imp {P' : α → Prop} {b : Build α} (h : Φ α b P) (hp : ∀ a, P a → P' a) : Φ α b P' := by
  rw [← bind_pure b]
  exact c.bind h fun a ha => c.pure (hp a ha)

theorem map {b : Build α} (h : Φ α b P) (f : α → β) (hf : ∀ a, P a → Q (f a)) : Φ β (f <$> b) Q := by
  rw [map_eq_pure_bind]
  exact c.bind h fun a ha => c.pure (hf a ha)

theorem mapM {f : α → Build β} {xs : List α} (hf : ∀ x ∈ xs, Φ β (f x) Q) :
    Φ _ (xs.mapM f) fun ys => ∀ y ∈ ys, Q y := by
  induction xs with
  | nil =>
    rw [List.mapM_nil]
    exact c.pure fun y hy => absurd hy List.not_mem_nil
  | cons x xs ih =>
    rw [List.mapM_cons]
    refine c.bind (hf x List.mem_cons_self) fun y hy => ?_
    refine c.bind (ih fun x' hx' => hf x' (List.mem_cons_of_mem _ hx')) fun ys hys => ?_
    exact c.pure (List.forall_mem_cons.2 ⟨hy, hys⟩)

theorem forM {f : α → Build PUnit} {xs : List α} (hf : ∀ x ∈ xs, Φ _ (f x) fun _ => True) :
    Φ _ (xs.forM f) fun _ => True := by
  induction xs with
  | nil => exact c.pure trivial
  | cons x xs ih =>
    refine c.bind (hf x List.mem_cons_self) fun _ _ => ?_
    exact ih fun x' hx' => hf x' (List.mem_cons_of_mem _ hx')

theorem during (x : Activity) {b : Build α} (h : Φ α b P) : Φ α (Build.during x b) P :=
  c.tryCatch h fun
    | .failed _ => c.throw _
    | .panicked => c.throw _

theorem mapM_settle {f : Except Stop α → Build α} (hok : ∀ a, f (.ok a) = Pure.pure a)
    (herror : ∀ e, f (.error e) = MonadExcept.throw e) (rs : List (Except Stop α)) :
    Φ _ (rs.mapM f) fun _ => True := by
  refine c.imp (c.mapM (Q := fun _ => True) fun r _ => ?_) fun _ _ => trivial
  cases r with
  | ok a =>
    rw [hok]
    exact c.pure trivial
  | error e =>
    rw [herror]
    exact c.throw e

end Composes

end Build

open Build

/-- The calls of a job are allowed: to read its header file if it has one, to ask for its bundle, and to
write its target. -/
structure Job.Allowed (s : Settings) (allowed : Event → Prop) (j : Job) : Prop where
  header : j.headerPath s = noHeader ∨ allowed (.read (j.headerPath s))
  request : allowed (.request (.ofJob s j))
  target : allowed (.write j.target)

/-- What is left to do for an open call is allowed. -/
structure OpenCall.Allowed (allowed : Event → Prop) (c : OpenCall) : Prop where
  request : allowed (.request c.request)
  target : allowed (.write c.job.target)

def Started.Allowed (allowed : Event → Prop) : Started → Prop
  | opened c => c.Allowed allowed
  | _ => True

namespace Context

variable {ctx : Context} {Φ : ∀ α : Type, Build α → (α → Prop) → Prop} {allowed : Event → Prop}

/-! ## Jobs -/

/-- A judgement holds of both parts of a job whose calls are allowed. -/
structure CarriesParts (ctx : Context) (Φ : ∀ α : Type, Build α → (α → Prop) → Prop)
    (allowed : Event → Prop) : Prop where
  composes : Composes Φ
  openCall : ∀ {j : Job}, j.Allowed ctx.settings allowed → Φ _ (ctx.openCall j) (·.Allowed allowed)
  closeCall : ∀ {c : OpenCall}, c.Allowed allowed → Φ _ (ctx.closeCall c) fun _ => True

namespace CarriesParts

variable (h : ctx.CarriesParts Φ allowed)

include h

theorem transpile {j : Job} (hj : j.Allowed ctx.settings allowed) :
    Φ _ (ctx.transpile j) fun _ => True :=
  h.composes.bind (h.openCall hj) fun _ hc => h.closeCall hc

theorem tryStart {j : Job} (hj : j.Allowed ctx.settings allowed) :
    Φ _ (ctx.tryStart j) (·.Allowed allowed) := by
  refine h.composes.tryCatch (h.composes.bind (h.openCall hj) fun c hc => ?_) fun _ =>
    h.composes.pure trivial
  split
  · exact h.composes.bind (h.closeCall hc) fun _ _ => h.composes.pure trivial
  · exact h.composes.pure hc

theorem startWave (holds : Bool) (slots : Nat) (waiting : Bool) {jobs : List Job}
    (hjobs : ∀ j ∈ jobs, j.Allowed ctx.settings allowed) :
    Φ _ (ctx.startWave holds slots waiting jobs) fun r =>
      (∀ x ∈ r.1, x.Allowed allowed) ∧ ∀ j ∈ r.2, j.Allowed ctx.settings allowed := by
  induction jobs generalizing slots waiting with
  | nil =>
    rw [startWave_nil]
    exact h.composes.pure ⟨fun x hx => absurd hx List.not_mem_nil, hjobs⟩
  | cons j js ih =>
    obtain ⟨hj, hjs⟩ := List.forall_mem_cons.1 hjobs
    cases slots with
    | zero =>
      rw [startWave_zero]
      exact h.composes.pure ⟨fun x hx => absurd hx List.not_mem_nil, hjobs⟩
    | succ n =>
      rw [startWave_cons]
      refine h.composes.bind (h.tryStart hj) fun x hx => ?_
      cases onward holds n waiting x with
      | error stop => exact h.composes.throw stop
      | ok next =>
        refine h.composes.bind (ih next.1 next.2 hjs) fun r hr => ?_
        exact h.composes.pure ⟨List.forall_mem_cons.2 ⟨hx, hr.1⟩, hr.2⟩

theorem endStarted {x : Started} (hx : x.Allowed allowed) :
    Φ _ (ctx.endStarted x) fun _ => True := by
  cases x with
  | opened c => exact h.closeCall hx
  | ended target => exact h.composes.pure trivial
  | held stop => exact h.composes.throw stop

theorem endWave (backwards : Bool) {started : List Started} (hs : ∀ x ∈ started, x.Allowed allowed) :
    Φ _ (ctx.endWave backwards started) fun _ => True := by
  have c := h.composes
  rw [Context.endWave]
  split
  · have hends : Φ _ (started.reverse.mapM ctx.tryEnd) fun ends => ∀ r ∈ ends, True :=
      c.mapM fun x hx => c.tryCatch
        (c.map (h.endStarted (hs x (List.mem_reverse.1 hx))) _ fun _ _ => trivial) fun _ => c.pure trivial
    refine c.bind hends fun ends _ => c.mapM_settle ?_ ?_ ends.reverse
    · exact fun _ => rfl
    · exact fun _ => rfl
  · exact c.imp (c.mapM fun x hx => h.endStarted (hs x hx)) fun _ _ => trivial

theorem waves (large : Bool) (slots n : Nat) {jobs : List Job}
    (hjobs : ∀ j ∈ jobs, j.Allowed ctx.settings allowed) :
    Φ _ (ctx.waves large slots n jobs) fun _ => True := by
  have c := h.composes
  induction n generalizing jobs with
  | zero => exact c.pure trivial
  | succ n ih =>
    cases jobs with
    | nil => exact c.pure trivial
    | cons j js =>
      rw [Context.waves]
      refine c.bind (h.startWave large slots false hjobs) fun r hr => ?_
      refine c.bind (h.endWave _ hr.1) fun _ _ => c.bind (ih hr.2) fun _ _ => ?_
      exact c.pure trivial

theorem runJobs {jobs : List Job} (hjobs : ∀ j ∈ jobs, j.Allowed ctx.settings allowed) :
    Φ _ (ctx.runJobs jobs) fun _ => True := by
  have c := h.composes
  rw [Context.runJobs]
  split
  · have hbatches : ∀ batch ∈ chunks (max ctx.settings.batchSize 1) jobs,
        Φ _ (ctx.runGroup batch.length batch) fun _ => True := by
      intro batch hbatch
      refine h.waves _ _ _ fun j hj => hjobs j ?_
      rw [← flatten_chunks (max ctx.settings.batchSize 1) jobs]
      exact List.mem_flatten_of_mem hbatch hj
    exact c.bind (c.mapM hbatches) fun _ _ => c.pure trivial
  · rw [runPooled]
    split
    · exact c.throw _
    · exact h.waves _ _ _ hjobs

end CarriesParts

/-! ## Commands -/

/-- A judgement holds of each call that is allowed, and of jobs whose calls are. Something is known of
the files that are found. -/
structure Carries (ctx : Context) (Φ : ∀ α : Type, Build α → (α → Prop) → Prop)
    (allowed : Event → Prop) (found : String → Prop) : Prop where
  composes : Composes Φ
  tell : ∀ m, Φ _ (Build.tell m) fun _ => True
  hasStaging : Φ _ (ctx.hasEntry ctx.settings.tmpDir) fun _ => True
  read : ∀ {p}, allowed (.read p) → Φ _ (ctx.read p) fun _ => True
  write : ∀ {p} text, allowed (.write p) → Φ _ (ctx.write p text) fun _ => True
  copy : ∀ {source target}, allowed (.copy source target) → Φ _ (ctx.copy source target) fun _ => True
  expand : ∀ {root pattern}, allowed (.expand root pattern) →
    Φ _ (ctx.expand root pattern) fun files => ∀ file ∈ files, found file
  remove : ∀ {p}, allowed (.remove p) → Φ _ (ctx.remove p) fun _ => True
  registered : ∀ {bundle}, allowed (.probe bundle) → Φ _ (ctx.registered bundle) fun _ => True
  transpile : ∀ {j : Job}, j.Allowed ctx.settings allowed → Φ _ (ctx.transpile j) fun _ => True
  runJobs : ∀ {jobs : List Job}, (∀ j ∈ jobs, j.Allowed ctx.settings allowed) →
    Φ _ (ctx.runJobs jobs) fun _ => True

end Context

namespace Settings

variable (s : Settings) (allowed : Event → Prop) (found : String → Prop)

/-- The calls that prepare the staging area and place entries in it are allowed. -/
structure AllowsStaging : Prop where
  sources : ∀ pattern, allowed (.expand s.srcDir pattern)
  staged : ∀ {file}, found file → allowed (.copy (s.srcDir.join file) (s.tmpDir.join file))
  placed : ∀ {entry}, Path.Simple entry → allowed (.write (s.tmpDir.join entry))

/-- The calls that the bundles of sources are made with are allowed. -/
structure AllowsSources (f : Format) : Prop where
  sources : ∀ pattern, allowed (.expand s.srcDir pattern)
  main : (Pipeline.mainJob s f).Allowed s allowed
  locale : ∀ {file}, found file →
    ((Pipeline.localeTemplate s f).jobFor s.srcDir file).Allowed s allowed
  test : ∀ {file}, found file →
    ((Pipeline.testTemplate s f).jobFor s.srcDir file).Allowed s allowed

/-- The calls that all bundles of a format are made with are allowed. -/
structure AllowsFormat (f : Format) : Prop extends s.AllowsSources allowed found f,
    s.AllowsStaging allowed found where
  aggregate : ∀ {entry} excludeBase, Path.Simple entry → (Context.aggregateJob s entry
    (Pipeline.aggregateTarget s f entry) f excludeBase).Allowed s allowed

/-- The calls that the bundles of chosen locales are made and checked with are allowed. -/
structure AllowsCustom : Prop extends s.AllowsStaging allowed found where
  aggregate : ∀ {entry} excludeBase, Path.Simple entry → (Context.aggregateJob s entry
    (Pipeline.aggregateTarget s .umd entry) .umd excludeBase).Allowed s allowed
  probe : ∀ bundle, allowed (.probe bundle)

/-- The calls that the built tests are joined with are allowed. -/
structure AllowsJoining : Prop where
  tests : allowed (.expand (s.formatDir .umd) Context.builtTests)
  read : ∀ {file}, found file → allowed (.read ((s.formatDir .umd).join file))
  joined : allowed (.write ((s.formatDir .umd).join "min/tests.js"))

end Settings

/-! ## All calls are allowed -/

theorem Job.allowed_true (s : Settings) (j : Job) : j.Allowed s fun _ => True :=
  ⟨.inr trivial, trivial, trivial⟩

namespace Settings

variable (s : Settings)

theorem allowsStaging_true : s.AllowsStaging (fun _ => True) fun _ => True :=
  ⟨fun _ => trivial, fun _ => trivial, fun _ => trivial⟩

theorem allowsFormat_true (f : Format) : s.AllowsFormat (fun _ => True) (fun _ => True) f where
  toAllowsStaging := s.allowsStaging_true
  main := Job.allowed_true s _
  locale _ := Job.allowed_true s _
  test _ := Job.allowed_true s _
  aggregate _ _ := Job.allowed_true s _

theorem allowsCustom_true : s.AllowsCustom (fun _ => True) fun _ => True where
  toAllowsStaging := s.allowsStaging_true
  aggregate _ _ := Job.allowed_true s _
  probe _ := trivial

theorem allowsJoining_true : s.AllowsJoining (fun _ => True) fun _ => True :=
  ⟨trivial, fun _ => trivial, trivial⟩

end Settings

namespace Context.Carries

variable {ctx : Context} {Φ : ∀ α : Type, Build α → (α → Prop) → Prop} {allowed : Event → Prop}
  {found : String → Prop} (h : ctx.Carries Φ allowed found)

include h

theorem delete {p : Path} (hp : allowed (.remove p)) : Φ _ (ctx.delete p) fun _ => True := by
  refine h.composes.bind (h.remove hp) fun removed _ => ?_
  simp only
  split
  · exact h.composes.bind (h.tell _) fun _ _ => h.composes.pure trivial
  · exact h.composes.pure trivial

theorem transpileMany {root : Path} {pattern : String} {t : JobTemplate}
    (hsources : allowed (.expand root pattern))
    (hjobs : ∀ {file}, found file → (t.jobFor root file).Allowed ctx.settings allowed) :
    Φ _ (ctx.transpileMany root pattern t) fun _ => True := by
  refine h.composes.bind (h.expand hsources) fun files hfiles => h.runJobs fun j hj => ?_
  obtain ⟨file, hfile, rfl⟩ := List.mem_map.1 hj
  exact hjobs (hfiles file hfile)

theorem prepareStaging (hs : ctx.settings.AllowsStaging allowed found) :
    Φ _ ctx.prepareStaging fun _ => True := by
  refine h.composes.bind h.hasStaging fun found _ => ?_
  cases found with
  | true => exact h.composes.pure trivial
  | false =>
    refine h.composes.bind (h.expand (hs.sources _)) fun files hfiles => ?_
    refine h.composes.bind (h.composes.forM fun file hfile => ?_) fun _ _ => h.composes.pure trivial
    exact h.copy (hs.staged (hfiles file hfile))

theorem aggregate (hs : ctx.settings.AllowsStaging allowed found) {target : Path} {files : List String}
    {f : Format} {excludeBase : Bool} (hentry : ∀ entry, target.fileName? = some entry →
      allowed (.write (ctx.settings.tmpDir.join entry)) ∧
        (aggregateJob ctx.settings entry target f excludeBase).Allowed ctx.settings allowed) :
    Φ _ (ctx.aggregate target files f excludeBase) fun _ => True := by
  refine h.composes.bind (h.prepareStaging hs) fun _ _ => ?_
  split
  case h_1 => exact h.composes.throw _
  case h_2 entry he =>
    obtain ⟨hplaced, hjob⟩ := hentry entry he
    exact h.composes.bind (h.write _ hplaced) fun _ _ => h.transpile hjob

theorem concatTests (ht : ctx.settings.AllowsJoining allowed found) :
    Φ _ ctx.concatTests fun _ => True := by
  have c := h.composes
  refine c.bind (h.expand ht.tests) fun files hfiles => ?_
  split
  · exact c.pure trivial
  · refine c.bind (c.mapM fun file hfile => h.read (ht.read (hfiles file hfile))) fun texts _ => ?_
    exact c.bind (h.write _ ht.joined) fun _ _ => c.pure trivial

theorem verifyLocales {bundle : Path} (hprobe : allowed (.probe bundle)) (defaultLocale : String)
    (requested : List String) :
    Φ _ (ctx.verifyLocales bundle defaultLocale requested) fun _ => True := by
  refine h.composes.bind (h.registered hprobe) fun registered _ => ?_
  simp only
  split
  · exact h.composes.pure trivial
  · exact h.composes.throw _

theorem resolveLocales (hs : ctx.settings.AllowsStaging allowed found) (names : List String) :
    Φ _ (ctx.resolveLocales names) fun _ => True := by
  have c := h.composes
  refine c.imp (c.mapM (Q := fun _ => True) fun name _ => ?_) fun _ _ => trivial
  refine c.bind (h.expand (hs.sources _)) fun files _ => ?_
  cases files with
  | nil => exact c.throw _
  | cons file files =>
    cases files with
    | nil => exact c.pure trivial
    | cons other files => exact c.throw _

end Context.Carries

namespace Pipeline

variable {Φ : ∀ α : Type, Build α → (α → Prop) → Prop}

/-! ## Stages and pipelines -/

/-- The stages that make bundles of sources, before those of the aggregates. -/
def sourceStages (ctx : Context) (f : Format) : Pipeline :=
  Stage.single ctx (mainJob ctx.settings f) ::
    Stage.batch ctx ctx.settings.localesPattern (localeTemplate ctx.settings f) ::
    ctx.settings.testPatterns.map fun pattern => Stage.batch ctx pattern (testTemplate ctx.settings f)

/-- The judgement holds of each stage. -/
def Throughout (Φ : ∀ α : Type, Build α → (α → Prop) → Prop) (p : Pipeline) : Prop :=
  ∀ stage ∈ p, Φ _ stage.run fun _ => True

theorem Throughout.append {p q : Pipeline} (hp : p.Throughout Φ) (hq : q.Throughout Φ) :
    Throughout Φ (p ++ q) :=
  List.forall_mem_append.2 ⟨hp, hq⟩

theorem Throughout.runFrom {p : Pipeline} (hp : p.Throughout Φ) (c : Composes Φ)
    (htell : ∀ m, Φ _ (tell m) fun _ => True) (s : Settings) (total n : Nat) :
    Φ _ (Pipeline.runFrom s total n p) fun _ => True := by
  induction p generalizing n with
  | nil => exact c.pure trivial
  | cons stage stages ih =>
    obtain ⟨hstage, hstages⟩ := List.forall_mem_cons.1 hp
    have hrun : Φ _ (runStage s n total stage) fun _ => True :=
      c.bind (htell _) fun _ _ => c.bind (c.during _ hstage) fun _ _ =>
        c.bind (htell _) fun _ _ => c.pure trivial
    exact c.bind hrun fun _ _ => c.bind (ih hstages (n + 1)) fun _ _ => c.pure trivial

end Pipeline

namespace Context.Carries

open Pipeline

variable {ctx : Context} {Φ : ∀ α : Type, Build α → (α → Prop) → Prop} {allowed : Event → Prop}
  {found : String → Prop} (h : ctx.Carries Φ allowed found)

include h

theorem runPipeline {p : Pipeline} (hp : p.Throughout Φ) (what : String) :
    Φ _ (ctx.runPipeline p what) fun _ => True :=
  h.composes.bind (hp.runFrom h.composes h.tell ctx.settings p.length 1) fun _ _ =>
    h.composes.bind (h.tell _) fun _ _ => h.composes.bind (h.tell _) fun _ _ => h.composes.pure trivial

end Context.Carries

namespace Context.Carries

open Pipeline

variable {ctx : Context} {Φ : ∀ α : Type, Build α → (α → Prop) → Prop} {allowed : Event → Prop}
  {found : String → Prop} (h : ctx.Carries Φ allowed found)

include h

/-! ## Stages -/

theorem cleanStage {dirs : List Path} (hdirs : ∀ p ∈ dirs, allowed (.remove p)) :
    Φ _ (Stage.clean ctx dirs).run fun _ => True := by
  refine h.composes.bind (h.composes.forM fun p hp => ?_) fun _ _ => h.composes.pure trivial
  exact h.composes.bind (h.delete (hdirs p hp)) fun _ _ => h.composes.pure trivial

theorem aggregateStage (hs : ctx.settings.AllowsStaging allowed found) {f : Format} {entry : String}
    {excludeBase : Bool} (hentry : Path.Simple entry)
    (hjob : (aggregateJob ctx.settings entry (aggregateTarget ctx.settings f entry) f
      excludeBase).Allowed ctx.settings allowed) (files : Option (List String)) :
    Φ _ (Stage.aggregate ctx (aggregateTarget ctx.settings f entry) files f excludeBase).run
      fun _ => True := by
  have hstage : ∀ files, Φ _ (do return [← ctx.aggregate (aggregateTarget ctx.settings f entry) files f
      excludeBase]) fun _ => True := by
    refine fun files => h.composes.bind (h.aggregate hs fun entry' he => ?_) fun _ _ =>
      h.composes.pure trivial
    rw [fileName?_aggregateTarget hentry] at he
    cases he
    exact ⟨hs.placed hentry, hjob⟩
  cases files with
  | some files => exact hstage files
  | none => exact h.composes.bind (h.expand (hs.sources _)) fun files _ => hstage files

theorem sourceStages {f : Format} (hf : ctx.settings.AllowsSources allowed found f) :
    Throughout Φ (sourceStages ctx f) := by
  intro stage hstage
  simp only [Pipeline.sourceStages, List.mem_cons, List.mem_map] at hstage
  rcases hstage with rfl | rfl | ⟨pattern, -, rfl⟩
  · exact h.composes.bind (h.transpile hf.main) fun _ _ => h.composes.pure trivial
  · exact h.composes.imp (h.transpileMany (hf.sources _) hf.locale) fun _ _ => trivial
  · exact h.composes.imp (h.transpileMany (hf.sources _) hf.test) fun _ _ => trivial

theorem formatStages {f : Format} (hf : ctx.settings.AllowsFormat allowed found f) :
    Throughout Φ (formatStages ctx f) := by
  refine Throughout.append (h.sourceStages hf.toAllowsSources) fun stage hstage => ?_
  simp only [List.mem_cons, List.not_mem_nil, or_false] at hstage
  rcases hstage with rfl | rfl
  · exact h.aggregateStage hf.toAllowsStaging simple_locales (hf.aggregate _ simple_locales) none
  · exact h.aggregateStage hf.toAllowsStaging simple_withLocales (hf.aggregate _ simple_withLocales) none

theorem customStages (hc : ctx.settings.AllowsCustom allowed found) (names files : List String) :
    Throughout Φ (Pipeline.custom ctx names files) := by
  intro stage hstage
  simp only [Pipeline.custom, List.mem_cons, List.not_mem_nil, or_false] at hstage
  rcases hstage with rfl | rfl | rfl
  · exact h.aggregateStage hc.toAllowsStaging simple_customLocales
      (hc.aggregate _ simple_customLocales) (some files)
  · exact h.aggregateStage hc.toAllowsStaging simple_withCustomLocales
      (hc.aggregate _ simple_withCustomLocales) (some files)
  · exact h.composes.bind (h.verifyLocales (hc.probe _) _ _) fun _ _ =>
      h.composes.bind (h.tell _) fun _ _ => h.composes.pure trivial

theorem concatStage (htests : ctx.settings.AllowsJoining allowed found) :
    Φ _ (Stage.concatTests ctx).run fun _ => True := by
  refine h.composes.bind (h.concatTests htests) fun found _ => ?_
  cases found with
  | some p => exact h.composes.pure trivial
  | none => exact h.composes.bind (h.tell _) fun _ _ => h.composes.pure trivial

/-! ## Commands -/

theorem clean (hout : allowed (.remove ctx.settings.outDir)) : Φ _ ctx.clean fun _ => True :=
  h.composes.bind (h.tell _) fun _ _ => h.composes.bind (h.delete hout) fun _ _ => h.tell _

theorem build {f : Format} (hf : ctx.settings.AllowsFormat allowed found f)
    (hdir : allowed (.remove (ctx.settings.formatDir f))) (htmp : allowed (.remove ctx.settings.tmpDir)) :
    Φ _ (ctx.build f) fun _ => True := by
  refine h.runPipeline (List.forall_mem_cons.2 ⟨h.cleanStage ?_, h.formatStages hf⟩) _
  simp only [List.mem_cons, List.not_mem_nil, or_false, forall_eq_or_imp, forall_eq, hdir, htmp,
    and_self]

theorem custom (hc : ctx.settings.AllowsCustom allowed found) (names : List String) :
    Φ _ (ctx.custom names) fun _ => True := by
  rw [Context.custom]
  split
  · exact h.composes.throw _
  · exact h.composes.bind (h.resolveLocales hc.toAllowsStaging names) fun files _ =>
      h.runPipeline (h.customStages hc names files) _

/-- The stages of a release after the output directory is cleaned. -/
theorem releaseStages {plan : ReleasePlan}
    (hformats : ∀ f ∈ plan.formats, ctx.settings.AllowsFormat allowed found f)
    (htests : ctx.settings.AllowsJoining allowed found)
    (hc : ctx.settings.AllowsCustom allowed found) (files : List String) :
    Throughout Φ (Pipeline.release ctx plan files).tail := by
  intro stage hstage
  simp only [Pipeline.release, List.cons_append, List.tail_cons, List.mem_append, List.mem_flatMap]
    at hstage
  rcases hstage with (⟨f, hf, hmem⟩ | hmem) | hmem
  · exact h.formatStages (hformats f hf) stage hmem
  · split at hmem
    · obtain rfl := List.mem_singleton.1 hmem
      exact h.concatStage htests
    · cases hmem
  · split at hmem
    · cases hmem
    · exact h.customStages hc _ _ stage hmem

theorem release {plan : ReleasePlan}
    (hformats : ∀ f ∈ plan.formats, ctx.settings.AllowsFormat allowed found f)
    (htests : ctx.settings.AllowsJoining allowed found)
    (hc : ctx.settings.AllowsCustom allowed found) (hout : allowed (.remove ctx.settings.outDir)) :
    Φ _ (ctx.release plan) fun _ => True := by
  refine h.composes.bind (h.resolveLocales hc.toAllowsStaging plan.locales) fun files _ => ?_
  refine h.runPipeline (List.forall_mem_cons.2 ⟨h.cleanStage ?_, ?_⟩) _
  · exact fun p hp => List.mem_singleton.1 hp ▸ hout
  · exact h.releaseStages hformats htests hc files

end Context.Carries

end LocaleForge
