import LocaleForge.Build.Aggregate
import LocaleForge.Build.Batch
import LocaleForge.Build.Locales
import LocaleForge.Build.Pipeline
import LocaleForge.Build.Registration
import LocaleForge.Build.TestBundle

/-!
The stages of the builds and the pipelines made of them.
-/

namespace LocaleForge

namespace Stage

variable (ctx : Context)

/-- Removes output directories. -/
def clean (dirs : List Path) : Stage where
  name := "clean " ++ String.intercalate " " (dirs.map ctx.settings.shown)
  run := do
    dirs.forM fun dir => do
      let _ ← ctx.delete dir
    return []

/-- Runs one job. -/
def single (j : Job) : Stage where
  name := "bundle " ++ j.entry
  run := return [← ctx.transpile j]

/-- Runs a job for each source that matches a pattern. -/
def batch (pattern : String) (t : JobTemplate) : Stage where
  name := "bundle " ++ pattern
  run := ctx.transpileMany ctx.settings.srcDir pattern t

/-- Bundles locale files into one; they are discovered when the stage runs if they are not given. -/
def aggregate (target : Path) (files : Option (List String)) (f : Format) (excludeBase : Bool) :
    Stage where
  name := "aggregate " ++ ctx.settings.shown target
  run := do
    let files ← match files with
      | some files => pure files
      | none => ctx.discoverLocales
    return [← ctx.aggregate target files f excludeBase]

/-- Checks that a bundle registers the requested locales. -/
def verify (bundle : Path) (requested : List String) : Stage where
  name := "verify locale registration"
  run := do
    let n ← ctx.verifyLocales bundle ctx.settings.defaultLocale requested
    Build.tell (.detail (Console.plural n "locale" ++ " registered"))
    return []

/-- Joins the built tests. -/
def concatTests : Stage where
  name := "concat tests"
  run := do
    match ← ctx.concatTests with
    | some p => return [p]
    | none =>
      Build.tell (.warning "no built umd tests, skipping concatenation")
      return []

end Stage

/-- What a release makes besides the builds of its formats. -/
structure ReleasePlan where
  formats : List Format
  concatTests : Bool
  locales : List String
deriving DecidableEq, Repr

namespace Pipeline

/-- Header files are for wrapped bundles only. -/
def wrappedHeader (f : Format) (p : Path) : HeaderChoice :=
  if f.isModule then .none else .file p

/-- The job of the main entry. -/
def mainJob (s : Settings) (f : Format) : Job where
  root := s.srcDir
  entry := s.mainEntry
  format := f
  name := some s.baseModule
  excludeBase := false
  target := (s.formatDir f).join s.mainEntry
  header := .auto
  skip := some (if f.isModule then 0 else 5)
  comments := .full

def localeTemplate (s : Settings) (f : Format) : JobTemplate where
  format := f
  header := wrappedHeader f s.localeHeader
  skip := some (if f.isModule then 1 else 7)
  comments := .full
  excludeBase := true
  targetDir := s.formatDir f

def testTemplate (s : Settings) (f : Format) : JobTemplate where
  format := f
  header := wrappedHeader f s.testHeader
  skip := some 7
  comments := .full
  excludeBase := true
  targetDir := s.formatDir f

/-- The path of an aggregate. -/
def aggregateTarget (s : Settings) (f : Format) (file : String) : Path :=
  ((s.formatDir f).join "min").join file

/-- The stages of one format after its directory is cleaned. -/
def formatStages (ctx : Context) (f : Format) : Pipeline :=
  let s := ctx.settings
  [Stage.single ctx (mainJob s f), Stage.batch ctx s.localesPattern (localeTemplate s f)] ++
    s.testPatterns.map (fun pattern => Stage.batch ctx pattern (testTemplate s f)) ++
    [Stage.aggregate ctx (aggregateTarget s f "locales.js") none f true,
      Stage.aggregate ctx (aggregateTarget s f "moment-with-locales.js") none f false]

/-- The stages for a chosen set of locales; `files` are those of `names`. -/
def custom (ctx : Context) (names files : List String) : Pipeline :=
  let s := ctx.settings
  let whole := aggregateTarget s .umd "moment-with-locales.custom.js"
  [Stage.aggregate ctx (aggregateTarget s .umd "locales.custom.js") (some files) .umd true,
    Stage.aggregate ctx whole (some files) .umd false,
    Stage.verify ctx whole names]

/-- The stages of a whole build of one format. The staging area is cleaned as well, so that
aggregates come from the current sources. -/
def build (ctx : Context) (f : Format) : Pipeline :=
  Stage.clean ctx [ctx.settings.formatDir f, ctx.settings.tmpDir] :: formatStages ctx f

/-- The stages of a release; `files` are those of the plan's locales. -/
def release (ctx : Context) (plan : ReleasePlan) (files : List String) : Pipeline :=
  Stage.clean ctx [ctx.settings.outDir] ::
    plan.formats.flatMap (formatStages ctx) ++
    (if plan.concatTests then [Stage.concatTests ctx] else []) ++
    (if plan.locales.isEmpty then [] else custom ctx plan.locales files)

end Pipeline

end LocaleForge
