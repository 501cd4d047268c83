import LocaleForge.Build.Stages

/-!
The builds that a user can ask for.
-/

namespace LocaleForge.Context

/-- Runs a pipeline and tells how many files it wrote. -/
def runPipeline (ctx : Context) (p : Pipeline) (what : String) : Build (List Report) := do
  let reports ← p.run ctx.settings
  Build.tell .blank
  Build.tell (.complete what (reports.flatMap (·.outputs)).length)
  return reports

/-- Builds every bundle of one format. -/
def build (ctx : Context) (f : Format) : Build (List Report) :=
  ctx.runPipeline (Pipeline.build ctx f) (f.word ++ " build")

/-- Builds the aggregates of chosen locales. All names are resolved before anything else is done. -/
def custom (ctx : Context) (names : List String) : Build (List Report) := do
  if names.isEmpty then Build.refuse .noLocales
  let files ← ctx.resolveLocales names
  ctx.runPipeline (Pipeline.custom ctx names files) "custom build"

/-- Builds a release. All names are resolved before anything else is done. -/
def release (ctx : Context) (plan : ReleasePlan) : Build (List Report) := do
  let files ← ctx.resolveLocales plan.locales
  ctx.runPipeline (Pipeline.release ctx plan files) "release"

/-- Removes the output directory with the staging area. -/
def clean (ctx : Context) : Build Unit := do
  Build.tell (.action "cleaning build output")
  let _ ← ctx.delete ctx.settings.outDir
  Build.tell (.success "clean complete")

end LocaleForge.Context
