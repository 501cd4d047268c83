import LocaleForge.Build.Context

/-!
Joining the built tests into one file.
-/

namespace LocaleForge.Context

/-- The built tests, below the directory of wrapped bundles. -/
def builtTests := "test/**/*.js"

/-- Joins the built tests; gives nothing when there are none. -/
def concatTests (ctx : Context) : Build (Option Path) := do
  let dir := ctx.settings.formatDir .umd
  let files ← ctx.expand dir builtTests
  if files.isEmpty then return none
  let texts ← files.mapM fun file => ctx.read (dir.join file)
  let target := dir.join "min/tests.js"
  ctx.write target (Text.unlines texts)
  return some target

end LocaleForge.Context
