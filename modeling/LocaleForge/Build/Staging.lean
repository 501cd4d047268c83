import LocaleForge.Build.Context

/-!
The staging area: a copy of the sources in which entries can be placed beside them.
-/

namespace LocaleForge.Context

/-- The sources that are copied. -/
def stagedPattern := "**/*.js"

/-- Copies the sources into the staging area and gives their number. An existing staging area is
used as it is. -/
def prepareStaging (ctx : Context) : Build Nat := do
  if ← ctx.hasEntry ctx.settings.tmpDir then return 0
  let files ← ctx.expand ctx.settings.srcDir stagedPattern
  files.forM fun file =>
    ctx.copy (ctx.settings.srcDir.join file) (ctx.settings.tmpDir.join file)
  return files.length

end LocaleForge.Context
