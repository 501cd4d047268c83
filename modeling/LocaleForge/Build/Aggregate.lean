import LocaleForge.Build.Staging
import LocaleForge.Build.Transpile
import LocaleForge.Locale.Entry

/-!
Aggregates: bundles of many locales, made from an entry that is placed in the staging area.
-/

namespace LocaleForge.Context

/-- The job of an aggregate whose entry lies in the staging area. -/
def aggregateJob (s : Settings) (entry : String) (target : Path) (f : Format) (excludeBase : Bool) :
    Job where
  root := s.tmpDir
  entry := entry
  format := f
  name := none
  excludeBase := excludeBase
  target := target
  header :=
    if f.isModule then .none
    else if excludeBase then .file s.localeHeader
    else .file s.defaultHeader
  skip := some (if f.isModule then 0 else if excludeBase then 7 else 5)
  comments := .keep

/-- Bundles locale files into one file, with the base module or without it. -/
def aggregate (ctx : Context) (target : Path) (files : List String) (f : Format)
    (excludeBase : Bool) : Build Path := do
  let _ ← ctx.prepareStaging
  match target.fileName? with
  | none => Build.refuse (.noTargetName target)
  | some entry =>
    ctx.write (ctx.settings.tmpDir.join entry)
      (Locale.entryText ctx.settings.baseModule ctx.settings.defaultLocale files)
    ctx.transpile (aggregateJob ctx.settings entry target f excludeBase)

end LocaleForge.Context
