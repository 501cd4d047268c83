import LocaleForge.Build.Context
import LocaleForge.Locale.Name

/-!
Finding locale files: all that match the configured pattern, or one for each requested name.
-/

namespace LocaleForge.Context

/-- Every locale file. -/
def discoverLocales (ctx : Context) : Build (List String) :=
  ctx.expand ctx.settings.srcDir ctx.settings.localesPattern

/-- The one file that a name stands for. -/
def resolveLocale (ctx : Context) (name : String) : Build String := do
  match ← ctx.expand ctx.settings.srcDir (Locale.patternFor ctx.settings.localesPattern name) with
  | [file] => return file
  | [] => Build.refuse (.localeNotFound name)
  | files => Build.refuse (.localeAmbiguous name files)

/-- The files of the requested names in their order. -/
def resolveLocales (ctx : Context) (names : List String) : Build (List String) :=
  names.mapM ctx.resolveLocale

end LocaleForge.Context
