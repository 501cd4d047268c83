import LocaleForge.Build.Context

/-!
The check after a custom build: the bundle must register as many locales as were requested.
-/

namespace LocaleForge.Context

/-- Compares the number of registered locales other than the default one with that of the requested
ones, and gives it. -/
def verifyLocales (ctx : Context) (bundle : Path) (defaultLocale : String)
    (requested : List String) : Build Nat := do
  let registered ← ctx.registered bundle
  let extra := registered.filter (· != defaultLocale)
  if extra.length = requested.length then return extra.length
  else Build.refuse (.missingParents requested extra)

end LocaleForge.Context
