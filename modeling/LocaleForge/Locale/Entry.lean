import LocaleForge.Locale.Name

/-!
The entry module of an aggregate: it imports the base module and a set of locale modules. Importing
a locale makes it the active one, so the entry ends by setting the default locale again.
-/

namespace LocaleForge.Locale

/-- Imports `from` under the identifier `name`. -/
def importLine (name source : String) : String :=
  "import " ++ name ++ " from \"./" ++ source ++ "\";"

/-- The lines of the entry for a base module, a default locale and locale files. -/
def entryLines (base defaultLocale : String) (files : List String) : List String :=
  let ident := identifier base
  importLine ident base :: ("export default " ++ ident ++ ";") ::
    files.map (fun file => importLine (identifier file) file) ++
    [ident ++ ".locale('" ++ defaultLocale ++ "');"]

/-- The text of the entry. -/
def entryText (base defaultLocale : String) (files : List String) : String :=
  Text.unlines (entryLines base defaultLocale files)

end LocaleForge.Locale
