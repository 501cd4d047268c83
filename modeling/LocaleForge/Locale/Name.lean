import LocaleForge.Path
import LocaleForge.Text.Blank

/-!
Names of locales: the identifier a locale file is bound to, and comma-separated lists of names.
-/

namespace LocaleForge.Locale

/-- The identifier for a module file: its stem with each hyphen turned into an underscore. -/
def identifier (file : String) : String :=
  let stem := (Path.stem? ⟨file⟩).getD file
  String.ofList (stem.toList.map fun c => if c = '-' then '_' else c)

/-- The names in a comma-separated list; blank pieces are skipped. -/
def parseList (raw : String) : List String :=
  ((Text.cut ',' raw).map Text.trim).filter (!·.isEmpty)

/-- A pattern with `name` in place of its last star. -/
def patternFor (pattern name : String) : String :=
  match Text.cut '*' pattern with
  | [] | [_] => pattern
  | ps => Text.join '*' ps.dropLast ++ name ++ ps.getLast?.getD ""

end LocaleForge.Locale
