/-!
The formats a bundle is written in.
-/

namespace LocaleForge

/-- The output format of a bundle. -/
inductive Format where
  /-- A wrapped script, usable without a module loader. -/
  | umd
  /-- A plain module. -/
  | esm
deriving DecidableEq, Repr

namespace Format

/-- The word for a format in configurations, requests and directory names. -/
def word : Format → String
  | umd => "umd"
  | esm => "esm"

/-- A module carries no wrapper and so no header. -/
def isModule : Format → Bool
  | umd => false
  | esm => true

def ofWord? : String → Option Format
  | "umd" => some umd
  | "esm" => some esm
  | _ => none

theorem ofWord?_word (f : Format) : ofWord? f.word = some f := by
  cases f <;> rfl

end Format

end LocaleForge
