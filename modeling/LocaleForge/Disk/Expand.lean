import LocaleForge.Disk.Lookup
import LocaleForge.Glob.Match

/-!
The regular files below a directory that match a pattern.
-/

namespace LocaleForge.Disk

/-- A location as a relative path. -/
def relativePath (loc : Location) : String :=
  Text.join '/' loc

/-- The regular files below a location as relative paths, in the order of their locations. -/
def filesBelow (d : Disk) (loc : Location) : List String :=
  ((d.below loc).filter (·.2.isFile)).map (relativePath ·.1)

/-- The regular files below `root` whose relative path matches `pattern`; links are not followed
below the root. Where there is no directory the pattern does not matter. -/
def expand (d : Disk) (root : Path) (pattern : String) : Except Glob.Error (List String) :=
  match d.find true root with
  | .ok ⟨loc, some .directory, _⟩ => do
    let tokens ← Glob.parse pattern
    .ok ((d.filesBelow loc).filter (Glob.accepts tokens))
  | _ => .ok []

end LocaleForge.Disk
