import LocaleForge.Disk.Operations
import LocaleForge.Failure

/-!
Finding the configuration of a project: a given file, or the nearest one at or above a directory.
-/

namespace LocaleForge

/-- The absolute path of a location. -/
def Path.ofLocation (loc : Location) : Path :=
  ⟨"/" ++ Text.join '/' loc⟩

namespace Disk

/-- Walks along the pieces of a path as `walkWith` does, but looks up each location on the way by its own
absolute path, which may be too long. Something has to lie at the end. -/
def canonicalWith (d : Disk) (onLink : Location → List String → Except Fault Location) :
    Location → List String → Except Fault Location
  | dir, [] => .ok dir
  | dir, p :: ps =>
    if Path.isIdle p then canonicalWith d onLink dir ps
    else if p = ".." then canonicalWith d onLink dir.dropLast ps
    else if maxName < p.utf8ByteSize then .error .nameTooLong
    else
      let loc := dir ++ [p]
      if maxPath < (Path.ofLocation loc).text.utf8ByteSize then .error .nameTooLong
      else
        match d.get? loc with
        | none => .error .notFound
        | some .directory => canonicalWith d onLink loc ps
        | some (.file ..) => if ps.isEmpty then .ok loc else .error .notDirectory
        | some (.link target) =>
          onLink (if (Path.mk target).isAbsolute then [] else dir) (Text.cut '/' target ++ ps)

/-- Walks along the pieces of a path in this way, following at most `links` links. -/
def canonicalFrom (d : Disk) (links : Nat) : Location → List String → Except Fault Location :=
  match links with
  | 0 => canonicalWith d fun _ _ => .error .tooManyLinks
  | n + 1 => canonicalWith d (canonicalFrom d n)

/-- The location that a path leads to. The text of the path may have any length, unlike the absolute paths
on the way. -/
def canonical (d : Disk) (p : Path) : Except Fault Location :=
  if p.text.toList.contains '\x00' then .error .nulInPath
  else if p.text.isEmpty then .error .notFound
  else if p.isAbsolute then d.canonicalFrom maxLinks [] (Text.cut '/' p.text)
  else if d.get? d.workDir = some .directory then
    d.canonicalFrom maxLinks d.workDir (Text.cut '/' p.text)
  else .error .notFound

end Disk

namespace Config

/-- The name of configuration files. -/
def fileName := "transpile.toml"

/-- The configuration file in a directory. -/
def fileIn (loc : Location) : Path :=
  (Path.ofLocation loc).join fileName

/-- The nearest directory that holds a configuration file, of those on the way up; the location is
given with its innermost name first. -/
def nearestUp (d : Disk) : List String → Option Location
  | [] => if d.isFile (fileIn []) then some [] else none
  | name :: up =>
    let loc := (name :: up).reverse
    if d.isFile (fileIn loc) then some loc else nearestUp d up

/-- The nearest directory at or above a location that holds a configuration file. -/
def nearest? (d : Disk) (loc : Location) : Option Location :=
  nearestUp d loc.reverse

/-- Finds the nearest directory with a configuration file at or above a path. -/
def discover (d : Disk) (start : Path) : Except Failure (Option Location) := do
  let loc ← (d.canonical start).mapError (.ofDisk (.canonicalizing start))
  return nearest? d loc

/-- Reads the configuration in a file. -/
def load (d : Disk) (p : Path) : Except Failure Config := do
  let text ← (d.readText p).mapError (.ofDisk (.reading p))
  (parse text).mapError fun fault => ⟨[.parsing p], .config fault⟩

/-- The root of a project whose configuration file is given: the file's directory, seen from
`cwd`. -/
def rootFor (cwd file : Path) : Path :=
  match file.parent? with
  | some parent => if parent.text.isEmpty then cwd else cwd.join parent.text
  | none => cwd

/-- The root of the project and its configuration. Without a configuration file the project lies in
`cwd` and has the default configuration. -/
def resolve (d : Disk) (explicit : Option Path) (cwd : Path) : Except Failure (Path × Config) := do
  match explicit with
  | some file => return (rootFor cwd file, ← load d file)
  | none =>
    match ← discover d cwd with
    | some loc => return (Path.ofLocation loc, ← load d (fileIn loc))
    | none => return (cwd, {})

end Config

end LocaleForge
