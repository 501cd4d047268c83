import LocaleForge.Disk.Operations
import LocaleForge.Shell.Pattern

/-!
The paths that match a pattern, name by name. Names that begin with a point match only patterns that do so,
too.
-/

namespace LocaleForge.Shell.PathPattern

/-- Some bytes of the text could mean something in a pattern. -/
def mayMatch (gs : List Glyph) : Bool :=
  (Glyph.plain gs).any ['*', '?', '['].contains

/-- The parts of a pattern between slashes, which a backslash does not hide. -/
def segments : Bytes → List Bytes
  | [] => [[]]
  | '\\' :: '/' :: cs | '/' :: cs => [] :: segments cs
  | '\\' :: c :: cs => prepend ['\\', c] (segments cs)
  | c :: cs => prepend [c] (segments cs)
where
  prepend (front : Bytes) : List Bytes → List Bytes
    | [] => [front]
    | s :: ss => (front ++ s) :: ss

/-- A bracket closes behind the first byte. -/
def closes : Bytes → Bool
  | [] | ['\\'] => false
  | '\\' :: _ :: cs | _ :: cs => cs.head? = some ']' || closes cs

/-- The part stands for other names than its own. -/
def isWild : Bytes → Bool
  | [] => false
  | '*' :: _ | '?' :: _ => true
  | '[' :: '!' :: cs => closes cs || isWild cs
  | '[' :: cs => closes cs || isWild cs
  | '\\' :: _ :: cs => isWild cs
  | _ :: cs => isWild cs

/-- The text that a part stands for if it is not wild. -/
def unescaped : Bytes → Bytes
  | '\\' :: c :: cs => c :: unescaped cs
  | c :: cs => c :: unescaped cs
  | [] => []

/-- The names in a directory. -/
def namesIn (d : Disk) (directory : Bytes) : List Bytes :=
  match d.find true (Bytes.toPath (if directory.isEmpty then ['.'] else directory)) with
  | .ok ⟨loc, some .directory, _⟩ =>
    ['.'] :: ['.', '.'] :: (d.below loc).filterMap fun (rel, _) =>
      match rel with
      | [name] => some (Bytes.ofString name)
      | _ => none
  | _ => []

/-- The names that match a part of a pattern. -/
def matching (part : Bytes) (names : List Bytes) : List Bytes :=
  let ws := Wildcard.parse part
  let shown (name : Bytes) : Bool := name.head? ≠ some '.' || (unescaped part).head? = some '.'
  names.filter fun name => shown name && Wildcard.accepts ws name

def exists? (d : Disk) (path : Bytes) : Bool :=
  match d.find false (Bytes.toPath path) with
  | .ok spot => spot.entry.isSome
  | .error _ => false

/-- The paths that begin with `front`, which ends in a slash unless it is empty, and go on as the parts
tell. `found` says that a name has been matched before. -/
def paths (d : Disk) (found : Bool) (front : Bytes) : List Bytes → List Bytes
  | [] => []
  | [p] =>
    if isWild p then (matching p (namesIn d front)).map (front ++ ·)
    else
      let path := front ++ unescaped p
      if found && exists? d path then [path] else []
  | p :: ps =>
    if isWild p then
      (matching p (namesIn d front)).flatMap fun name => paths d true (front ++ name ++ ['/']) ps
    else paths d found (front ++ unescaped p ++ ['/']) ps

/-- Sorted by the codes of their bytes. -/
def sorted (ps : List Bytes) : List Bytes :=
  ps.mergeSort fun a b => !(b < a)

/-- The paths that match a field; the field itself if there is none. -/
def resolve (d : Disk) (gs : List Glyph) : List Bytes :=
  if mayMatch gs then
    match paths d false [] (segments (Glyph.pattern gs)) with
    | [] => [Glyph.plain gs]
    | ps => sorted ps
  else [Glyph.plain gs]

end LocaleForge.Shell.PathPattern
