import LocaleForge.Build.Basic
import LocaleForge.Disk.Expand
import LocaleForge.Disk.Operations

/-!
The file store that a build uses. The usual one works on the tree of files itself; a build is
written against the interface, so that a store with other failures can take its place.
-/

namespace LocaleForge

/-- The file operations of a build. -/
structure Storage where
  read : Path → Disk → Except Failure String
  /-- Writes a file and makes the missing directories above it. -/
  write : Path → String → Disk → Except Failure Unit × Disk
  /-- Copies a file and makes the missing directories above the copy. -/
  copy : Path → Path → Disk → Except Failure Unit × Disk
  hasEntry : Path → Disk → Bool
  /-- The files below a directory that match a pattern. -/
  expand : Path → String → Disk → Except Failure (List String)
  /-- Removes a directory tree; tells whether there was one. -/
  remove : Path → Disk → Except Failure Bool × Disk

namespace Storage

/-- Makes the directories above a file. -/
def makeRoom (p : Path) (d : Disk) : Except Failure Unit × Disk :=
  match p.parent? with
  | none => (.ok (), d)
  | some parent =>
    let r := d.createDirectories parent
    (r.1.mapError (.ofDisk (.creating parent)), r.2)

/-- Makes the directories above a file, then changes the file. -/
def place (p : Path) (a : Activity) (change : Disk → Except Disk.Fault Disk) (d : Disk) :
    Except Failure Unit × Disk :=
  match makeRoom p d with
  | (.error f, d) => (.error f, d)
  | (.ok (), d) =>
    match change d with
    | .ok d' => (.ok (), d')
    | .error e => (.error (.ofDisk a e), d)

/-- The store that works on the tree of files. -/
def disk : Storage where
  read p d := (d.readText p).mapError (.ofDisk (.reading p))
  write p text := place p (.writing p) (·.writeBytes p (Text.encode text))
  copy source target := place target (.copying source target) (·.copy source target)
  hasEntry p d := d.exists? p
  expand root pattern d :=
    (d.expand root pattern).mapError fun e => ⟨[.matching pattern], .pattern e⟩
  remove p d :=
    if d.exists? p then
      let r := d.removeTree p
      (match r.1 with
        | .ok () => .ok true
        | .error e => .error (.ofDisk (.removing p) e), r.2)
    else (.ok false, d)

end Storage

end LocaleForge
