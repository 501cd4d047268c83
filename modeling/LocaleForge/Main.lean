import LocaleForge.Disk.Change
import LocaleForge.Program

/-!
The command line program. It takes up the files of a project, runs on them, and writes back what the
run has changed.
-/

namespace LocaleForge.Machine

/-- The path of a location in the file system of the machine. -/
def pathTo (loc : Location) : String :=
  (Path.ofLocation loc).text

/-- The file in the machine's file system starts like a script, and so may be run. -/
def startsLikeScript (content : ByteArray) : Bool :=
  content.data.toList.take 2 == [35, 33]

/-- Takes up a location with all that lies below it. What cannot be read is left out. -/
partial def takeUp (d : Disk) (loc : Location) : IO Disk := do
  try
    let path := pathTo loc
    let here ← IO.FS.realPath path
    if here.toString != path then return d.set loc (.link here.toString)
    match (← here.metadata).type with
    | .dir =>
      let names := (← here.readDir).map (·.fileName)
      names.foldlM (fun d name => takeUp d (loc ++ [name])) (d.set loc .directory)
    | .file =>
      let content ← IO.FS.readBinFile path
      return d.set loc (.file content (startsLikeScript content))
    | _ => return d
  catch _ => return d

/-- The locations on the way to a location, which is the last of them. -/
def wayTo (loc : Location) : List Location :=
  (List.range (loc.length + 1)).map loc.take

/-- The tree with the directories on the way to a location. -/
def withWay (d : Disk) (loc : Location) : Disk :=
  (wayTo loc).foldl (fun d l => if (d.get? l).isSome then d else d.set l .directory) d

/-- The nearest directory at or above `loc` that holds a configuration. -/
def projectAt (loc : Location) : IO (Option Location) :=
  (wayTo loc).reverse.findM? fun l => do
    try
      return (← IO.FS.realPath (pathTo (l ++ [Config.fileName]))).fileName.isSome
    catch _ => return false

/-- The directory that a configuration's path names. -/
def directoryOf (cwd : Location) (p : Path) : Location :=
  (p.parent?.getD ⟨""⟩).components.foldl (fun loc c =>
    match c with
    | .root => []
    | .here => loc
    | .up => loc.dropLast
    | .name n => loc ++ [n]) cwd

/-- The names on the way to a directory of the machine. -/
def locationOf (path : String) : Location :=
  (Text.cut '/' path).filter (!·.isEmpty)

/-- The tree that a command works on: the working directory and the project it belongs to. -/
def load (cwd : Location) (args : List String) : IO Disk := do
  let named := match CommandLine.parse args with
    | .ok command => command.config.map (directoryOf cwd)
    | .error _ => none
  let tops := cwd :: (named.toList ++ (← projectAt cwd).toList)
  let d ← tops.foldlM (fun d top => takeUp (withWay d top) top) Disk.empty
  return d.within cwd

/-- Writes one entry. -/
def store (loc : Location) : Entry → IO Unit
  | .directory => IO.FS.createDirAll (pathTo loc)
  | .file content _ => IO.FS.writeBinFile (pathTo loc) content
  | .link _ => return

/-- Takes away one entry. -/
def discard (loc : Location) : Entry → IO Unit
  | .directory => IO.FS.removeDirAll (pathTo loc)
  | _ => IO.FS.removeFile (pathTo loc)

/-- Carries out the steps from one tree to another. -/
def writeBack (c : Disk.Change) : IO Unit := do
  c.removed.reverse.forM fun (loc, e) => discard loc e
  c.written.forM fun (loc, e) => store loc e

/-- The line that explains the use of the program. -/
def usage : String :=
  "usage: locale-transpile build|custom|release|clean [--config FILE] [--format umd|esm] [--locales NAMES]"

end LocaleForge.Machine

open LocaleForge in
/-- Runs the program on the files of the machine. -/
def main (args : List String) : IO UInt32 := do
  let cwd := Machine.locationOf (← IO.currentDir).toString
  let before ← Machine.load cwd args
  let started ← IO.monoMsNow
  match ← IO.lazyPure fun _ => Program.execute before args with
  | .error e =>
    if e.status = 0 then IO.println Machine.usage else IO.eprintln Machine.usage
    return UInt32.ofNat e.status
  | .ok run =>
    let elapsed := (← IO.monoMsNow) - started
    let shown := run.outcome (Program.seconds elapsed)
    Machine.writeBack (before.changesTo shown.disk)
    IO.print shown.output
    IO.eprint shown.errors
    return UInt32.ofNat shown.status
