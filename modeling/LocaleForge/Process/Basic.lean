import LocaleForge.Process.World

/-!
A process: its open files by descriptor, and the world that it shares with others.
-/

namespace LocaleForge

/-- A process that runs. -/
structure Process where
  world : World
  /-- The open file of each descriptor. -/
  descriptors : List (Nat × Nat) := []
  environment : List (Bytes × Bytes) := []
  /-- The number by which signals reach it. -/
  number : Nat := 1
  /-- The number of the process that has started it. -/
  parent : Nat := 0
  /-- The numbers of signals that it does not notice. -/
  ignored : List Nat := []

/-- What a process does. -/
abbrev Action := StateM Process

namespace Process

def standardInput := 0
def standardOutput := 1
def standardError := 2

def handle? (p : Process) (descriptor : Nat) : Option Nat :=
  p.descriptors.lookup descriptor

def file? (p : Process) (descriptor : Nat) : Option OpenFile :=
  (p.handle? descriptor).bind (p.world.openFiles[·]?)

/-- Lets a descriptor stand for an open file. -/
def point (p : Process) (descriptor handle : Nat) : Process :=
  { p with descriptors := (descriptor, handle) :: p.descriptors.filter (·.1 ≠ descriptor) }

def close (p : Process) (descriptor : Nat) : Process :=
  { p with descriptors := p.descriptors.filter (·.1 ≠ descriptor) }

/-- The descriptor that a path of the system's own stands for. -/
def descriptorAt? (path : String) : Option Nat :=
  match path with
  | "/dev/stdin" => some standardInput
  | "/dev/stdout" => some standardOutput
  | "/dev/stderr" => some standardError
  | _ =>
    match Text.cut '/' path with
    | ["", "dev", "fd", n] | ["", "proc", "self", "fd", n] => n.toNat?
    | _ => none

/-- Opens the file at a path. The paths of descriptors open their files once more. -/
def openFile (p : Process) (mode : OpenMode) (path : Path) : Except Disk.Fault Nat × Process :=
  let add (f : OpenFile) : Except Disk.Fault Nat × Process :=
    let (handle, world) := p.world.addFile f
    (.ok handle, { p with world })
  let device (stream : Stream) : Except Disk.Fault Nat × Process :=
    add { stream, reads := mode = .read || mode = .readWrite, writes := mode ≠ .read }
  match path.text with
  | "/dev/null" => device .null
  | "/dev/full" => device .full
  | text =>
    match descriptorAt? text with
    | some descriptor =>
      match p.file? descriptor with
      | some f =>
        add { f with
          reads := mode = .read || mode = .readWrite
          writes := mode ≠ .read
          appends := mode = .append
          offset := 0 }
      | none => (.error .notFound, p)
    | none =>
      let (r, world) := p.world.openFile mode path
      (r, { p with world })

/-- What the next reads of a descriptor give. -/
def upcoming (p : Process) (descriptor : Nat) : Except Disk.Fault Bytes :=
  match p.handle? descriptor with
  | none => .error .badDescriptor
  | some handle => p.world.upcoming handle

/-- Goes on behind so many bytes of a descriptor. -/
def skip (p : Process) (descriptor n : Nat) : Process :=
  match p.handle? descriptor with
  | none => p
  | some handle => { p with world := p.world.skip handle n }

/-- Reads a descriptor to its end. -/
def readAll (descriptor : Nat) : Action (Except Disk.Fault Bytes) := do
  let p ← get
  let r := p.upcoming descriptor
  match r with
  | .ok bs => set (p.skip descriptor bs.length)
  | .error _ => pure ()
  return r

def write (descriptor : Nat) (bs : Bytes) : Action (Except Disk.Fault Unit) := do
  let p ← get
  match p.handle? descriptor with
  | none => return .error .badDescriptor
  | some handle =>
    let (r, world) := p.world.write handle bs
    set { p with world }
    return r

/-- Writes a line to standard error; it does not matter whether that succeeds. -/
def complain (line : Bytes) : Action Unit := do
  let _ ← write standardError (line ++ ['\n'])

/-- The whole content of the file at a path. -/
def readPath (path : Bytes) : Action (Except Disk.Fault Bytes) := do
  match (← get).openFile .read (Bytes.toPath path) with
  | (.error e, _) => return .error e
  | (.ok handle, p) =>
    let r := p.world.upcoming handle
    match r with
    | .ok bs => set { p with world := p.world.skip handle bs.length }
    | .error _ => set p
    return r

/-- The working directory. -/
def directory (p : Process) : Location :=
  p.world.disk.workDir

end Process

namespace Bytes

/-- The words for a fault. -/
def ofFault (e : Disk.Fault) : Bytes :=
  ofString e.reason

end Bytes

end LocaleForge
