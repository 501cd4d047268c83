import LocaleForge.Bytes
import LocaleForge.Disk.Operations
import LocaleForge.Process.Signal

/-!
What processes share: the tree of files, the files that are open, the pipes between them and the
signals on their way. An open file has one place in its content, which moves for all that hold it.
-/

namespace LocaleForge

/-- What an open file leads to. -/
inductive Stream where
  | file (loc : Location)
  | directory
  | pipe (number : Nat)
  /-- Always empty; what is written to it is gone. -/
  | null
  /-- Nothing more can be written to it. -/
  | full
deriving DecidableEq, Repr

/-- A file while it is open. -/
structure OpenFile where
  stream : Stream
  reads : Bool := true
  writes : Bool := true
  /-- Each write goes to the end. -/
  appends : Bool := false
  offset : Nat := 0
deriving Repr

/-- The way in which a file is opened. -/
inductive OpenMode where
  | read
  /-- Emptied, or made if it is missing. -/
  | write
  | append
  | readWrite
deriving DecidableEq, Repr

/-- What has been written to a pipe and not been read. -/
structure Pipe where
  front : Bytes := []
  /-- What was written last, in parts, the last one first. -/
  back : List Bytes := []

namespace Pipe

def content (p : Pipe) : Bytes :=
  match p.back with
  | [] => p.front
  | parts => p.front ++ parts.reverse.flatten

def write (p : Pipe) (bs : Bytes) : Pipe :=
  { p with back := bs :: p.back }

theorem content_write (p : Pipe) (bs : Bytes) : (p.write bs).content = p.content ++ bs := by
  cases h : p.back <;> simp [content, write, h]

end Pipe

structure World where
  disk : Disk
  openFiles : Array OpenFile := #[]
  pipes : Array Pipe := #[]
  /-- The number that was given to a process last. -/
  lastProcess : Nat := 1
  /-- Signals that have not reached their processes yet. -/
  signals : List (Nat × Signal) := []

namespace World

/-- Adds an open file. -/
def addFile (w : World) (f : OpenFile) : Nat × World :=
  (w.openFiles.size, { w with openFiles := w.openFiles.push f })

/-- Adds a pipe, which is written at one end and read at the other. -/
def addPipe (w : World) (content : Bytes) : (Nat × Nat) × World :=
  let stream := Stream.pipe w.pipes.size
  let (front, w) := { w with pipes := w.pipes.push { front := content } }.addFile { stream, writes := false }
  let (back, w) := w.addFile { stream, reads := false }
  ((front, back), w)

def pipe (w : World) (number : Nat) : Pipe :=
  (w.pipes[number]?).getD {}

def moveTo (w : World) (handle : Nat) (f : OpenFile) (offset : Nat) : World :=
  { w with openFiles := w.openFiles.setIfInBounds handle { f with offset } }

/-- What is left to read. -/
def remaining (w : World) (f : OpenFile) : Bytes :=
  match f.stream with
  | .file loc =>
    match w.disk.get? loc with
    | some (.file content _) => Bytes.ofArray (content.extract f.offset content.size)
    | _ => []
  | .pipe n => (w.pipe n).content
  | .directory | .null | .full => []

/-- What the next reads of an open file give. -/
def upcoming (w : World) (handle : Nat) : Except Disk.Fault Bytes :=
  match w.openFiles[handle]? with
  | none => .error .badDescriptor
  | some f =>
    if !f.reads then .error .badDescriptor
    else if f.stream = .directory then .error .isDirectory
    else .ok (w.remaining f)

/-- Goes on behind so many bytes of an open file. -/
def skip (w : World) (handle n : Nat) : World :=
  match w.openFiles[handle]? with
  | none => w
  | some f =>
    match f.stream with
    | .pipe k => { w with pipes := w.pipes.setIfInBounds k { front := (w.pipe k).content.drop n } }
    | _ => w.moveTo handle f (f.offset + n)

/-- The content with bytes put at an offset; a gap before them is filled with zeros. -/
def overwrite (content : ByteArray) (offset : Nat) (bs : ByteArray) : ByteArray :=
  content.extract 0 offset ++ ⟨Array.replicate (offset - content.size) 0⟩ ++ bs ++
    content.extract (offset + bs.size) content.size

/-- Writes at the place of an open file. -/
def write (w : World) (handle : Nat) (bs : Bytes) : Except Disk.Fault Unit × World :=
  match w.openFiles[handle]? with
  | none => (.error .badDescriptor, w)
  | some f =>
    if !f.writes then (.error .badDescriptor, w)
    else
      match f.stream with
      | .pipe n => (.ok (), { w with pipes := w.pipes.setIfInBounds n ((w.pipe n).write bs) })
      | .file loc =>
        match w.disk.get? loc with
        | some (.file content x) =>
          let offset := if f.appends then content.size else f.offset
          let disk := w.disk.set loc (.file (overwrite content offset bs.toArray) x)
          (.ok (), { w with disk }.moveTo handle f (offset + bs.length))
        | _ => (.ok (), w)
      | .directory | .null => (.ok (), w)
      | .full => (if bs.isEmpty then .ok () else .error .noSpace, w)

/-- Opens the file at a path. -/
def openFile (w : World) (mode : OpenMode) (p : Path) : Except Disk.Fault Nat × World :=
  let opened (w : World) (f : OpenFile) : Except Disk.Fault Nat × World :=
    let (handle, w) := w.addFile f
    (.ok handle, w)
  match mode with
  | .read =>
    match w.disk.find true p with
    | .error e => (.error e, w)
    | .ok spot =>
      match spot.entry with
      | none => (.error .notFound, w)
      | some (.file ..) => opened w { stream := .file spot.location, writes := false }
      | some _ => opened w { stream := .directory, writes := false }
  | _ =>
    match w.disk.writable p with
    | .error e => (.error e, w)
    | .ok spot =>
      let file (disk : Disk) : Except Disk.Fault Nat × World :=
        opened { w with disk }
          { stream := .file spot.location, reads := mode = .readWrite, appends := mode = .append }
      match spot.entry with
      | some (.file _ x) =>
        file (if mode = .write then w.disk.set spot.location (.file ByteArray.empty x) else w.disk)
      | _ => file (w.disk.set spot.location (.file ByteArray.empty false))

/-- Takes the signals that have come for a process. -/
def takeSignals (w : World) (process : Nat) : List Signal × World :=
  ((w.signals.filter (·.1 = process)).map (·.2),
    { w with signals := w.signals.filter (·.1 ≠ process) })

end World

end LocaleForge
