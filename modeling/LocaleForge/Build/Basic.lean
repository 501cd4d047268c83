import LocaleForge.Console
import LocaleForge.Disk.Basic
import LocaleForge.Failure
import LocaleForge.Request

/-!
Builds: computations on a tree of files that print messages, keep a shelf of header texts and may
stop early. What a build has done stays done when it stops. The log tells every call to the file
store, the bundler and the probe in order, and what the bundler has answered.
-/

namespace LocaleForge

/-- What the bundler has answered to a request: a text, or nothing when it failed. -/
structure Reply where
  request : Request
  text? : Option String
deriving DecidableEq, Repr

/-- A call that a build makes. -/
inductive Event where
  | read (p : Path)
  | write (p : Path)
  | copy (source target : Path)
  | expand (root : Path) (pattern : String)
  | remove (p : Path)
  /-- The bundler is asked. -/
  | request (r : Request)
  /-- The bundler's answer to a request, or its failure, is there. -/
  | reply (r : Reply)
  | probe (bundle : Path)
deriving DecidableEq, Repr

/-- Why a build ends early. -/
inductive Stop where
  | failed (f : Failure)
  /-- A limit that no caller may pass was passed. -/
  | panicked
deriving Repr

/-- Header texts by path; paths with the same steps are the same. -/
structure Shelf where
  texts : List (Path × String) := []
deriving Repr

namespace Shelf

def get? (s : Shelf) (p : Path) : Option String :=
  (s.texts.find? fun t => t.1.components = p.components).map (·.2)

def put (s : Shelf) (p : Path) (text : String) : Shelf :=
  ⟨(p, text) :: s.texts⟩

theorem get?_put_self (s : Shelf) {p q : Path} (h : p.components = q.components) (text : String) :
    (s.put p text).get? q = some text := by
  simp [get?, put, h]

theorem get?_put_of_ne (s : Shelf) {p q : Path} (h : p.components ≠ q.components) (text : String) :
    (s.put p text).get? q = s.get? q := by
  simp [get?, put, h]

end Shelf

/-- What a build works on. -/
structure BuildState where
  disk : Disk
  shelf : Shelf := {}
  console : List Console.Message := []
  log : List Event := []

/-- A computation that may stop early and keeps what it has done by then. -/
abbrev Build := ExceptT Stop (StateM BuildState)

namespace Build

def fail {α : Type} (f : Failure) : Build α :=
  throw (.failed f)

def refuse {α : Type} (c : Cause) : Build α :=
  fail (.ofCause c)

def ofResult {α : Type} (r : Except Failure α) : Build α :=
  match r with
  | .ok a => pure a
  | .error f => fail f

/-- Logs a call before it is made. -/
def note (e : Event) : Build Unit :=
  modify fun s => { s with log := s.log ++ [e] }

/-- Prints a message. -/
def tell (m : Console.Message) : Build Unit :=
  modify fun s => { s with console := s.console ++ [m] }

/-- Asks something of the tree. -/
def query {α : Type} (f : Disk → Except Failure α) : Build α := do
  ofResult (f (← get).disk)

/-- Changes the tree, also when the change fails half way. -/
def alter {α : Type} (f : Disk → Except Failure α × Disk) : Build α := do
  let s ← get
  let r := f s.disk
  set { s with disk := r.2 }
  ofResult r.1

/-- A failure inside is reported as part of an activity. -/
def during {α : Type} (a : Activity) (b : Build α) : Build α :=
  tryCatch b fun
    | .failed f => fail (f.during a)
    | .panicked => throw .panicked

end Build

end LocaleForge
