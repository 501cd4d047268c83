import LocaleForge.Config.Basic
import LocaleForge.Config.Mismatch
import LocaleForge.Toml.Document

/-!
Reading a configuration from the value of a document. The fields of a table are read in the order of
their keys, and unknown ones are passed over; an array may stand for a section and gives its fields
in the order in which they are listed here.
-/

namespace LocaleForge.Config

open Toml

/-- What reading a value gives. -/
abbrev Result := Except Fault

def readString : Value → Result String
  | .string s => .ok s
  | v => .error (.unexpected v "a string")

def readBool : Value → Result Bool
  | .boolean b => .ok b
  | v => .error (.unexpected v "a boolean")

/-- A count that fits into 64 bits. -/
def readCount : Value → Result Nat
  | .integer n =>
    if Word.holdsUnsigned 64 n then .ok n.toNat
    else if Word.holdsSigned 64 n then .error (.mismatch (.outOfRange n "usize"))
    else .error (.unexpected (.integer n) "usize")
  | v => .error (.unexpected v "usize")

def readList {α : Type} (read : Value → Result α) : Value → Result (List α)
  | .array _ vs => vs.mapM read
  | v => .error (.unexpected v "a sequence")

/-- A word that stands for one of a few values. A table with that word as its only key and an empty
value means the same. -/
def readWord {α : Type} (ofWord? : String → Option α) (known : List String) : Value → Result α
  | .string s => (ofWord? s).elim (.error (.mismatch (.unknownWord s known))) .ok
  | .table _ [] => .error (.mismatch .noWord)
  | .table _ [(s, v)] =>
    match ofWord? s with
    | none => .error (.mismatch (.unknownWord s known))
    | some a =>
      match v with
      | .table _ [] => .ok a
      | .array _ [] => .ok a
      | _ => .error .malformed
  | .table .. => .error (.mismatch .manyWords)
  | _ => .error (.mismatch .notWordOrTable)

def readFormat : Value → Result Format :=
  readWord Format.ofWord? ["umd", "esm"]

def readMode : Value → Result BatchMode :=
  readWord BatchMode.ofWord? ["batched", "pooled"]

/-- A field of a section: its key and how its value enters the section. -/
structure Field (α : Type) where
  key : String
  read : Value → α → Result α

/-- The field that `set` stores. -/
def field {α β : Type} (key : String) (read : Value → Result β) (set : β → α → α) : Field α :=
  ⟨key, fun v a => (read v).map (set · a)⟩

mutual

/-- Passes over a value; its numbers must have values all the same. -/
def passOver : Value → Result Unit
  | .array _ vs => passOverItems vs
  | .table _ fs => passOverFields fs
  | .valueless => .error .malformed
  | _ => .ok ()

/-- Passes over the items of an array. -/
def passOverItems : List Value → Result Unit
  | [] => .ok ()
  | v :: vs => do
    passOver v
    passOverItems vs

/-- Passes over the fields of a table. -/
def passOverFields : List (String × Value) → Result Unit
  | [] => .ok ()
  | (_, v) :: fs => do
    passOver v
    passOverFields fs

end

/-- Reads one field of a table. -/
def readField {α : Type} (fields : List (Field α)) (a : α) (entry : String × Value) : Result α :=
  match fields.find? (·.key == entry.1) with
  | some f => f.read entry.2 a
  | none => (passOver entry.2).map fun _ => a

/-- Reads a section into `a`. -/
def readSection {α : Type} (expected : String) (fields : List (Field α)) (a : α) : Value → Result α
  | .table _ entries => entries.foldlM (readField fields) a
  | .array _ vs => (fields.zip vs).foldlM (fun a (f, v) => f.read v a) a
  | .datetime => .ok a
  | v => .error (.unexpected v ("struct " ++ expected))

def projectFields : List (Field (Option String)) :=
  [field "name" readString fun s _ => some s]

/-- The project's section must name the project. -/
def readProject (v : Value) : Result Project := do
  match ← readSection "ProjectConfig" projectFields none v with
  | some name => .ok ⟨name⟩
  | none =>
    match v with
    | .array .. => .error (.mismatch (.tooShort 0 "struct ProjectConfig with 1 element"))
    | _ => .error (.mismatch (.missingField "name"))

def pathsFields : List (Field Paths) :=
  [field "src" readString fun s p => { p with src := s },
   field "out_dir" readString fun s p => { p with outDir := s },
   field "tmp_dir" readString fun s p => { p with tmpDir := s }]

def templatesFields : List (Field Templates) :=
  [field "default" readString fun s t => { t with standard := s },
   field "locale" readString fun s t => { t with locale := s },
   field "test" readString fun s t => { t with test := s }]

def baseFields : List (Field Base) :=
  [field "module" readString fun s b => { b with moduleName := s },
   field "global" readString fun s b => { b with globalName := s },
   field "default_locale" readString fun s b => { b with defaultLocale := s },
   field "locale_marker" readString fun s b => { b with localeMarker := s }]

def entriesFields : List (Field Entries) :=
  [field "main" readString fun s e => { e with main := s },
   field "locales" readString fun s e => { e with locales := s },
   field "tests" (readList readString) fun ss e => { e with tests := ss }]

def bundlerFields : List (Field Bundler) :=
  [field "command" readString fun s b => { b with command := s }]

def batchFields : List (Field Batch) :=
  [field "size" readCount fun n b => { b with size := n },
   field "mode" readMode fun m b => { b with mode := m }]

def checkFields : List (Field Check) :=
  [field "runtime" readString fun s c => { c with runtime := some s }]

/-- An array for this section must hold its only field. -/
def readCheck : Value → Result Check
  | .array _ [] => .error (.mismatch (.tooShort 0 "struct CheckSection with 1 element"))
  | v => readSection "CheckSection" checkFields {} v

def releaseFields : List (Field Release) :=
  [field "formats" (readList readFormat) fun fs r => { r with formats := fs },
   field "concat_tests" readBool fun b r => { r with concatTests := b }]

def sections : List (Field Config) :=
  [field "project" readProject fun s c => { c with project := s },
   field "paths" (readSection "PathsSection" pathsFields {}) fun s c => { c with paths := s },
   field "templates" (readSection "TemplatesSection" templatesFields {})
     fun s c => { c with templates := s },
   field "base" (readSection "BaseSection" baseFields {}) fun s c => { c with base := s },
   field "entries" (readSection "EntriesSection" entriesFields {}) fun s c => { c with entries := s },
   field "bundler" (readSection "BundlerSection" bundlerFields {}) fun s c => { c with bundler := s },
   field "batch" (readSection "BatchSection" batchFields {}) fun s c => { c with batch := s },
   field "check" readCheck fun s c => { c with check := s },
   field "release" (readSection "ReleaseSection" releaseFields {}) fun s c => { c with release := s }]

/-- Reads a configuration and checks it. -/
def parse (text : String) : Except Fault Config := do
  match Toml.parse? text with
  | none => .error .malformed
  | some v =>
    let c ← readSection "TranspileConfig" sections {} v
    match c.problem? with
    | some p => .error (.problem p)
    | none => .ok c

end LocaleForge.Config
