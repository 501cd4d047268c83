import LocaleForge.Format
import LocaleForge.Path
import LocaleForge.Relocation
import LocaleForge.Settings

/-!
Jobs: one run of the bundler that gives one file.
-/

namespace LocaleForge

/-- The text put in front of a bundle. -/
inductive HeaderChoice where
  /-- The default header for wrapped formats, none for modules. -/
  | auto
  | none
  | file (path : Path)
deriving DecidableEq, Repr

/-- Everything that decides one output file. -/
structure Job where
  root : Path
  entry : String
  format : Format
  name : Option String
  /-- The base module is referenced and not included. -/
  excludeBase : Bool
  target : Path
  header : HeaderChoice
  /-- How many lines the bundler puts in front; the usual number when not given. -/
  skip : Option Nat
  comments : CommentMode
deriving DecidableEq, Repr

/-- The common part of the jobs of one batch. -/
structure JobTemplate where
  format : Format
  header : HeaderChoice
  skip : Option Nat
  comments : CommentMode
  excludeBase : Bool
  targetDir : Path
deriving DecidableEq, Repr

namespace Job

def entryPath (j : Job) : Path :=
  j.root.join j.entry

/-- The path that selects an empty header; no file is read for it. -/
def noHeader : Path := ⟨"none"⟩

/-- The file that holds the header of a job. -/
def headerPath (s : Settings) (j : Job) : Path :=
  match j.header with
  | .auto => if j.format.isModule then noHeader else s.defaultHeader
  | .none => noHeader
  | .file p => p

/-- The lines dropped from a bundle when a job does not say otherwise. -/
def usualSkip := 5

def skipped (j : Job) : Nat :=
  j.skip.getD usualSkip

end Job

/-- The job of a template for one file below `root`; its output lies at the same relative path. -/
def JobTemplate.jobFor (t : JobTemplate) (root : Path) (file : String) : Job where
  root := root
  entry := file
  format := t.format
  name := none
  excludeBase := t.excludeBase
  target := t.targetDir.join file
  header := t.header
  skip := t.skip
  comments := t.comments

end LocaleForge
