import LocaleForge.Config.Reader
import LocaleForge.Disk.Fault
import LocaleForge.Glob.Pattern
import LocaleForge.Path
import LocaleForge.Text.Blank

/-!
Failures: what went wrong and what was being done at the time, outermost first.
-/

namespace LocaleForge

/-- Something that was being done when a failure arose. -/
inductive Activity where
  | reading (p : Path)
  | creating (p : Path)
  | writing (p : Path)
  | copying (source target : Path)
  | removing (p : Path)
  | canonicalizing (p : Path)
  | parsing (p : Path)
  | matching (pattern : String)
  | starting (label : String)
  | decodingOutput (label : String)
  | readingLocales (bundle : Path) (output : String)
  | stage (name : String)
deriving DecidableEq, Repr

def Activity.text : Activity → String
  | reading p => "failed to read " ++ p.text
  | creating p => "failed to create " ++ p.text
  | writing p => "failed to write " ++ p.text
  | copying source target => "failed to copy " ++ source.text ++ " to " ++ target.text
  | removing p => "failed to remove " ++ p.text
  | canonicalizing p => "failed to canonicalize " ++ p.text
  | parsing p => "failed to parse " ++ p.text
  | matching pattern => "invalid glob pattern \"" ++ pattern ++ "\""
  | starting label => "failed to run " ++ label
  | decodingOutput label => label ++ " produced non-UTF-8 output"
  | readingLocales bundle output => "unexpected locale list from " ++ bundle.text ++ ": " ++ output
  | stage name => "stage '" ++ name ++ "' failed"

/-- What went wrong. -/
inductive Cause where
  | disk (fault : Disk.Fault)
  | pattern (error : Glob.Error)
  | config (fault : Config.Fault)
  | notJson
  | notUtf8
  | noTargetName (target : Path)
  | noLocales
  | localeNotFound (name : String)
  | localeAmbiguous (name : String) (candidates : List String)
  /-- A bundle registers another number of locales than were requested. -/
  | missingParents (requested registered : List String)
  /-- A program ended with a status other than success. -/
  | exited (label status errors output : String)
  /-- A failure told by the bundler, the probe or a stage in its own words. -/
  | reported (text : String)
deriving Repr

/-- An output of a failed program below the first line of the message. -/
def Cause.outputText (output : String) : String :=
  if output.isEmpty then "" else "\n" ++ Text.trimEnd output

/-- A list of names with their number. -/
def Cause.counted (names : List String) : String :=
  toString names.length ++ ": " ++ String.intercalate ", " names

/-- The wording of a cause, except where it is left to the readers of foreign formats. -/
def Cause.text? : Cause → Option String
  | disk f => some f.message
  | pattern e => some e.message
  | config .malformed => none
  | config (.mismatch m) => some m.message
  | config (.problem p) => some p.message
  | notJson => none
  | notUtf8 => none
  | noTargetName target => some ("aggregate target " ++ target.text ++ " has no file name")
  | noLocales => some "no locales given for the custom build"
  | localeNotFound name => some ("could not find locale: " ++ name)
  | localeAmbiguous name candidates =>
    some ("locale \"" ++ name ++ "\" is ambiguous: matches " ++ String.intercalate ", " candidates)
  | missingParents requested registered =>
    some ("You probably specified locales requiring parent locale, but didn't specify parent " ++
      "(requested " ++ counted requested ++ "; registered " ++ counted registered ++ ")")
  | exited label status errors output =>
    some (label ++ " exited with status " ++ status ++ outputText errors ++ outputText output)
  | reported text => some text

/-- A cause with what was being done, the outermost activity first. -/
structure Failure where
  trail : List Activity
  cause : Cause
deriving Repr

namespace Failure

/-- A failure without an activity around it. -/
def ofCause (c : Cause) : Failure :=
  ⟨[], c⟩

/-- The failure seen as part of a larger activity. -/
def during (a : Activity) (f : Failure) : Failure :=
  { f with trail := a :: f.trail }

/-- The failure of a file operation. -/
def ofDisk (a : Activity) (fault : Disk.Fault) : Failure :=
  ⟨[a], .disk fault⟩

/-- All texts from the outermost to the innermost. -/
def message (f : Failure) : String :=
  String.intercalate ": " (f.trail.map Activity.text ++ f.cause.text?.toList)

end Failure

end LocaleForge
