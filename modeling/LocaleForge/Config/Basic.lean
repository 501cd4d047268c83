import LocaleForge.Format

/-!
The configuration of a project: one structure for each section, with the value each field has when
the section or the field is left out, and the conditions that a whole configuration must meet.
-/

namespace LocaleForge

/-- How the jobs of a batch run: together with a barrier after each batch, or from a queue. -/
inductive BatchMode where
  | batched
  | pooled
deriving DecidableEq, Repr

namespace BatchMode

def word : BatchMode → String
  | batched => "batched"
  | pooled => "pooled"

def ofWord? : String → Option BatchMode
  | "batched" => some batched
  | "pooled" => some pooled
  | _ => none

theorem ofWord?_word (m : BatchMode) : ofWord? m.word = some m := by
  cases m <;> rfl

end BatchMode

namespace Config

structure Project where
  name : String := "moment"
deriving DecidableEq, Repr

/-- Directories, relative to the project's root. -/
structure Paths where
  src : String := "src"
  outDir : String := "build"
  tmpDir : String := "build/tmp"
deriving DecidableEq, Repr

/-- Files with the texts put in front of bundles. -/
structure Templates where
  standard : String := "templates/default.js"
  locale : String := "templates/locale-header.js"
  test : String := "templates/test-header.js"
deriving DecidableEq, Repr

/-- The module that locales and tests build upon. -/
structure Base where
  moduleName : String := "moment"
  globalName : String := "moment"
  defaultLocale : String := "en"
  localeMarker : String := "//! moment.js locale configuration"
deriving DecidableEq, Repr

/-- The main module and the patterns of the files to bundle. -/
structure Entries where
  main : String := "moment.js"
  locales : String := "locale/*.js"
  tests : List String := ["test/moment/*.js", "test/locale/*.js"]
deriving DecidableEq, Repr

structure Bundler where
  command : String := "node scripts/bundle.mjs"
deriving DecidableEq, Repr

structure Batch where
  size : Nat := 50
  mode : BatchMode := .batched
deriving DecidableEq, Repr

structure Check where
  /-- The program that loads generated bundles. -/
  runtime : Option String := none
deriving DecidableEq, Repr

structure Release where
  formats : List Format := [.esm]
  concatTests : Bool := true
deriving DecidableEq, Repr

/-- What is wrong with a configuration that is well formed. -/
inductive Problem where
  | zeroBatchSize
  | emptyModule
  | emptyMainEntry
  | noFormats
deriving DecidableEq, Repr

def Problem.message : Problem → String
  | zeroBatchSize => "batch.size must be greater than 0"
  | emptyModule => "base.module must not be empty"
  | emptyMainEntry => "entries.main must not be empty"
  | noFormats => "release.formats must list at least one format"

end Config

/-- A whole configuration. -/
structure Config where
  project : Config.Project := {}
  paths : Config.Paths := {}
  templates : Config.Templates := {}
  base : Config.Base := {}
  entries : Config.Entries := {}
  bundler : Config.Bundler := {}
  batch : Config.Batch := {}
  check : Config.Check := {}
  release : Config.Release := {}
deriving DecidableEq, Repr

namespace Config

/-- The first condition that the configuration fails, if any. -/
def problem? (c : Config) : Option Problem :=
  if c.batch.size = 0 then some .zeroBatchSize
  else if c.base.moduleName.isEmpty then some .emptyModule
  else if c.entries.main.isEmpty then some .emptyMainEntry
  else if c.release.formats.isEmpty then some .noFormats
  else none

end Config

end LocaleForge
