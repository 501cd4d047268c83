import LocaleForge.Config.Basic
import LocaleForge.Path

/-!
The settings of a build: the configuration with every path joined to the project's root.
-/

namespace LocaleForge

/-- What a build needs to know of its configuration. -/
structure Settings where
  baseDir : Path
  srcDir : Path
  outDir : Path
  tmpDir : Path
  defaultHeader : Path
  localeHeader : Path
  testHeader : Path
  baseModule : String
  baseGlobal : String
  defaultLocale : String
  localeMarker : String
  mainEntry : String
  localesPattern : String
  testPatterns : List String
  batchSize : Nat
  batchMode : BatchMode
deriving DecidableEq, Repr

namespace Settings

def ofConfig (c : Config) (base : Path) : Settings where
  baseDir := base
  srcDir := base.join c.paths.src
  outDir := base.join c.paths.outDir
  tmpDir := base.join c.paths.tmpDir
  defaultHeader := base.join c.templates.standard
  localeHeader := base.join c.templates.locale
  testHeader := base.join c.templates.test
  baseModule := c.base.moduleName
  baseGlobal := c.base.globalName
  defaultLocale := c.base.defaultLocale
  localeMarker := c.base.localeMarker
  mainEntry := c.entries.main
  localesPattern := c.entries.locales
  testPatterns := c.entries.tests
  batchSize := c.batch.size
  batchMode := c.batch.mode

/-- The directory for the bundles of one format. -/
def formatDir (s : Settings) (f : Format) : Path :=
  s.outDir.join f.word

/-- A path as shown to the user: relative to the project's root where it lies below. -/
def shown (s : Settings) (p : Path) : String :=
  Path.shownFrom s.baseDir p

end Settings

end LocaleForge
