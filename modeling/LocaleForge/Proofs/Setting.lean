import LocaleForge.Build.Commands
import LocaleForge.Proofs.Joining

/-!
What statements about whole builds speak of: a fresh start, the ways to run many jobs, what is
asked of a bundler, and a small project at which they are tried out.
-/

namespace LocaleForge

/-- A build that begins: no header text is known yet, and nothing is printed or logged. -/
def BuildState.fresh (d : Disk) : BuildState where
  disk := d

namespace Context

/-- How a build of one format ends that begins with a tree: its reports or its failure, and the state
that it leaves. -/
def buildFrom (ctx : Context) (f : Format) (d : Disk) : Except Stop (List Report) × BuildState :=
  (ctx.build f).run.run (.fresh d)

/-- How a release ends that begins with a tree. -/
def releaseFrom (ctx : Context) (plan : ReleasePlan) (d : Disk) :
    Except Stop (List Report) × BuildState :=
  (ctx.release plan).run.run (.fresh d)

/-- The same context with another way to run many jobs. -/
def batchedBy (ctx : Context) (mode : BatchMode) (size : Nat) : Context :=
  { ctx with settings := { ctx.settings with batchMode := mode, batchSize := size } }

end Context

/-! ## A small project -/

/-- A project in the root directory, for which every call to the bundler ends at once. -/
def Settings.small : Settings where
  baseDir := ⟨"/"⟩
  srcDir := ⟨"/src"⟩
  outDir := ⟨"/build"⟩
  tmpDir := ⟨"/build/tmp"⟩
  defaultHeader := ⟨"/d"⟩
  localeHeader := ⟨"/l"⟩
  testHeader := ⟨"/t"⟩
  baseModule := "m"
  baseGlobal := "m"
  defaultLocale := "en"
  localeMarker := "//! locale"
  mainEntry := "m.js"
  localesPattern := "l/*.js"
  testPatterns := []
  batchSize := 2
  batchMode := .batched

theorem Settings.plain_small : Path.Plain small.mainEntry :=
  ⟨by decide, by decide⟩

/-- The tree of the small project before it is built for the first time. -/
def Disk.small : Disk :=
  ((Disk.empty.set ["build"] .directory).set ["src"] .directory).set ["src", "m.js"]
    (.file (Text.encode "m") false)

/-- The same tree with what earlier builds have left: an output directory and a staging area. -/
def Disk.used : Disk :=
  ((small.set ["build", "esm"] .directory).set ["build", "tmp"] .directory).set ["build", "tmp", "o"]
    .directory

/-- The small project with a bundler that always answers the same text. -/
def Context.small (settings : Settings) (text : String) : Context where
  settings := settings
  storage := .disk
  bundler := { suspensions := 0, reply := fun _ d => (.ok text, d) }
  probe := { registered := fun _ d => (.ok [], d) }

end LocaleForge
