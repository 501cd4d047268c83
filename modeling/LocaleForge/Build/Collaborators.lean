import LocaleForge.Build.Commands
import LocaleForge.Config.Discovery
import LocaleForge.Json.Parser
import LocaleForge.Shell.Spawn

/-!
The collaborators that a configuration names: the bundler is a shell command, and the probe loads a
bundle in a script runtime.
-/

namespace LocaleForge

/-- Runs a command for each request, which it reads as a JSON record; the bundle is what the command
prints. Each call waits for the command to read and to print. -/
def Bundler.ofCommand (command : String) (dir : Path) : Bundler where
  suspensions := 2
  reply r d :=
    Shell.captureCommand d dir command ("bundler (" ++ r.entry.text ++ ")") (some r.payload)

namespace Probe

/-- The script that prints the locales registered by a bundle. -/
def script (bundle : Path) : String :=
  "const m = require(" ++ (Json.string bundle.text).render ++
    "); process.stdout.write(JSON.stringify(m.locales()));"

/-- The names in the output of the script. -/
def namesOf (bundle : Path) (output : String) : Except Failure (List String) :=
  match (Json.parse? (Text.trim output)).bind Json.strings? with
  | some names => .ok names
  | none => .error ⟨[.readingLocales bundle output], .notJson⟩

/-- Loads a bundle in a runtime. -/
def ofRuntime (runtime : String) (dir : Path) : Probe where
  registered bundle d :=
    let label := runtime ++ " (" ++ bundle.text ++ ")"
    match Shell.capture d dir runtime ["-e", script bundle] label none with
    | (.ok output, d) => (namesOf bundle output, d)
    | (.error f, d) => (.error f, d)

/-- The runtime used when the configuration names none. -/
def usualRuntime := "node"

end Probe

/-- The context of a configuration for a project rooted at `base`. -/
def Context.ofConfig (c : Config) (base : Path) : Context where
  settings := .ofConfig c base
  storage := .disk
  bundler := .ofCommand c.bundler.command base
  probe := .ofRuntime (c.check.runtime.getD Probe.usualRuntime) base

end LocaleForge
