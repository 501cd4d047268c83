import LocaleForge.Build.Collaborators
import LocaleForge.CommandLine

/-!
The whole program: a command is carried out for the project that it is called in.
-/

namespace LocaleForge

namespace Command

/-- The configuration file that the command names. -/
def config : Command → Option Path
  | build c _ => c
  | custom c _ => c
  | release c _ => c
  | clean c => c

end Command

namespace Program

/-- What is printed before a build starts. -/
def announce (command : String) (c : Config) (subject : Option String) : Build Unit :=
  Build.tell (.banner command c.project.name subject)

/-- Carries out a command for a project. -/
def perform (c : Config) (ctx : Context) : Command → Build Unit
  | .build _ f => do
    announce "build" c (some f.word)
    Build.tell (.detail ("batch size " ++ toString ctx.settings.batchSize ++ " (" ++
      ctx.settings.batchMode.word ++ ")"))
    let _ ← ctx.build f
  | .custom _ raw => do
    let names := Locale.parseList raw
    announce "custom" c (some (String.intercalate "," names))
    let _ ← ctx.custom names
  | .release _ raw => do
    let plan : ReleasePlan :=
      ⟨c.release.formats, c.release.concatTests, raw.elim [] Locale.parseList⟩
    announce "release" c (some (String.intercalate "," (plan.formats.map Format.word)))
    let _ ← ctx.release plan
  | .clean _ => do
    announce "clean" c none
    ctx.clean

/-- Carries out a command in the working directory `cwd`. -/
def run (cwd : Path) (command : Command) : Build Unit := do
  let (base, c) ← Build.query fun d => Config.resolve d command.config cwd
  perform c (.ofConfig c base) command

/-- What a run of the program shows. -/
structure Outcome where
  status : Nat
  output : String
  errors : String
  disk : Disk

/-- What a run came to: why it stopped, if it did, and what it has done. -/
abbrev Run := Except Stop Unit × BuildState

/-- Runs the program on its arguments in a tree whose working directory is where it is called. -/
def execute (d : Disk) (args : List String) : Except CommandLine.UsageError Run :=
  (CommandLine.parse args).map fun command => (run (.ofLocation d.workDir) command).run.run { disk := d }

/-- A time in seconds with one decimal place. -/
def seconds (milliseconds : Nat) : String :=
  let tenths := (milliseconds + 50) / 100
  toString (tenths / 10) ++ "." ++ toString (tenths % 10)

/-- What a run shows; `elapsed` is the number of seconds it took. -/
def Run.outcome (elapsed : String) (r : Run) : Outcome :=
  let shown := String.join (r.2.console.map (·.render elapsed))
  match r.1 with
  | .ok () => ⟨0, shown, "", r.2.disk⟩
  | .error (.failed f) => ⟨1, shown ++ "\n", Console.failureLine f.message, r.2.disk⟩
  | .error .panicked => ⟨101, shown, "", r.2.disk⟩

end Program

end LocaleForge
