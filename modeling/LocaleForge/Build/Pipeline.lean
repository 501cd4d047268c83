import LocaleForge.Build.Context

/-!
Pipelines: named stages that run one after another up to the first failure.
-/

namespace LocaleForge

/-- A stage: its name, and a computation that gives the files it has written. -/
structure Stage where
  name : String
  run : Build (List Path)

/-- What a stage that has succeeded is reported as. -/
structure Report where
  name : String
  outputs : List Path
deriving DecidableEq, Repr

/-- Stages in the order in which they run. -/
abbrev Pipeline := List Stage

namespace Pipeline

def names (p : Pipeline) : List String :=
  p.map (·.name)

/-- Announces and runs a stage, and lists the files it has written. -/
def runStage (s : Settings) (n total : Nat) (stage : Stage) : Build Report := do
  Build.tell (.step n total stage.name)
  let outputs ← Build.during (.stage stage.name) stage.run
  Build.tell (.files (outputs.map s.shown))
  return ⟨stage.name, outputs⟩

/-- Runs stages numbered from `n` on. -/
def runFrom (s : Settings) (total : Nat) : Nat → Pipeline → Build (List Report)
  | _, [] => return []
  | n, stage :: stages => do
    let report ← runStage s n total stage
    return report :: (← runFrom s total (n + 1) stages)

/-- Runs all stages. -/
def run (s : Settings) (p : Pipeline) : Build (List Report) :=
  runFrom s p.length 1 p

end Pipeline

end LocaleForge
