import LocaleForge.Shell.Builtin
import LocaleForge.Shell.Grammar
import LocaleForge.Shell.Programs

/-!
What the names of commands stand for: functions, commands of the shell itself, and programs.
-/

namespace LocaleForge.Shell

/-- What a builtin command does. -/
inductive Builtin where
  /-- Works on the name that it was called by and its arguments. -/
  | plain (run : Bytes → List Bytes → Run Nat)
  /-- Runs its arguments as a script. -/
  | eval
  /-- Runs a file as a part of the script. -/
  | source
  /-- Runs a program in place of the shell. -/
  | exec
  /-- Runs a command that is no function. -/
  | command

/-- What a name stands for. -/
inductive Meaning where
  | builtin (b : Builtin)
  | function (body : Command)
  | program

/-- The names of builtin commands. -/
def builtinNames : List String :=
  specialNames ++ ["[", "alias", "bg", "cd", "chdir", "command", "echo", "false", "fg", "getopts", "hash",
    "jobs", "kill", "printf", "pwd", "read", "test", "true", "type", "ulimit", "umask", "unalias", "wait"]

def isBuiltin (name : Bytes) : Bool :=
  builtinNames.contains (String.ofList name)

/-- A builtin command whose failures end the shell. -/
def isSpecial (name : Bytes) : Bool :=
  specialNames.contains (String.ofList name)

/-- The places of a program, of which a message tells if there is none. -/
def placesOf (name searched : Bytes) : Run (List Bytes) := do
  let s ← get
  match (if searched = s.value "PATH" then s.known.lookup name else none) with
  | some place => return [place]
  | none =>
    match Program.search s.process.world.disk searched name with
    | .ok places =>
      if searched = s.value "PATH" then Builtin.rememberPlace name (places.headD [])
      return places
    | .error e =>
      warn (name ++ ": " ++ describe "not found" e)
      return []

/-- Tells the places of programs, or looks for them. -/
def hash (args : List Bytes) : Run Nat := do
  let (os, names) ← optionsIn [('r', false)] args
  if !os.isEmpty then
    modify fun s => { s with known := [] }
    return 0
  if names.isEmpty then
    for (_, place) in inRows 31 (← get).known do
      print (place ++ ['\n'])
    return 0
  look 0 names
where
  look (status : Nat) : List Bytes → Run Nat
    | [] => return status
    | name :: names => do
      modify fun s => { s with known := s.known.filter (·.1 ≠ name) }
      if isBuiltin name then look status names
      else
        let places ← placesOf name ((← get).value "PATH")
        look (if places.isEmpty then 1 else status) names

/-- Tells what a name stands for; in a sentence if `wordy` is set. -/
def tell (wordy : Bool) (searched : Option Bytes) (name : Bytes) : Run Nat := do
  let s ← get
  let say (sentence : Bytes) : Run Nat := do
    print ((if wordy then name ++ sentence else name) ++ ['\n'])
    return 0
  let place (p sentence : Bytes) : Run Nat := do
    print ((if wordy then name ++ sentence ++ p else p) ++ ['\n'])
    return 0
  let missing : Run Nat := do
    if wordy then print (name ++ ": not found\n")
    return 127
  let disk := s.process.world.disk
  if (Keyword.ofText? (String.ofList name)).isSome then say " is a shell keyword"
  else
    match s.aliases.lookup name, s.functions.lookup name, s.known.lookup name with
    | some text, _, _ =>
      print (if wordy then name ++ " is an alias for " ++ text ++ ['\n'] else "alias " ++ Builtin.aliasLine name text)
      return 0
    | none, some _, _ => say " is a shell function"
    | none, none, some p => place p (if searched.isSome then " is " else " is a tracked alias for ")
    | none, none, none =>
      if isBuiltin name then say (if isSpecial name then " is a special shell builtin" else " is a shell builtin")
      else if name.contains '/' then
        match Program.candidate disk name with
        | .ok _ => place name " is "
        | .error _ => missing
      else
        match Program.search disk (searched.getD (s.value "PATH")) name with
        | .ok (p :: _) => place p " is "
        | _ => missing

/-- Tells what names stand for. -/
def tellAll (args : List Bytes) : Run Nat :=
  go 0 args
where
  go (status : Nat) : List Bytes → Run Nat
    | [] => return status
    | name :: names => do
      let r ← tell true none name
      go (if r = 0 then status else r) names

/-- Tells what a name stands for, as options ask. -/
def tellByOptions (args : List Bytes) : Run Nat := do
  let (os, names) ← optionsIn [('p', false), ('v', false), ('V', false)] args
  let searched := if (os.lookup 'p').isSome then some Program.defaultPath else none
  match names with
  | name :: _ => if os.any (·.1 ≠ 'p') then tell ((os.lookup 'V').isSome) searched name else return 0
  | [] => return 0

/-- The builtin command of a name. -/
def builtin? (name : Bytes) : Option Builtin :=
  let plain (run : List Bytes → Run Nat) : Option Builtin := some (.plain fun _ => run)
  match String.ofList name with
  | "." => some .source
  | ":" | "true" => plain fun _ => return 0
  | "[" | "test" => some (.plain Condition.run)
  | "alias" => plain Builtin.aliases
  | "bg" | "fg" => plain fun _ => fail "No current job"
  | "break" => plain (Builtin.leaveLoops .break)
  | "cd" | "chdir" => plain changeDirectory
  | "command" => some .command
  | "continue" => plain (Builtin.leaveLoops .continue)
  | "echo" => plain Printing.echo
  | "eval" => some .eval
  | "exec" => some .exec
  | "exit" => plain Builtin.exit
  | "export" => plain (Builtin.mark false)
  | "false" => plain fun _ => return 1
  | "getopts" => plain Builtin.getopts
  | "hash" => plain hash
  | "jobs" => plain Builtin.listJobs
  | "kill" => plain kill
  | "local" => plain Builtin.makeLocals
  | "printf" => plain fun args => do Printing.printf (← operands args)
  | "pwd" => plain printDirectory
  | "read" => plain Builtin.read
  | "readonly" => plain (Builtin.mark true)
  | "return" => plain Builtin.leaveFunction
  | "set" => plain Builtin.set
  | "shift" => plain Builtin.shift
  | "times" => plain Builtin.times
  | "trap" => plain trap
  | "type" => plain tellAll
  | "ulimit" => plain Builtin.ulimit
  | "umask" => plain Builtin.umask
  | "unalias" => plain Builtin.unalias
  | "unset" => plain Builtin.unset
  | "wait" => plain Builtin.wait
  | _ => none

/-- Arguments that assign are not split. -/
def keepsAssignments (name : Bytes) : Bool :=
  ["alias", "export", "local", "readonly"].contains (String.ofList name)

/-- What a name stands for. -/
def meaning (s : State) (functions : Bool) (name : Bytes) : Meaning :=
  match (if functions then s.functions.lookup name else none), builtin? name with
  | some d, _ => .function d
  | none, some b => .builtin b
  | none, none => .program

end LocaleForge.Shell
