import LocaleForge.Shell.Signals

/-!
The options of a shell: those that it is started with, and those that commands change.
-/

namespace LocaleForge.Shell

/-- The options with their letters, if they have any. -/
def optionNames : List (Option Char × String) :=
  [(some 'e', "errexit"), (some 'f', "noglob"), (some 'I', "ignoreeof"), (some 'i', "interactive"),
   (some 'm', "monitor"), (some 'n', "noexec"), (some 's', "stdin"), (some 'x', "xtrace"),
   (some 'v', "verbose"), (some 'V', "vi"), (some 'E', "emacs"), (some 'C', "noclobber"),
   (some 'a', "allexport"), (some 'b', "notify"), (some 'u', "nounset"), (some 'p', "privileged"),
   (none, "nolog"), (none, "debug")]

/-- The letters of the options that are set. -/
def optionLetters (s : State) : Bytes :=
  (optionNames.filter fun o => s.has o.2).reverse.filterMap (·.1)

/-- Sets an option by its letter. -/
def setLetter (on : Bool) (c : Char) : Run Unit := do
  match optionNames.find? fun o => o.1 = some c with
  | none => fail ("Illegal option -" ++ [c])
  | some (_, name) =>
    modify (·.setOption name on)
    if on && c = 'V' then modify (·.setOption "emacs" false)
    if on && c = 'E' then modify (·.setOption "vi" false)

/-- Sets an option by its name, or tells which are set. -/
def setByName (on : Bool) (name : Option Bytes) : Run Unit := do
  match name with
  | some name =>
    if (optionNames.any fun o => o.2.toList = name) then modify (·.setOption (String.ofList name) on)
    else fail ("Illegal option -o " ++ name)
  | none =>
    let s ← get
    if on then print "Current option settings\n"
    for (_, name) in optionNames do
      if on then
        let text : Bytes := name
        print (text ++ Bytes.filling ' ' 16 text ++ (if s.has name then "on\n" else "off\n"))
      else print ((if s.has name then "set -o " else "set +o ") ++ (name : Bytes) ++ ['\n'])

/-- What is found among the arguments that options stand at the front of. -/
structure Setting where
  rest : List Bytes
  /-- The arguments take the place of those before. -/
  replaces : Bool
  /-- The first argument is a script. -/
  runsArgument : Bool := false

/-- Sets options by arguments, up to the first one that is none; `starting` says that a shell is started with
them. `n` bounds the number of letters. -/
def setOptions (n : Nat) (starting : Bool) (args : List Bytes) : Run Setting := do
  match n, args with
  | _ + 1, ['-'] :: rest =>
    if !starting then modify fun s => (s.setOption "xtrace" false).setOption "verbose" false
    return ⟨rest, !rest.isEmpty, false⟩
  | _ + 1, ['-', '-'] :: rest => return ⟨rest, true, false⟩
  | n + 1, (sign :: cs) :: rest =>
    if sign = '-' || sign = '+' then letters n (sign = '-') cs rest
    else return ⟨args, true, false⟩
  | _, _ => return ⟨args, !args.isEmpty, false⟩
where
  letters (n : Nat) (on : Bool) (cs : Bytes) (rest : List Bytes) : Run Setting := do
    match n, cs with
    | n + 1, c :: cs =>
      if starting && c = 'c' then
        let s ← letters n on cs rest
        return { s with runsArgument := true }
      else if starting && c = 'l' then letters n on cs rest
      else if c = 'o' then
        setByName on rest.head?
        letters n on cs rest.tail
      else
        setLetter on c
        letters n on cs rest
    | n + 1, [] => setOptions n starting rest
    | 0, _ => return ⟨rest, false, false⟩

/-- Shows variables, or sets options and arguments. -/
def Builtin.set (args : List Bytes) : Run Nat := do
  if args.isEmpty then
    print (settings [] (·.value.isSome) (← get))
  else
    let setting ← setOptions (letterCount args) false args
    if setting.replaces then
      modify fun s => { s with arguments := setting.rest, optionPlace := {} }
  return 0

end LocaleForge.Shell
