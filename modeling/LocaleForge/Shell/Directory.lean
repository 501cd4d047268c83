import LocaleForge.Shell.Programs
import LocaleForge.Shell.Signals

/-!
The working directory of a shell, which is known by the path that led to it.
-/

namespace LocaleForge.Shell

/-- A path from the root on, without points; two points take away the name before them. -/
def logicalPath (current path : Bytes) : Bytes :=
  let absolute := path.head? = some '/'
  let root : Bytes :=
    match (if absolute then path else current) with
    | '/' :: '/' :: c :: _ => if c = '/' then ['/'] else ['/', '/']
    | ['/', '/'] => ['/', '/']
    | _ => ['/']
  let pieces (bs : Bytes) : List Bytes :=
    ((Text.cut '/' (String.ofList bs)).map String.toList).filter (!·.isEmpty)
  let start := if absolute then [] else pieces current
  let all := (pieces path).foldl
    (fun before p =>
      if p = ['.'] then before
      else if p = ['.', '.'] then before.dropLast
      else before ++ [p])
    start
  root ++ List.intercalate ['/'] all

/-- The absolute path of the directory that the process is in. -/
def physicalPath (s : State) : Bytes :=
  Program.pathOf s.process.directory

/-- Enters a directory; false if that is not possible. -/
def enter (physical : Bool) (path : Bytes) : Run Bool := do
  let s ← get
  let path := if physical then path else logicalPath s.directory path
  let disk := s.process.world.disk
  match disk.find true (Bytes.toPath path) with
  | .ok ⟨loc, some .directory, _⟩ =>
    setVariable "OLDPWD" (some s.directory) true false false
    modify fun s =>
      { s with process := { s.process with world := { s.process.world with disk := disk.within loc } } }
    modify fun s => { s with directory := if physical then physicalPath s else path }
    setVariable "PWD" (some (← get).directory) true false false
    return true
  | _ => return false

/-- The last of the letters that say whether links count. -/
def isPhysical (os : List (Char × Bytes)) : Bool :=
  (os.getLast?.map (·.1)) = some 'P'

/-- Begins with one or two points as a name of their own. -/
def isDotted (path : Bytes) : Bool :=
  match path with
  | '/' :: _ | ['.'] | '.' :: '/' :: _ | ['.', '.'] | '.' :: '.' :: '/' :: _ => true
  | _ => false

/-- Changes the working directory. -/
def changeDirectory (args : List Bytes) : Run Nat := do
  let (os, rest) ← optionsIn [('L', false), ('P', false)] args
  let physical := isPhysical os
  let s ← get
  let (goal, shown) := match rest.head? with
    | none => ((s.value "HOME"), false)
    | some ['-'] => (s.value "OLDPWD", true)
    | some path => (path, false)
  let shown ← if isDotted goal then finish physical goal goal shown
    else
      let goal := if goal.isEmpty then ['.'] else goal
      searchIn physical goal shown ((Text.cut ':' (String.ofList (s.value "CDPATH"))).map String.toList)
  if shown then print ((← get).directory ++ ['\n'])
  return 0
where
  finish (physical : Bool) (named path : Bytes) (shown : Bool) : Run Bool := do
    if ← enter physical path then return shown
    else fail ("can't cd to " ++ named)
  searchIn (physical : Bool) (goal : Bytes) (shown : Bool) : List Bytes → Run Bool
    | [] => finish physical goal goal shown
    | dir :: dirs => do
      let path := if dir.isEmpty then goal else dir ++ '/' :: goal
      if (← get).process.world.disk.isDirectory (Bytes.toPath path) then
        finish physical goal path (shown || !dir.isEmpty)
      else searchIn physical goal shown dirs

/-- Prints the working directory. -/
def printDirectory (args : List Bytes) : Run Nat := do
  let (os, _) ← optionsIn [('L', false), ('P', false)] args
  let s ← get
  print ((if isPhysical os then physicalPath s else s.directory) ++ ['\n'])
  return 0

end LocaleForge.Shell
