import LocaleForge.Decimal.Numeral
import LocaleForge.Shell.State
import LocaleForge.Word

/-!
Setting variables, and the values that they get back when functions end.
-/

namespace LocaleForge.Shell

/-- What is said of a text that should be a number. -/
def illegalNumber {α : Type} (bs : Bytes) : Run α :=
  fail ("Illegal number: " ++ bs)

/-- The number that a text consists of; base zero leaves the base to what the digits begin with, and an
empty text stands for zero then. -/
def numberIn? (base : Nat) (bs : Bytes) : Option Int := do
  let (n, rest) ←
    match Decimal.integer? base bs with
    | some r => some r
    | none => if base = 0 then some (0, bs) else none
  if rest.all Bytes.isSpace && Word.smallest 64 ≤ n && n ≤ Word.largest 64 then some n else none

def numberIn (base : Nat) (bs : Bytes) : Run Int :=
  match numberIn? base bs with
  | some n => return n
  | none => illegalNumber bs

/-- A number of 31 bits without a sign. -/
def numberOf (bs : Bytes) : Run Nat := do
  match numberIn? 10 bs with
  | some (.ofNat n) => if n < Nat.pow 2 31 then return n else illegalNumber bs
  | _ => illegalNumber bs

/-- What follows when some variables change. -/
def noticeChange (name value : Bytes) : Run Unit := do
  if name = "PATH" then modify fun s => { s with known := [] }
  else if name = "OPTIND" then
    let n ← numberOf value
    modify fun s => { s with optionPlace := { index := max n 1 } }

/-- Gives a variable a value, or takes it away; its marks stay. -/
def setVariable (name : Bytes) (value : Option Bytes) (exported readOnly isFixed : Bool) : Run Unit := do
  let s ← get
  let exported := exported || s.has "allexport"
  let keeps := exported || readOnly || isFixed || value.isSome
  match s.get? name with
  | some v =>
    if v.readOnly then fail (name ++ ": is read only")
    noticeChange name (value.getD [])
    modify fun s =>
      if keeps || v.isFixed then
        s.putVariable name
          ⟨value, v.exported || exported, readOnly, v.isFixed || isFixed⟩
      else s.eraseVariable name
  | none => if keeps then modify (·.putVariable name ⟨value, exported, readOnly, isFixed⟩)

/-- Gives the variable of a name that somebody has chosen a value. -/
def setNamed (name : Bytes) (value : Option Bytes) (exported readOnly : Bool) : Run Unit := do
  if Bytes.isName name then setVariable name value exported readOnly false
  else fail (name ++ ": bad variable name")

/-- The name and the value in the text of an assignment. -/
def assignment (bs : Bytes) : Bytes × Option Bytes :=
  let name := bs.takeWhile (· ≠ '=')
  (name, (bs.drop name.length).tail?)

/-- Remembers something that is restored when the innermost function ends. -/
def remember (saved : Saved) : Run Unit :=
  modify fun s =>
    match s.locals with
    | [] => s
    | frame :: frames => { s with locals := (saved :: frame) :: frames }

/-- Lets a variable belong to the innermost function. -/
def makeLocal (name : Bytes) (value : Option Bytes) (exported : Bool) : Run Unit := do
  let before := (← get).get? name
  match before with
  | none =>
    if Bytes.isName name then setVariable name value exported false true
    else fail (name ++ ": bad variable name")
  | some v =>
    modify (·.putVariable name { v with isFixed := true })
    if value.isSome then setVariable name value exported false false
  remember (.variable name before)

/-- Restores what has been remembered. -/
def restore : List Saved → Run Unit
  | [] => return
  | .options names :: rest => do
    modify fun s => { s with options := names }
    restore rest
  | .variable name before :: rest => do
    match before with
    | none => modify (·.eraseVariable name)
    | some v =>
      noticeChange name (v.value.getD [])
      modify (·.putVariable name v)
    restore rest

/-- Restores what was remembered by all but the outermost `n` functions. -/
def restoreTo (n : Nat) : Run Unit := do
  let frames := (← get).locals
  let inner := frames.take (frames.length - n)
  modify fun s => { s with locals := frames.drop inner.length }
  restore inner.flatten

/-- A text in single quotes, and runs of these in double quotes. -/
def singleQuoted (n : Nat) (bs : Bytes) : Bytes :=
  let front := bs.takeWhile (· ≠ '\'')
  let rest := bs.drop front.length
  let quotes := rest.takeWhile (· = '\'')
  let more := rest.drop quotes.length
  '\'' :: front ++ ['\''] ++
    (if quotes.isEmpty then [] else '"' :: quotes ++ ['"']) ++
    (match n, more with
      | n + 1, _ :: _ => singleQuoted n more
      | _, _ => [])

def quoted (bs : Bytes) : Bytes :=
  singleQuoted bs.length bs

/-- Lines that set variables, sorted by their names. -/
def settings (keyword : Bytes) (shown : Variable → Bool) (s : State) : Bytes :=
  let vs := (s.vars.filter (shown ·.2)).mergeSort fun a b => !(b.1 < a.1)
  vs.flatMap fun (name, v) =>
    keyword ++ (if keyword.isEmpty then [] else [' ']) ++ name ++
      (match v.value with
        | some bs => '=' :: quoted bs
        | none => []) ++ ['\n']

end LocaleForge.Shell
