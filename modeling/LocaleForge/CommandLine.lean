import LocaleForge.Format
import LocaleForge.Path

/-!
The command line: a command's name followed by its options. An option's value may be attached to it
or follow it as a word of its own; an option is given at most once.
-/

namespace LocaleForge

/-- What the user asks for. -/
inductive Command where
  | build (config : Option Path) (format : Format)
  | custom (config : Option Path) (locales : String)
  | release (config : Option Path) (locales : Option String)
  | clean (config : Option Path)
deriving DecidableEq, Repr

namespace CommandLine

/-- Why arguments are not a command. Asking for help is one reason. -/
inductive UsageError where
  | help
  | nothingGiven
  | unknownCommand
  | unknownArgument
  | badValue
  | repeatedOption
  | missingOption
  | unwantedValue
deriving DecidableEq, Repr

namespace UsageError

/-- The exit status for a usage error. -/
def status : UsageError → Nat
  | help => 0
  | _ => 2

end UsageError

/-- The options that take a value. -/
inductive Flag where
  | config
  | format
  | locales
deriving DecidableEq, Repr

/-- The names of commands. -/
inductive Name where
  | build
  | custom
  | release
  | clean
deriving DecidableEq, Repr

namespace Name

def ofWord? : String → Option Name
  | "build" => some build
  | "custom" => some custom
  | "release" => some release
  | "clean" => some clean
  | _ => none

/-- The options of a command. -/
def flags : Name → List Flag
  | build => [.config, .format]
  | custom | release => [.config, .locales]
  | clean => [.config]

end Name

namespace Flag

def long : Flag → String
  | config => "config"
  | format => "format"
  | locales => "locales"

def short : Flag → Char
  | config => 'c'
  | format => 'f'
  | locales => 'l'

/-- The values that an option takes. -/
def takes (f : Flag) (value : String) : Bool :=
  match f with
  | config => !value.isEmpty
  | format => (Format.ofWord? value).isSome
  | locales => true

end Flag

/-- An argument by its shape. -/
inductive Word where
  | separator
  /-- A long option and the value attached to it. -/
  | long (name : String) (value : Option String)
  /-- A short option and the characters after it. -/
  | short (name : Char) (rest : List Char)
  | plain
deriving DecidableEq, Repr

namespace Word

def ofArgument (arg : String) : Word :=
  match arg.toList with
  | ['-', '-'] => separator
  | '-' :: '-' :: cs =>
    let name := cs.takeWhile (· != '=')
    long (String.ofList name) ((cs.drop name.length).tail?.map String.ofList)
  | '-' :: c :: cs => short c cs
  | _ => plain

/-- The value attached to a short option. -/
def attached : List Char → Option String
  | [] => none
  | '=' :: cs => some (String.ofList cs)
  | cs => some (String.ofList cs)

end Word

/-- The options read so far. The last one may still wait for its value, and its value is checked
only when the next option or the end is reached. -/
structure Progress where
  given : List (Flag × String) := []
  pending : Option (Flag × Option String) := none
deriving DecidableEq, Repr

namespace Progress

/-- Takes the value of an option. -/
def accept (p : Progress) (f : Flag) (value : String) : Except UsageError Progress :=
  if (p.given.lookup f).isSome then .error .repeatedOption
  else if f.takes value then .ok ⟨p.given ++ [(f, value)], none⟩
  else .error .badValue

/-- Finishes the option that was read last. -/
def settle (p : Progress) : Except UsageError Progress :=
  match p.pending with
  | none => .ok p
  | some (_, none) => .error .badValue
  | some (f, some value) => accept { p with pending := none } f value

/-- Starts an option. -/
def start (p : Progress) (f : Flag) (value : Option String) : Except UsageError Progress := do
  let p ← p.settle
  match value with
  | some v => p.accept f v
  | none => .ok { p with pending := some (f, none) }

/-- Reads one argument of a command that has the options `flags`; `separator` is handled outside. -/
def step (flags : List Flag) (p : Progress) (arg : String) : Except UsageError Progress :=
  match Word.ofArgument arg with
  | .long "help" (some _) => .error .unwantedValue
  | .long "help" none => p.settle >>= fun _ => .error .help
  | .long name value =>
    match flags.find? (·.long == name) with
    | some f => p.start f value
    | none => .error .unknownArgument
  | .short 'h' _ => p.settle >>= fun _ => .error .help
  | .short c rest =>
    match flags.find? (·.short == c) with
    | some f => p.start f (Word.attached rest)
    | none => .error .unknownArgument
  | .separator | .plain =>
    match p.pending with
    | some (f, none) => .ok { p with pending := some (f, some arg) }
    | _ => .error .unknownArgument

/-- Reads the arguments of a command. Nothing may follow a separator. -/
def readAll (flags : List Flag) : Progress → List String → Except UsageError Progress
  | p, [] => p.settle
  | p, arg :: args =>
    if Word.ofArgument arg = .separator then
      if args.isEmpty then p.settle else .error .unknownArgument
    else do readAll flags (← p.step flags arg) args

end Progress

/-- The command with the options that were given. -/
def command (name : Name) (p : Progress) : Except UsageError Command :=
  let config := (p.given.lookup .config).map Path.mk
  match name with
  | .build => .ok (.build config (((p.given.lookup .format).bind Format.ofWord?).getD .umd))
  | .custom =>
    match p.given.lookup .locales with
    | some raw => .ok (.custom config raw)
    | none => .error .missingOption
  | .release => .ok (.release config (p.given.lookup .locales))
  | .clean => .ok (.clean config)

/-- The topics that help can be asked on. -/
def isTopic (word : String) : Bool :=
  word == "help" || (Name.ofWord? word).isSome

/-- The command that the arguments ask for. -/
def parse (args : List String) : Except UsageError Command :=
  match args with
  | [] => .error .nothingGiven
  | arg :: rest =>
    match Word.ofArgument arg with
    | .separator =>
      match rest with
      | [] => .error .nothingGiven
      | word :: _ => .error (if isTopic word then .unknownArgument else .unknownCommand)
    | .long "help" (some _) => .error .unwantedValue
    | .long "help" none => .error .help
    | .long .. => .error .unknownArgument
    | .short 'h' _ => .error .help
    | .short .. => .error .unknownArgument
    | .plain =>
      if arg = "help" then
        match rest with
        | [] => .error .help
        | [topic] => .error (if isTopic topic then .help else .unknownCommand)
        | _ => .error .unknownCommand
      else
        match Name.ofWord? arg with
        | none => .error .unknownCommand
        | some name => do command name (← Progress.readAll name.flags {} rest)

end CommandLine

end LocaleForge
