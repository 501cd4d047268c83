import LocaleForge.Utility.Basic

/-!
Options among the arguments of a program: letters behind one hyphen, words behind two, and the values
that some of them take.
-/

namespace LocaleForge.Utility

/-- Whether an option takes a value. -/
inductive Arity where
  | plain
  | required
  /-- Only a value that belongs to the same argument counts. -/
  | optional
deriving DecidableEq, Repr

/-- The options of a program. Letters and words stand for meanings of type `α`. -/
structure OptionTable (α : Type) where
  letters : List (Char × Arity × α)
  words : List (String × Arity × α)
  /-- Options may also stand behind operands. -/
  permutes : Bool := true
  /-- An argument that is the first operand although it begins with a hyphen. -/
  isOperand : Bytes → Bool := fun _ => false

/-- An option with its value. -/
abbrev Given (α : Type) := α × Option Bytes

/-- What was found among arguments. -/
structure Arguments (α : Type) where
  options : List (Given α) := []
  operands : List Bytes := []
  /-- What is wrong with the argument behind the options that were found. -/
  fault : Option Bytes := none

namespace Arguments

variable {α : Type}

def withOption (g : Given α) (a : Arguments α) : Arguments α :=
  { a with options := g :: a.options }

def withOperand (o : Bytes) (a : Arguments α) : Arguments α :=
  { a with operands := o :: a.operands }

end Arguments

namespace OptionTable

variable {α : Type} [BEq α]

/-- The options that a word, or the front of one, can stand for. -/
def candidates (t : OptionTable α) (name : Bytes) : List (String × Arity × α) :=
  match t.words.find? fun w => w.1.toList = name with
  | some w => [w]
  | none => t.words.filter fun w => name.isPrefixOf w.1.toList

/-- All of them mean the same. -/
def agree : List (String × Arity × α) → Bool
  | [] => true
  | w :: ws => ws.all fun v => v.2.1 = w.2.1 && v.2.2 == w.2.2

/-- Reads an argument with two hyphens; `rest` are the arguments behind it. -/
def readWord (t : OptionTable α) (arg : Bytes) (rest : List Bytes) : Except Bytes (Given α × List Bytes) :=
  let name := arg.takeWhile (· != '=')
  let value := match arg.drop name.length with
    | _ :: v => some v
    | [] => none
  let found := t.candidates name
  let quote (w : Bytes) : Bytes := "'--" ++ w ++ "'"
  match found with
  | [] => .error ("unrecognized option " ++ quote arg)
  | (word, arity, meaning) :: _ =>
    if !agree found then
      .error ("option " ++ quote arg ++ " is ambiguous; possibilities:" ++
        found.flatMap fun w => ' ' :: quote w.1)
    else
      match arity, value with
      | .plain, some _ => .error ("option " ++ quote word ++ " doesn't allow an argument")
      | .plain, none | .optional, none => .ok ((meaning, none), rest)
      | .required, none =>
        match rest with
        | v :: rest => .ok ((meaning, some v), rest)
        | [] => .error ("option " ++ quote word ++ " requires an argument")
      | _, some v => .ok ((meaning, some v), rest)

/-- Reads the letters of one argument; `rest` are the arguments behind it. -/
def readLetters (t : OptionTable α) (rest : List Bytes) :
    Bytes → List (Given α) × Except Bytes (List Bytes)
  | [] => ([], .ok rest)
  | c :: cs =>
    match t.letters.lookup c with
    | none => ([], .error ("invalid option -- '" ++ [c] ++ "'"))
    | some (.plain, meaning) =>
      let (gs, r) := readLetters t rest cs
      ((meaning, none) :: gs, r)
    | some (.optional, meaning) => ([(meaning, if cs.isEmpty then none else some cs)], .ok rest)
    | some (.required, meaning) =>
      if !cs.isEmpty then ([(meaning, some cs)], .ok rest)
      else
        match rest with
        | v :: rest => ([(meaning, some v)], .ok rest)
        | [] => ([], .error ("option requires an argument -- '" ++ [c] ++ "'"))

/-- Reads arguments; `n` bounds their number. -/
def readUpTo (t : OptionTable α) (n : Nat) (args : List Bytes) : Arguments α :=
  match n with
  | 0 => {}
  | n + 1 =>
    match args with
    | [] => {}
    | arg :: rest =>
      if t.isOperand arg then { operands := args }
      else
        match arg with
        | ['-', '-'] => { operands := rest }
        | '-' :: '-' :: word =>
          match t.readWord word rest with
          | .ok (g, rest) => (readUpTo t n rest).withOption g
          | .error e => { fault := some e }
        | '-' :: c :: cs =>
          let (gs, r) := t.readLetters rest (c :: cs)
          match r with
          | .ok rest => gs.foldr .withOption (readUpTo t n rest)
          | .error e => { options := gs, fault := some e }
        | operand =>
          if t.permutes then (readUpTo t n rest).withOperand operand else { operands := args }

/-- Tells the options among arguments from the operands. -/
def read (t : OptionTable α) (args : List Bytes) : Arguments α :=
  t.readUpTo (args.length + 1) args

end OptionTable

end LocaleForge.Utility
