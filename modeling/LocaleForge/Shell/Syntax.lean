import LocaleForge.Process.World

/-!
Scripts: words, which are still to be expanded, and commands.
-/

namespace LocaleForge.Shell

/-- What is done with the value of a parameter. -/
inductive Operation where
  | plain
  | length
  /-- A word stands in for a missing value. -/
  | default
  /-- A word takes the place of a value that is there. -/
  | alternative
  /-- A missing value is a fault, told by a word. -/
  | required
  /-- A missing value is set to a word. -/
  | assign
  /-- A pattern is cut off the end. -/
  | trimEnd (longest : Bool)
  /-- A pattern is cut off the front. -/
  | trimFront (longest : Bool)
  /-- No operation is written like this. -/
  | bad
deriving DecidableEq, Repr

mutual

/-- A part of a word. -/
inductive Piece where
  /-- A byte; a quoted one stands for itself only. -/
  | byte (c : Char) (quoted : Bool)
  /-- Quotes begin or end. -/
  | quote
  /-- The value of a parameter; with `nonempty` an empty one counts as missing. -/
  | parameter (name : Bytes) (operation : Operation) (nonempty : Bool) (word : List Piece)
  /-- The output of a command. -/
  | substitution (command : Option Command)
  | arithmetic (expression : List Piece)

/-- Where a descriptor leads to. -/
inductive Redirection where
  /-- With `forced`, a file that is there is replaced in any case. -/
  | file (descriptor : Nat) (mode : OpenMode) (forced : Bool) (path : List Piece)
  /-- The file of another descriptor. -/
  | copy (descriptor : Nat) (source : Nat)
  | close (descriptor : Nat)
  /-- A word tells the other descriptor. -/
  | copyWord (descriptor : Nat) (source : List Piece)
  /-- A text within the script, by its number. -/
  | document (descriptor : Nat) (number : Nat) (expands : Bool)

/-- A command. Lines are those of the script on which it begins. -/
inductive Command where
  | simple (line : Nat) (assignments words : List (List Piece)) (redirections : List Redirection)
  | pipeline (background : Bool) (commands : List Command)
  | redirected (line : Nat) (body : Command) (redirections : List Redirection)
  | background (line : Nat) (body : Command) (redirections : List Redirection)
  | subshell (line : Nat) (body : Command) (redirections : List Redirection)
  | negated (body : Command)
  | both (first second : Command)
  | either (first second : Command)
  | sequence (first second : Command)
  | branch (test positive : Command) (negative : Option Command)
  /-- Goes on for as long as the test succeeds, or fails if `inverted` is set. -/
  | loop (inverted : Bool) (test body : Command)
  | iterate (line : Nat) (variableName : Bytes) (words : List (List Piece)) (body : Command)
  | select (line : Nat) (subject : List Piece) (clauses : List (List (List Piece) × Option Command))
  | define (name : Bytes) (body : Command)

end

/-- A word before it is expanded. -/
abbrev Word := List Piece

/-- The text of a word without quotes and expansions. -/
def Word.plainText : Word → Bytes
  | [] => []
  | .byte c _ :: rest => c :: plainText rest
  | _ :: rest => plainText rest

/-- Parts of the word are quoted. -/
def Word.isQuoted (w : Word) : Bool :=
  w.any fun
    | .quote | .byte _ true => true
    | _ => false

/-- The bytes at the front of a word that are neither quoted nor expanded. -/
def Word.front : Word → Bytes
  | .byte c false :: rest => c :: front rest
  | _ => []

/-- The word without expansions and quotes that it is, if it is one. -/
def Word.literal? : Word → Option Bytes
  | [] => some []
  | .byte c false :: rest => (literal? rest).map (c :: ·)
  | _ => none

/-- Assigns to a variable. -/
def Word.isAssignment (w : Word) : Bool :=
  let text := Word.front w
  let name := text.takeWhile Bytes.isNameChar
  Bytes.isName name && (text.drop name.length).head? = some '='

end LocaleForge.Shell
