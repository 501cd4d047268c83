import LocaleForge.Regex.Search

/-!
Scripts that edit lines: commands, and the lines that each of them is for.
-/

namespace LocaleForge.Editing

/-- A line that is named by its place or by its text. -/
inductive Address where
  | line (number : Nat)
  /-- A first line and from there on every so many lines. -/
  | steps (first step : Nat)
  | last
  /-- A line in which a pattern is found; without one the pattern that was used last counts. -/
  | found (pattern : Option Regex.Pattern)

/-- Where a range of lines ends. -/
inductive RangeEnd where
  | address (a : Address)
  /-- So many lines behind the first. -/
  | later (count : Nat)
  /-- The next line whose number is a multiple. -/
  | multiple (n : Nat)

/-- The lines that a command is for. -/
inductive Selection where
  | all
  | single (a : Address)
  | range (first : Address) (last : RangeEnd)

/-- What happens to the letters of a text. -/
inductive Casing where
  | kept
  | upper
  | lower
deriving DecidableEq, Repr

/-- The case of the first letter, where it is set apart, and of the others. -/
structure Letters where
  first : Option Casing := none
  rest : Casing := .kept
deriving DecidableEq, Repr

/-- A part of a replacement: a text and the text of a group behind it. -/
structure Piece where
  text : Bytes := []
  group : Option Nat := none
  letters : Letters := {}

/-- Where lines are written. -/
inductive Target where
  | output
  | errors
  | file (name : Bytes)
deriving DecidableEq, Repr

/-- When a substitution prints the result. -/
inductive Printing where
  | never
  | beforeRunning
  | afterwards
deriving DecidableEq, Repr

structure Substitution where
  pattern : Option Regex.Pattern
  pieces : List Piece
  /-- All matches from the first one that counts are replaced. -/
  every : Bool := false
  /-- The number of the first match that counts, or zero for the first of all. -/
  number : Nat := 0
  /-- The result is run as a command, whose output takes its place. -/
  runs : Bool := false
  prints : Printing := .never
  target : Option Target := none

/-- When a jump is made. -/
inductive Condition where
  | always
  /-- After a substitution was made. -/
  | substituted
  | notSubstituted
deriving DecidableEq, Repr

/-- What a command does with the pattern space, the line that is worked on, and the hold space beside
it. -/
inductive Act where
  | nothing
  | append (text : Bytes)
  | insert (text : Bytes)
  | change (text : Bytes)
  /-- Goes on at another command of the script. -/
  | goTo (index : Nat)
  /-- Goes on at a label, or at the end of the script for an empty one. -/
  | jump (condition : Condition) (label : Bytes)
  | delete
  | deleteFirst
  /-- Runs a command and prints its output; an empty command stands for the pattern space, which the
  output replaces. -/
  | run (command : Bytes)
  | fileName
  | lineNumber
  | get
  | getMore
  | hold
  | holdMore
  | exchange
  | clear
  /-- Prints the line unambiguously, cut to a width. -/
  | list (width : Option Nat)
  | next
  | nextMore
  | print
  | printFirst
  | quit (prints : Bool) (status : Nat)
  | appendFile (name : Bytes)
  | appendLine (name : Bytes)
  | substitute (s : Substitution)
  | write (target : Target)
  | writeFirst (target : Target)
  | translate (table : List (Char × Char))

/-- The act with another text, for the acts that have one. -/
def Act.withText (text : Bytes) : Act → Act
  | .append _ => .append text
  | .insert _ => .insert text
  | .change _ => .change text
  | .run _ => .run text
  | a => a

/-- A command of a script. -/
structure Instruction where
  selection : Selection := .all
  /-- It is for the lines that are not selected. -/
  negated : Bool := false
  act : Act := .nothing

/-- A script. A block is a jump over its commands for the lines that it is not for. -/
structure Script where
  instructions : Array Instruction := #[]
  labels : List (Bytes × Nat) := []
  /-- Lines are printed on demand only. -/
  silent : Bool := false

end LocaleForge.Editing
