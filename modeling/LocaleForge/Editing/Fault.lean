import LocaleForge.Regex.Fault
import LocaleForge.Bytes

/-!
What can be wrong with a script.
-/

namespace LocaleForge.Editing

inductive Fault where
  | manyNegations
  | unexpectedComma
  | stepFirst
  | openBlock
  | unexpectedClose
  | junkBehindCommand
  | textExpected
  | closeAddressed
  | labelAddressed
  | commentAddressed
  | missingCommand
  | oneAddress
  | openPattern
  | openSubstitution
  | openTranslation
  | unknownFlag
  | manyPrints
  | manyGlobals
  | manyNumbers
  | zeroNumber
  | unequalTranslation
  | newerVersion
  | lineZero
  | unknownCommand (c : Char)
  | missingLabel
  | recursiveControl
  | missingFile
  | flagsWithoutPattern
  | noPattern
  | missingGroup (k : Nat)
  | disallowed
  | pattern (fault : Regex.Fault)
  /-- A class of bytes has one pair of brackets only. -/
  | bareClass
  | unknownLabel (name : Bytes)
deriving DecidableEq, Repr

namespace Fault

def message : Fault → Bytes
  | manyNegations => "multiple `!'s"
  | unexpectedComma => "unexpected `,'"
  | stepFirst => "invalid usage of +N or ~N as first address"
  | openBlock => "unmatched `\x7b'"
  | unexpectedClose => "unexpected `\x7d'"
  | junkBehindCommand => "extra characters after command"
  | textExpected => "expected \\ after `a', `c' or `i'"
  | closeAddressed => "`\x7d' doesn't want any addresses"
  | labelAddressed => ": doesn't want any addresses"
  | commentAddressed => "comments don't accept any addresses"
  | missingCommand => "missing command"
  | oneAddress => "command only uses one address"
  | openPattern => "unterminated address regex"
  | openSubstitution => "unterminated `s' command"
  | openTranslation => "unterminated `y' command"
  | unknownFlag => "unknown option to `s'"
  | manyPrints => "multiple `p' options to `s' command"
  | manyGlobals => "multiple `g' options to `s' command"
  | manyNumbers => "multiple number options to `s' command"
  | zeroNumber => "number option to `s' command may not be zero"
  | unequalTranslation => "strings for `y' command are different lengths"
  | newerVersion => "expected newer version of sed"
  | lineZero => "invalid usage of line address 0"
  | unknownCommand c => "unknown command: `" ++ [c, '\'']
  | missingLabel => "\":\" lacks a label"
  | recursiveControl => "recursive escaping after \\c not allowed"
  | missingFile => "missing filename in r/R/w/W commands"
  | flagsWithoutPattern => "cannot specify modifiers on empty regexp"
  | noPattern => "no previous regular expression"
  | missingGroup k => "invalid reference \\" ++ Bytes.ofNat k ++ " on `s' command's RHS"
  | disallowed => "e/r/w commands disabled in sandbox mode"
  | pattern fault => fault.message
  | bareClass => "character class syntax is [[:space:]], not [:space:]"
  | unknownLabel name => "can't find label for jump to `" ++ name ++ ['\'']

/-- The message does not say where in the script the fault lies, and the status is another one. -/
def isSevere : Fault → Bool
  | bareClass | unknownLabel _ => true
  | _ => false

end Fault

end LocaleForge.Editing
