import LocaleForge.Bytes

/-!
What can be wrong with the text of a regular expression.
-/

namespace LocaleForge.Regex

inductive Fault where
  | malformed
  | badCollation
  | badClass
  | trailingBackslash
  | badReference
  | openBracket
  | openGroup
  | openCount
  | badCount
  | badRange
  | badRepetition
  | tooLarge
  | closedGroup
deriving DecidableEq, Repr

def Fault.message : Fault → String
  | malformed => "Invalid regular expression"
  | badCollation => "Invalid collation character"
  | badClass => "Invalid character class name"
  | trailingBackslash => "Trailing backslash"
  | badReference => "Invalid back reference"
  | openBracket => "Unmatched [, [^, [:, [., or [="
  | openGroup => "Unmatched ( or \\("
  | openCount => "Unmatched \\\x7b"
  | badCount => "Invalid content of \\\x7b\\\x7d"
  | badRange => "Invalid range end"
  | badRepetition => "Invalid preceding regular expression"
  | tooLarge => "Regular expression too big"
  | closedGroup => "Unmatched ) or \\)"

end LocaleForge.Regex
