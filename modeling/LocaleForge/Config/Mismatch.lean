import LocaleForge.Config.Basic
import LocaleForge.Text.Quoted
import LocaleForge.Toml.Value
import LocaleForge.Word

/-!
The ways in which a document may fail to be a configuration, with their wording.
-/

namespace LocaleForge.Config

open Toml

/-- Why a value does not fit its place. -/
inductive Mismatch where
  | wrongType (found : Value) (expected : String)
  | outOfRange (found : Int) (expected : String)
  | unknownWord (word : String) (known : List String)
  | missingField (name : String)
  /-- An array that stands for a section lacks a field without a default. -/
  | tooShort (length : Nat) (expected : String)
  | notWordOrTable
  | noWord
  | manyWords
deriving Repr

namespace Mismatch

/-- An integer as messages show it; one beyond 64 bits is shown with its width. -/
def integerText (n : Int) : String :=
  let shown := "integer `" ++ toString n ++ "`"
  if Word.holdsSigned 64 n || Word.holdsUnsigned 64 n then shown
  else if Word.holdsSigned 128 n then shown ++ " as i128"
  else shown ++ " as u128"

/-- A value as messages show it. -/
def valueText : Value → String
  | .string s => "string " ++ Text.quoted s
  | .integer n => integerText n
  | .float d => "floating point `" ++ d.text ++ "`"
  | .valueless => "number"
  | .boolean b => "boolean `" ++ (if b then "true" else "false") ++ "`"
  | .datetime => "map"
  | .array .. => "sequence"
  | .table .. => "map"

def message : Mismatch → String
  | wrongType v expected => "invalid type: " ++ valueText v ++ ", expected " ++ expected
  | outOfRange n expected => "invalid value: " ++ integerText n ++ ", expected " ++ expected
  | unknownWord w known =>
    "unknown variant `" ++ w ++ "`, expected " ++
      String.intercalate " or " (known.map fun k => "`" ++ k ++ "`")
  | missingField name => "missing field `" ++ name ++ "`"
  | tooShort n expected => "invalid length " ++ toString n ++ ", expected " ++ expected
  | notWordOrTable => "wanted string or table"
  | noWord => "wanted exactly 1 element, found 0 elements"
  | manyWords => "wanted exactly 1 element, more than 1 element"

end Mismatch

/-- Why a text is not an acceptable configuration. -/
inductive Fault where
  /-- It is not TOML, or one of its values cannot be read at all. -/
  | malformed
  | mismatch (m : Mismatch)
  | problem (p : Problem)
deriving Repr

/-- The fault of a value that is not of the expected type. -/
def Fault.unexpected : Value → String → Fault
  | .valueless, _ => malformed
  | v, expected => mismatch (.wrongType v expected)

end LocaleForge.Config
