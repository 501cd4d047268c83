import LocaleForge.Decimal.Shortest
import LocaleForge.Word

/-!
Values of a TOML document. The fields of a table are kept sorted by key. Tables and arrays remember
how they were written, since that decides whether a later line may extend them.
-/

namespace LocaleForge.Toml

/-- How a table came about. -/
inductive TableKind where
  /-- Only mentioned on the way to another table in a header. -/
  | implied
  /-- Made by a dotted key. -/
  | dotted
  /-- Opened by a header of its own, or the root. -/
  | opened
  /-- Written between braces. -/
  | inlined
deriving DecidableEq, Repr

/-- A value of a document. -/
inductive Value where
  | string (text : String)
  /-- An integer of at most 128 bits. -/
  | integer (value : Int)
  /-- A number with a fraction or an exponent. -/
  | float (value : Decimal.Number)
  /-- A number in an accepted form that has no value, such as one beyond every range. -/
  | valueless
  | boolean (value : Bool)
  | datetime
  /-- `grows` says that it was made by headers in double brackets. -/
  | array (grows : Bool) (items : List Value)
  | table (kind : TableKind) (fields : List (String × Value))
deriving Repr

namespace Value

/-- The integer, if it is within range. -/
def ofInt (n : Int) : Value :=
  if Word.holdsSigned 128 n || Word.holdsUnsigned 128 n then integer n else valueless

end Value

/-- The fields of a table, sorted by key. -/
abbrev Fields := List (String × Value)

namespace Fields

def get? (key : String) (fields : Fields) : Option Value :=
  fields.lookup key

/-- Sets a field. -/
def set (key : String) (value : Value) : Fields → Fields
  | [] => [(key, value)]
  | (k, v) :: rest =>
    if key < k then (key, value) :: (k, v) :: rest
    else if key = k then (key, value) :: rest
    else (k, v) :: set key value rest

end Fields

end LocaleForge.Toml
