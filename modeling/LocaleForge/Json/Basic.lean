/-!
The part of JSON made of strings, lists and records, and its compact text.
-/

namespace LocaleForge

/-- A JSON value made of strings. -/
inductive Json where
  | string (text : String)
  | list (items : List Json)
  | record (fields : List (String × Json))
deriving Repr

namespace Json

/-- A character inside a string: quotes, backslashes and control characters are escaped. -/
def escapeChar (c : Char) : List Char :=
  if c = '"' then ['\\', '"']
  else if c = '\\' then ['\\', '\\']
  else if c = '\n' then ['\\', 'n']
  else if c = '\r' then ['\\', 'r']
  else if c = '\t' then ['\\', 't']
  else if c.toNat = 8 then ['\\', 'b']
  else if c.toNat = 12 then ['\\', 'f']
  else if c.toNat < 32 then
    ['\\', 'u', '0', '0', Nat.digitChar (c.toNat / 16), Nat.digitChar (c.toNat % 16)]
  else [c]

/-- The characters of a string value. -/
def stringChars (s : String) : List Char :=
  '"' :: s.toList.flatMap escapeChar ++ ['"']

mutual

/-- The characters of a value without blanks. -/
def chars : Json → List Char
  | string s => stringChars s
  | list items => '[' :: itemsChars items ++ [']']
  | record fields => '\x7b' :: fieldsChars fields ++ ['\x7d']

/-- The items of a list with commas between them. -/
def itemsChars : List Json → List Char
  | [] => []
  | [v] => v.chars
  | v :: w :: vs => v.chars ++ ',' :: itemsChars (w :: vs)

/-- The fields of a record with commas between them. -/
def fieldsChars : List (String × Json) → List Char
  | [] => []
  | [(k, v)] => stringChars k ++ ':' :: v.chars
  | (k, v) :: f :: fs => stringChars k ++ ':' :: v.chars ++ ',' :: fieldsChars (f :: fs)

end

/-- The text of a value without blanks. -/
def render (v : Json) : String :=
  String.ofList v.chars

end Json

end LocaleForge
