import LocaleForge.Json.Basic

/-!
Reading JSON values made of strings. Any other value, a number for instance, is refused.
-/

namespace LocaleForge.Json

def isBlank (c : Char) : Bool :=
  c == ' ' || c == '\t' || c == '\n' || c == '\r'

def skipBlanks (cs : List Char) : List Char :=
  cs.dropWhile isBlank

def hexValue? (c : Char) : Option Nat :=
  if '0' ≤ c ∧ c ≤ '9' then some (c.toNat - '0'.toNat)
  else if 'a' ≤ c ∧ c ≤ 'f' then some (c.toNat - 'a'.toNat + 10)
  else if 'A' ≤ c ∧ c ≤ 'F' then some (c.toNat - 'A'.toNat + 10)
  else none

/-- The number written with four hexadecimal digits. -/
def hexUnit? : List Char → Option (Nat × List Char)
  | a :: b :: c :: d :: cs => do
    some ((((← hexValue? a) * 16 + (← hexValue? b)) * 16 + (← hexValue? c)) * 16 + (← hexValue? d), cs)
  | _ => none

/-- The character behind a backslash and `u`; one beyond 16 bits takes two such escapes. -/
def unicodeEscape? (cs : List Char) : Option (Char × List Char) := do
  let (u, cs) ← hexUnit? cs
  if 0xD800 ≤ u ∧ u ≤ 0xDBFF then
    match cs with
    | '\\' :: 'u' :: cs =>
      let (v, cs) ← hexUnit? cs
      if 0xDC00 ≤ v ∧ v ≤ 0xDFFF then
        some (Char.ofNat (0x10000 + (u - 0xD800) * 0x400 + (v - 0xDC00)), cs)
      else none
    | _ => none
  else if 0xDC00 ≤ u ∧ u ≤ 0xDFFF then none
  else some (Char.ofNat u, cs)

/-- The character behind a backslash. -/
def escape? : List Char → Option (Char × List Char)
  | '"' :: cs => some ('"', cs)
  | '\\' :: cs => some ('\\', cs)
  | '/' :: cs => some ('/', cs)
  | 'b' :: cs => some (Char.ofNat 8, cs)
  | 'f' :: cs => some (Char.ofNat 12, cs)
  | 'n' :: cs => some ('\n', cs)
  | 'r' :: cs => some ('\r', cs)
  | 't' :: cs => some ('\t', cs)
  | 'u' :: cs => unicodeEscape? cs
  | _ => none

/-- The rest of a string up to its closing quote; `n` bounds the number of characters. -/
def stringTail? : Nat → List Char → Option (List Char × List Char)
  | 0, _ => none
  | _ + 1, [] => none
  | n + 1, c :: cs =>
    if c = '"' then some ([], cs)
    else if c = '\\' then do
      let (e, cs) ← escape? cs
      let (s, cs) ← stringTail? n cs
      some (e :: s, cs)
    else if c.toNat < 32 then none
    else do
      let (s, cs) ← stringTail? n cs
      some (c :: s, cs)

/-- A string behind its opening quote. -/
def string? (cs : List Char) : Option (String × List Char) :=
  (stringTail? (cs.length + 1) cs).map fun (s, rest) => (String.ofList s, rest)

/-- The items of a list behind the first one, up to the closing bracket. -/
def moreItems? (value : List Char → Option (Json × List Char)) :
    Nat → List Char → Option (List Json × List Char)
  | 0, _ => none
  | n + 1, cs =>
    match skipBlanks cs with
    | ']' :: cs => some ([], cs)
    | ',' :: cs => do
      let (v, cs) ← value cs
      let (vs, cs) ← moreItems? value n cs
      some (v :: vs, cs)
    | _ => none

/-- One field of a record. -/
def field? (value : List Char → Option (Json × List Char)) (cs : List Char) :
    Option ((String × Json) × List Char) :=
  match skipBlanks cs with
  | '"' :: cs => do
    let (k, cs) ← string? cs
    match skipBlanks cs with
    | ':' :: cs =>
      let (v, cs) ← value cs
      some ((k, v), cs)
    | _ => none
  | _ => none

/-- The fields of a record behind the first one, up to the closing brace. -/
def moreFields? (value : List Char → Option (Json × List Char)) :
    Nat → List Char → Option (List (String × Json) × List Char)
  | 0, _ => none
  | n + 1, cs =>
    match skipBlanks cs with
    | '\x7d' :: cs => some ([], cs)
    | ',' :: cs => do
      let (f, cs) ← field? value cs
      let (fs, cs) ← moreFields? value n cs
      some (f :: fs, cs)
    | _ => none

/-- A value; `depth` bounds the nesting. -/
def value? (depth : Nat) (cs : List Char) : Option (Json × List Char) :=
  match depth with
  | 0 => none
  | depth + 1 =>
    match skipBlanks cs with
    | '"' :: cs => (string? cs).map fun (s, cs) => (.string s, cs)
    | '[' :: cs =>
      match skipBlanks cs with
      | ']' :: cs => some (.list [], cs)
      | cs => do
        let (v, cs) ← value? depth cs
        let (vs, cs) ← moreItems? (value? depth) (cs.length + 1) cs
        some (.list (v :: vs), cs)
    | '\x7b' :: cs =>
      match skipBlanks cs with
      | '\x7d' :: cs => some (.record [], cs)
      | cs => do
        let (f, cs) ← field? (value? depth) cs
        let (fs, cs) ← moreFields? (value? depth) (cs.length + 1) cs
        some (.record (f :: fs), cs)
    | _ => none

/-- The value of a text that holds nothing else. -/
def parse? (s : String) : Option Json := do
  let (v, rest) ← value? (s.length + 1) s.toList
  if (skipBlanks rest).isEmpty then some v else none

/-- The strings of a list of strings. -/
def strings? : Json → Option (List String)
  | list items => items.mapM fun
    | string s => some s
    | _ => none
  | _ => none

end LocaleForge.Json
