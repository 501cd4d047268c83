/-!
File patterns. A star stands for any text within one path segment, a double star that fills a whole
segment for any number of segments, a question mark for one character, and brackets for one
character of a set or outside it.
-/

namespace LocaleForge.Glob

/-- The separator of path segments. -/
def separator : Char := '/'

/-- A part of a set of characters. -/
inductive Range where
  | one (c : Char)
  | span (first last : Char)
deriving DecidableEq, Repr

def Range.contains : Range → Char → Bool
  | one c, d => c == d
  | span first last, d => first ≤ d && d ≤ last

/-- An element of a pattern. -/
inductive Token where
  | literal (c : Char)
  /-- One character other than the separator. -/
  | single
  /-- Any text without a separator. -/
  | many
  /-- Any number of whole segments. -/
  | deep
  | oneOf (set : List Range)
  | noneOf (set : List Range)
deriving DecidableEq, Repr

/-- What is wrong with a pattern. -/
inductive Problem where
  | range
  | wildcards
  | recursive
deriving DecidableEq, Repr

/-- A pattern's problem with the character position it is reported at. -/
structure Error where
  position : Nat
  problem : Problem
deriving DecidableEq, Repr

def Problem.text : Problem → String
  | range => "invalid range pattern"
  | wildcards => "wildcards are either regular `*` or recursive `**`"
  | recursive => "recursive wildcards must form a single path component"

def Error.message (e : Error) : String :=
  "Pattern syntax error near position " ++ toString e.position ++ ": " ++ e.problem.text

/-- The set written between brackets. -/
def ranges : List Char → List Range
  | a :: '-' :: b :: cs => .span a b :: ranges cs
  | a :: cs => .one a :: ranges cs
  | [] => []

/-- The token of a set and the characters behind its closing bracket; `cs` follows the opening one.
The bracket that closes a set is not its first character. -/
def set? (cs : List Char) : Option (Token × List Char) :=
  match cs with
  | '!' :: c :: rest =>
    let inner := rest.takeWhile (· != ']')
    match rest.drop inner.length with
    | ']' :: rest => some (.noneOf (ranges (c :: inner)), rest)
    | _ => none
  | c :: rest =>
    if c = '!' then none
    else
      let inner := rest.takeWhile (· != ']')
      match rest.drop inner.length with
      | ']' :: rest => some (.oneOf (ranges (c :: inner)), rest)
      | _ => none
  | [] => none

/-- Adds a double star to the tokens read so far, the last one first; it joins one that stands right
before it, unless that is the first token of the pattern. -/
def addDeep : List Token → List Token
  | .deep :: t :: ts => .deep :: t :: ts
  | ts => .deep :: ts

/-- Reads the tokens of a pattern from a position on; `before` is the character in front and `done`
are the tokens read so far, the last one first. `n` bounds the number of characters. -/
def tokens (n position : Nat) (before : Option Char) (done : List Token) (cs : List Char) :
    Except Error (List Token) :=
  match n with
  | 0 => .ok done.reverse
  | n + 1 =>
    match cs with
    | [] => .ok done.reverse
    | '?' :: rest => tokens n (position + 1) (some '?') (.single :: done) rest
    | '*' :: '*' :: '*' :: _ => .error ⟨position + 2, .wildcards⟩
    | '*' :: '*' :: rest =>
      if before = none ∨ before = some separator then
        match rest with
        | [] => .ok (addDeep done).reverse
        | c :: rest =>
          if c = separator then tokens n (position + 3) (some c) (addDeep done) rest
          else .error ⟨position + 2, .recursive⟩
      else .error ⟨position - 1, .recursive⟩
    | '*' :: rest => tokens n (position + 1) (some '*') (.many :: done) rest
    | '[' :: rest =>
      match set? rest with
      | some (t, rest') =>
        tokens n (position + 1 + (rest.length - rest'.length)) (some ']') (t :: done) rest'
      | none => .error ⟨position, .range⟩
    | c :: rest => tokens n (position + 1) (some c) (.literal c :: done) rest

/-- The tokens of a pattern. -/
def parse (pattern : String) : Except Error (List Token) :=
  tokens pattern.length 0 none [] pattern.toList

end LocaleForge.Glob
