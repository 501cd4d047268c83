import LocaleForge.Decimal.Numeral
import LocaleForge.Editing.Fault

/-!
The text of a script while it is read: the place that has been reached, parts that are set off by a
delimiter, and escapes.
-/

namespace LocaleForge.Editing

/-- Where a part of a script comes from. -/
inductive Origin where
  /-- An argument, by its number among such arguments. -/
  | expression (number : Nat)
  | file (name : Bytes)
deriving DecidableEq, Repr

/-- A part of a script from the place on that has been reached. -/
structure Source where
  origin : Origin
  rest : Bytes
  /-- The number of bytes in front of the place. -/
  consumed : Nat := 0
  line : Nat := 1

namespace Source

/-- The place as messages name it. -/
def place (s : Source) : Bytes :=
  match s.origin with
  | .expression n => "-e expression #" ++ Bytes.ofNat n ++ ", char " ++ Bytes.ofNat s.consumed ++ ": "
  | .file name => "file " ++ name ++ " line " ++ Bytes.ofNat s.line ++ ": "

/-- The place that is `n` bytes further on. -/
def drop (s : Source) (n : Nat) : Source :=
  { s with
    rest := s.rest.drop n
    consumed := s.consumed + min n s.rest.length
    line := s.line + (s.rest.take n).count '\n' }

/-- The place from which on only `rest` is left. -/
def goTo (s : Source) (rest : Bytes) : Source :=
  s.drop (s.rest.length - rest.length)

end Source

/-- A place within a set of bytes in brackets. -/
inductive Within where
  /-- Behind the opening bracket. -/
  | front
  /-- Behind a caret there. -/
  | caret
  | members
  /-- Behind a bracket that may open a class. -/
  | bracket
  | named (mark : Char)
  /-- Behind the mark that may close a class. -/
  | mark (mark : Char)
deriving DecidableEq, Repr

namespace Within

/-- The place behind one more byte; nothing at the end of the set. -/
def next (c : Char) : Within → Option Within
  | front => if c = '^' then some caret else if c = ']' then some members else byte .members
  | caret => if c = ']' then some members else byte .members
  | w => byte w
where
  byte (w : Within) : Option Within :=
    match w with
    | bracket =>
      if c = '.' || c = ':' || c = '=' then some (named c)
      else if c = '[' then some bracket
      else if c = ']' then none
      else some members
    | named m => if c = m then some (mark m) else some (named m)
    | mark m =>
      if c = ']' then some members
      else if c = '[' then some (mark m)
      else some (named m)
    | _ => if c = '[' then some bracket else if c = ']' then none else some members

end Within

/-- A text up to a delimiter, with what stands behind it. No text comes out where a line ends first. A
backslash in front of the delimiter makes that part of the text. In a pattern brackets hide it, too. -/
def delimited (isPattern : Bool) (delimiter : Char) (within : Option Within) : Bytes → Option Bytes × Bytes
  | [] => (none, [])
  | '\n' :: rest => (none, '\n' :: rest)
  | c :: rest =>
    let more (cs : Bytes) (r : Option Bytes × Bytes) : Option Bytes × Bytes := (r.1.map (cs ++ ·), r.2)
    match within with
    | some w => more [c] (delimited isPattern delimiter (w.next c) rest)
    | none =>
      if c = delimiter then (some [], rest)
      else if c = '\\' then
        match rest with
        | [] => (none, [])
        | d :: rest =>
          let text :=
            if d = '\n' || (d = 'n' && isPattern) then ['\n']
            else if d = delimiter && (isPattern || d ≠ '&') then [d]
            else ['\\', d]
          more text (delimited isPattern delimiter none rest)
      else more [c] (delimited isPattern delimiter (if c = '[' && isPattern then some .front else none) rest)

/-- What a text is for, which decides on the escapes that are left to later readers. -/
inductive Usage where
  | pattern
  | replacement
  /-- Every backslash goes. -/
  | text
deriving DecidableEq, Repr

/-- The letters that stand for bytes. -/
def letter? (c : Char) : Option Char :=
  [('a', '\x07'), ('f', '\x0c'), ('n', '\n'), ('r', '\x0d'), ('t', '\t'), ('v', '\x0b')].lookup c

/-- The base and the largest number of digits of a numeric escape. -/
def base? (c : Char) : Option (Nat × Nat) :=
  [('d', 10, 3), ('o', 8, 3), ('x', 16, 2)].lookup c

/-- The byte of a key that is held down with the control key. -/
def control (c : Char) : Char :=
  Bytes.byte (c.toUpper.toNat ^^^ 64)

/-- Replaces escapes by the bytes that they stand for. `n` bounds the length. -/
def unescape (u : Usage) (n : Nat) (bs : Bytes) : Except Fault Bytes :=
  match n with
  | 0 => .ok bs
  | n + 1 =>
    let more (cs rest : Bytes) : Except Fault Bytes := (unescape u n rest).map (cs ++ ·)
    match bs with
    | '\\' :: c :: rest =>
      match base? c with
      | some (base, most) =>
        let ds := (rest.takeWhile (Decimal.isDigitIn base)).take most
        let b := if ds.isEmpty then c else Bytes.byte (Decimal.ofDigits base ds)
        let isLiteral := u = .replacement && (b = '&' || b = '\\')
        more (if isLiteral then ['\\', b] else [b]) (rest.drop ds.length)
      | none =>
        if c = 'c' then
          match rest with
          | [] => .ok (if u = .pattern then ['\\', 'c'] else ['\\'])
          | '\\' :: '\\' :: rest => more [control '\\'] rest
          | '\\' :: _ => .error .recursiveControl
          | k :: rest => more [control k] rest
        else
          match letter? c with
          | some b => more [b] rest
          | none => more (if u = .text then [c] else ['\\', c]) rest
    | c :: rest => more [c] rest
    | [] => .ok []

/-- The text of a command up to the end of its line. A backslash keeps the end of a line in it. Tells
also whether the text stops at a backslash behind which nothing is left. -/
def textLine : Bytes → Bytes × Bytes × Bool
  | [] => ([], [], false)
  | '\n' :: rest => ([], rest, false)
  | ['\\'] => ([], [], true)
  | '\\' :: c :: rest =>
    let (text, rest, goesOn) := textLine rest
    ('\\' :: c :: text, rest, goesOn)
  | c :: rest =>
    let (text, rest, goesOn) := textLine rest
    (c :: text, rest, goesOn)

end LocaleForge.Editing
