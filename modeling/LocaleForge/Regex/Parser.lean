import LocaleForge.Decimal.Numeral
import LocaleForge.Regex.Basic
import LocaleForge.Regex.Bracket

/-!
Reading regular expressions, in their basic and their extended form.
-/

namespace LocaleForge.Regex

/-- An element of the text of an expression. Operators know the byte that they are written with. -/
inductive Token where
  | stop
  | byte (c : Char)
  | oneOf (accepts : Char → Bool)
  | anchor (a : Anchor)
  | reference (group : Nat)
  | alternative
  | openGroup
  | closeGroup
  | openCount
  | closeCount
  | star
  | plus
  | optional
  | bracket
  | backslash

/-- A word is made of letters, digits and low lines. -/
def isWordByte (c : Char) : Bool :=
  c.isAlphanum || c == '_'

namespace Token

/-- The token of a byte behind a backslash, other than where the dialects differ. -/
def escaped (c : Char) : Token :=
  match c with
  | '<' => anchor .wordStart
  | '>' => anchor .wordEnd
  | 'b' => anchor .wordEdge
  | 'B' => anchor .noWordEdge
  | '`' => anchor .textStart
  | '\'' => anchor .textEnd
  | 'w' => oneOf isWordByte
  | 'W' => oneOf (!isWordByte ·)
  | 's' => oneOf Bytes.isSpace
  | 'S' => oneOf (!Bytes.isSpace ·)
  | _ => if '1' ≤ c && c ≤ '9' then reference (c.toNat - '0'.toNat) else byte c

/-- The operators that are written with a backslash in one dialect and without it in the other. -/
def operator? (c : Char) : Option Token :=
  match c with
  | '|' => some alternative
  | '(' => some openGroup
  | ')' => some closeGroup
  | '\x7b' => some openCount
  | '\x7d' => some closeCount
  | '+' => some plus
  | '?' => some optional
  | _ => none

/-- The byte that an operator stands for where it can be none. -/
def literal : Token → Char
  | alternative => '|'
  | openGroup => '('
  | closeGroup => ')'
  | openCount => '\x7b'
  | closeCount => '\x7d'
  | star => '*'
  | plus => '+'
  | optional => '?'
  | byte c => c
  | _ => '\x00'

/-- The end of a group or an alternative comes next. -/
def endsHere (d : Dialect) (bs : Bytes) : Bool :=
  match bs with
  | [] => true
  | '\\' :: c :: _ => !d.extended && (c = ')' || c = '|')
  | c :: _ => d.extended && (c = ')' || c = '|')

/-- The token at the front of a text. With `atFront` set a caret is an anchor in both dialects. -/
def read (d : Dialect) (atFront : Bool) : Bytes → Token × Bytes
  | [] => (stop, [])
  | ['\\'] => (backslash, [])
  | '\\' :: c :: rest =>
    match operator? c with
    | some t => (if d.extended then byte c else t, rest)
    | none => (escaped c, rest)
  | '*' :: rest => (star, rest)
  | '[' :: rest => (bracket, rest)
  | '.' :: rest => (oneOf fun c => !(d.multiline && c == '\n'), rest)
  | '^' :: rest => (if d.extended || atFront then anchor .lineStart else byte '^', rest)
  | '$' :: rest => (if d.extended || endsHere d rest then anchor .lineEnd else byte '$', rest)
  | c :: rest =>
    match operator? c with
    | some t => (if d.extended then t else byte c, rest)
    | none => (byte c, rest)

end Token

/-- A place in the text of an expression. -/
structure Place where
  token : Token
  rest : Bytes
  groups : Nat := 0
  /-- The groups that have ended. -/
  closed : List Nat := []

/-- Largest number of repetitions. -/
def maxCount := 32767

/-- Goes on to the next token. -/
def Place.next (p : Place) (d : Dialect) (atFront : Bool) : Place :=
  let (token, rest) := Token.read d atFront p.rest
  { p with token, rest }

/-- A number of repetitions up to a comma or a brace. Nothing stands for no digits. -/
def count (d : Dialect) (n : Nat) (p : Place) (value : Except Fault (Option Nat)) :
    Except Fault (Option Nat) × Place :=
  match n with
  | 0 => (.error .badCount, p)
  | n + 1 =>
    let p := p.next d false
    match p.token with
    | .stop => (.error .openCount, p)
    | .closeCount | .byte ',' => (value, p)
    | t =>
      let isDigit := match t with
        | .byte c => c.isDigit
        | _ => false
      count d n p (if isDigit then
        value.map fun v => some (min (maxCount + 1) (v.getD 0 * 10 + (t.literal.toNat - '0'.toNat)))
      else .error .badCount)

/-- The bounds of a repetition, up to its closing brace. -/
def bounds (d : Dialect) (p : Place) : Except Fault ((Nat × Option Nat) × Place) := do
  let isComma (p : Place) : Bool := match p.token with
    | .byte ',' => true
    | _ => false
  let (low, p) := count d (p.rest.length + 1) p (.ok none)
  -- A fault of a number is noticed when the text has been read up to the end of the number.
  let fault (p : Place) : Fault := match p.token with
    | .stop => .openCount
    | _ => .badCount
  match low with
  | .error _ => .error (fault p)
  | .ok low =>
    if low.isNone && !isComma p then .error .badCount
    else
      let first := low.getD 0
      let (high, p) ←
        if isComma p then
          match count d (p.rest.length + 1) p (.ok none) with
          | (.ok high, p) => pure (high, p)
          | (.error _, p) => throw (fault p)
        else pure (some first, p)
      match p.token with
      | .closeCount =>
        if high.any (· < first) then .error .badCount
        else if maxCount < high.getD first then .error .tooLarge
        else .ok ((first, high), p)
      | _ => .error .badCount

/-- A part of an expression, or nothing where none is written. -/
abbrev Part := Option Regex

/-- Two parts one behind the other. -/
def join (a b : Part) : Part :=
  match a, b with
  | some r, some s => some (.sequence r s)
  | a, none => a
  | none, b => b

/-- Applies the repetitions behind a part; `n` bounds their number. -/
def repetitions (d : Dialect) (n : Nat) (r : Part) (p : Place) : Except Fault (Part × Place) :=
  match n with
  | 0 => .ok (r, p)
  | n + 1 =>
    let apply (low : Nat) (high : Option Nat) (p : Place) : Except Fault (Part × Place) :=
      let p := p.next d false
      let r := if high = some 0 then none else r.map (·.repeated low high)
      match p.token with
      | .star | .openCount => if d.extended then repetitions d n r p else .error .badRepetition
      | _ => repetitions d n r p
    match p.token with
    | .star => apply 0 none p
    | .plus => apply 1 none p
    | .optional => apply 0 (some 1) p
    | .openCount => do
      let ((low, high), p) ← bounds d p
      apply low high p
    | _ => .ok (r, p)

mutual

/-- An expression without alternatives up to the end of a repetition. `nested` says that it stands
in a group. The first argument bounds the depth of calls. -/
def expression (n : Nat) (d : Dialect) (p : Place) : Except Fault (Part × Place) :=
  match n with
  | 0 => .error .tooLarge
  | n + 1 =>
    let repeatable (r : Part) (p : Place) : Except Fault (Part × Place) :=
      repetitions d (p.rest.length + 1) r (p.next d false)
    let literal (c : Char) : Except Fault (Part × Place) :=
      repeatable (some (.one (d.fold · == d.fold c))) p
    match p.token with
    | .byte c => literal c
    | .oneOf accepts => repeatable (some (.one accepts)) p
    | .anchor a => .ok (some (.anchor a), p.next d false)
    | .reference k =>
      if p.closed.contains k then repeatable (some (.reference k)) p else .error .badReference
    | .bracket => do
      let (accepts, rest) ← bracket d p.rest
      repeatable (some (.one accepts)) { p with rest }
    | .openGroup => do
      let k := p.groups + 1
      let p := { p with groups := k }.next d true
      let (r, p) ← match p.token with
        | .closeGroup => pure (none, p)
        | _ => alternatives n d true p
      match p.token with
      | .closeGroup => repeatable (some (.group k (r.getD .empty))) { p with closed := k :: p.closed }
      | _ => .error .openGroup
    | .closeGroup => .error .closedGroup
    | .openCount => .error .badRepetition
    | .star | .plus | .optional => if d.extended then .error .badRepetition else literal p.token.literal
    | .closeCount => literal '\x7d'
    | .backslash => .error .trailingBackslash
    | .stop | .alternative => .ok (none, p)

/-- A sequence of expressions. -/
def branch (n : Nat) (d : Dialect) (nested : Bool) (p : Place) : Except Fault (Part × Place) :=
  match n with
  | 0 => .error .tooLarge
  | n + 1 => do
    let (r, p) ← expression n d p
    let done := match p.token with
      | .stop | .alternative => true
      | .closeGroup => nested
      | _ => false
    if done then return (r, p)
    let (s, p) ← branch n d nested p
    return (join r s, p)

/-- Alternatives up to the end of a group or of the text. -/
def alternatives (n : Nat) (d : Dialect) (nested : Bool) (p : Place) : Except Fault (Part × Place) :=
  match n with
  | 0 => .error .tooLarge
  | n + 1 => do
    let closed := p.closed
    let (r, p) ← branch n d nested p
    goOn closed n r p
where
  /-- Reads the alternatives behind the first ones. None can refer to the groups of another. -/
  goOn (closed : List Nat) (n : Nat) (r : Part) (p : Place) : Except Fault (Part × Place) :=
    match n with
    | 0 => .ok (r, p)
    | n + 1 =>
      match p.token with
      | .alternative => do
        let p := p.next d true
        let ends := match p.token with
          | .stop | .alternative => true
          | .closeGroup => nested
          | _ => false
        let (s, q) ← if ends then pure (none, p) else branch n d nested { p with closed }
        goOn closed n (some (.either (r.getD .empty) (s.getD .empty))) { q with closed := p.closed ++ q.closed }
      | _ => .ok (r, p)

end

/-- Reads an expression. Gives also the number of its groups. -/
def parse (d : Dialect) (bs : Bytes) : Except Fault (Regex × Nat) := do
  let start : Place := { token := .stop, rest := bs }
  let (r, p) ← alternatives (8 * bs.length + 16) d false (start.next d true)
  match p.token with
  | .stop => return (r.getD .empty, p.groups)
  | _ => throw .closedGroup

end LocaleForge.Regex
