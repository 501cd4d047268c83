import LocaleForge.Regex.Fault

/-!
Sets of bytes in brackets: single bytes, ranges, classes, and a negation in front.
-/

namespace LocaleForge.Regex

/-- How an expression is written and matched. -/
structure Dialect where
  /-- Groups and repetitions are written without backslashes. -/
  extended : Bool := false
  /-- Letters match whatever their case. -/
  ignoresCase : Bool := false
  /-- Line ends within the text count as ends. -/
  multiline : Bool := false
deriving DecidableEq, Repr

namespace Dialect

/-- A byte as it is compared. -/
def fold (d : Dialect) (c : Char) : Char :=
  if d.ignoresCase then c.toUpper else c

end Dialect

/-- An element of a bracket before it is known whether a range begins with it. -/
inductive Member where
  | byte (c : Char)
  | named (name : Bytes)
  | equivalent (name : Bytes)
  | collating (name : Bytes)

namespace Member

/-- The longest name between brackets. -/
def maxName := 31

/-- A name up to its mark and a bracket. -/
def name (mark : Char) : Bytes → Except Fault (Bytes × Bytes)
  | c :: ']' :: rest =>
    if c = mark then .ok ([], rest)
    else (name mark (']' :: rest)).map fun (n, rest) => (c :: n, rest)
  | c :: rest => (name mark rest).map fun (n, rest) => (c :: n, rest)
  | [] => .error .openBracket

/-- The member at the front of a bracket. A hyphen is one at its end only, unless `hyphen` is set. -/
def read (hyphen : Bool) : Bytes → Except Fault (Member × Bytes)
  | [] => .error .openBracket
  | '-' :: '-' :: '-' :: rest => .ok (byte '-', rest)
  | '-' :: rest =>
    if hyphen || rest.head? = some ']' then .ok (byte '-', rest) else .error .badRange
  | '[' :: mark :: rest =>
    if mark = ':' || mark = '.' || mark = '=' then do
      let (n, rest) ← name mark rest
      if maxName < n.length then .error .openBracket
      else
        let member := if mark = ':' then named n else if mark = '=' then equivalent n else collating n
        .ok (member, rest)
    else .ok (byte '[', mark :: rest)
  | c :: rest => .ok (byte c, rest)

/-- The byte that a member of a range is. -/
def bound (d : Dialect) : Member → Except Fault Char
  | byte c => .ok (d.fold c)
  | collating [c] => .ok (d.fold c)
  | collating _ => .error .badCollation
  | named _ | equivalent _ => .error .badRange

/-- The bytes that a member stands for. -/
def accepts (d : Dialect) : Member → Except Fault (Char → Bool)
  | byte c | equivalent [c] | collating [c] => .ok (d.fold · == d.fold c)
  | equivalent _ | collating _ => .error .badCollation
  | named n =>
    match ByteClass.ofWord? (Bytes.toName n) with
    | none => .error .badClass
    | some k => .ok (if d.ignoresCase && (k = .upper || k = .lower) then ByteClass.alpha.holds else k.holds)

end Member

/-- The members of a bracket up to its end; `n` bounds their number. -/
def members (d : Dialect) (n : Nat) (first : Bool) (bs : Bytes) : Except Fault ((Char → Bool) × Bytes) :=
  match n with
  | 0 => .error .openBracket
  | n + 1 => do
    let (m, rest) ← Member.read first bs
    let canBegin := match m with
      | .byte _ | .collating _ => true
      | _ => false
    let isRange := match rest with
      | '-' :: '-' :: '-' :: _ => false
      | '-' :: c :: _ => canBegin && c ≠ ']'
      | _ => false
    if canBegin && (rest.isEmpty || rest = ['-']) then .error .openBracket
    else
      let (accepts, rest) ←
        if isRange then do
          let (e, rest) ← Member.read true (rest.drop 1)
          let low ← m.bound d
          let high ← e.bound d
          if high < low then throw .badRange
          pure (fun c => low ≤ d.fold c && d.fold c ≤ high, rest)
        else do pure (← m.accepts d, rest)
      match rest with
      | [] => .error .openBracket
      | ']' :: rest => .ok (accepts, rest)
      | rest =>
        let (others, rest) ← members d n false rest
        .ok (fun c => accepts c || others c, rest)

/-- A set behind its opening bracket. -/
def bracket (d : Dialect) (bs : Bytes) : Except Fault ((Char → Bool) × Bytes) :=
  match bs with
  | [] | ['^'] => .error .malformed
  | '^' :: rest =>
    (members d (rest.length + 1) true rest).map fun (accepts, rest) =>
      (fun c => !accepts c && !(d.multiline && c == '\n'), rest)
  | _ => members d (bs.length + 1) true bs

/-- The content of a set looks like the name of a class: it stands between colons and holds neither
ranges nor classes. -/
def isBareClass (content : Bytes) : Bool :=
  let names := (content.drop 1).dropLast
  let holdsNamed := (names.zip (names.drop 1)).any fun (a, b) => a = '[' && ['.', ':', '='].contains b
  2 ≤ content.length && content.head? = some ':' && content.getLast? = some ':' &&
    names.any (· != ':') && !names.contains '-' && !holdsNamed

/-- One of the sets of an expression without faults looks like the name of a class. `n` bounds the
length. -/
def hasBareClass (d : Dialect) (n : Nat) (bs : Bytes) : Bool :=
  match n with
  | 0 => false
  | n + 1 =>
    match bs with
    | [] => false
    | '\\' :: _ :: rest => hasBareClass d n rest
    | '[' :: rest =>
      match bracket d rest with
      | .error _ => false
      | .ok (_, behind) =>
        let content := rest.take (rest.length - behind.length - 1)
        let content := if content.head? = some '^' then content.drop 1 else content
        isBareClass content || hasBareClass d n behind
    | _ :: rest => hasBareClass d n rest

end LocaleForge.Regex
