import LocaleForge.Bytes

/-!
Patterns of scripts: a star stands for any text, a question mark for a byte, brackets for a byte of a set.
A backslash takes the meaning from the byte behind it.
-/

namespace LocaleForge.Shell

/-- A byte of an expanded word, or a place where quotes stood. -/
inductive Glyph where
  /-- A byte; one that is `literal` means nothing else in patterns. -/
  | byte (c : Char) (literal : Bool)
  | quote
deriving DecidableEq, Repr

namespace Glyph

def ofBytes (literal : Bool) (bs : Bytes) : List Glyph :=
  bs.map (.byte · literal)

/-- The bytes without regard to quotes. -/
def plain : List Glyph → Bytes
  | [] => []
  | .byte c _ :: gs => c :: plain gs
  | .quote :: gs => plain gs

/-- The text of a pattern: a backslash goes before a literal byte, unless one stands there already. -/
def pattern (gs : List Glyph) : Bytes :=
  go true gs
where
  go (escapes : Bool) : List Glyph → Bytes
    | [] => []
    | .quote :: gs => go escapes gs
    | .byte c true :: gs => if escapes then '\\' :: c :: go true gs else c :: go true gs
    | .byte '\\' false :: gs => '\\' :: go (!escapes) gs
    | .byte c false :: gs => c :: go true gs

end Glyph

/-- What a set of bytes consists of. -/
inductive Member where
  | range (low high : Char)
  | named (c : ByteClass)
deriving DecidableEq, Repr

/-- The value of a byte as a number with a sign, which orders ranges. -/
def signedCode (c : Char) : Int :=
  if c.toNat < 128 then c.toNat else c.toNat - 256

def Member.holds (c : Char) : Member → Bool
  | range low high => signedCode low ≤ signedCode c && signedCode c ≤ signedCode high
  | named k => k.holds c

/-- An element of a pattern. -/
inductive Wildcard where
  | byte (c : Char)
  | single
  | many
  | oneOf (negated : Bool) (members : List Member)
deriving DecidableEq, Repr

namespace Wildcard

/-- The class that a text names, as in `:alpha:]`, with the text behind it. -/
def class? (bs : Bytes) : Option (ByteClass × Bytes) :=
  ByteClass.all.findSome? fun k =>
    let name := ':' :: k.word.toList ++ [':', ']']
    if name.isPrefixOf bs then some (k, bs.drop name.length) else none

/-- The members of a set up to its closing bracket, and the text behind it. A bracket in the first place
is a member. `n` bounds the number of members. -/
def members (n : Nat) (first : Bool) (bs : Bytes) : Option (List Member × Bytes) :=
  match n, bs with
  | 0, _ | _, [] => none
  | n + 1, c :: rest =>
    if c = ']' && !first then some ([], rest)
    else
      match (if c = '[' then class? rest else none) with
      | some (k, rest) => (members n false rest).map fun (ms, rest) => (.named k :: ms, rest)
      | none =>
        let (c?, rest) := if c = '\\' then (rest.head?, rest.tail) else (some c, rest)
        c?.bind fun c =>
          let add (high : Char) (rest : Bytes) : Option (List Member × Bytes) :=
            (members n false rest).map fun (ms, rest) => (.range c high :: ms, rest)
          match rest with
          | '-' :: e :: more =>
            if e = ']' then add c rest
            else if e = '\\' then more.head?.bind fun e => add e more.tail
            else add e more
          | _ => add c rest

/-- The elements of a pattern; `n` bounds their number. -/
def parseUpTo (n : Nat) (bs : Bytes) : List Wildcard :=
  match n, bs with
  | 0, _ | _, [] => []
  | n + 1, '\\' :: c :: rest => byte c :: parseUpTo n rest
  | n + 1, '*' :: rest => many :: parseUpTo n rest
  | n + 1, '?' :: rest => single :: parseUpTo n rest
  | n + 1, '[' :: rest =>
    let negated := rest.head? = some '!'
    let inner := if negated then rest.tail else rest
    match members (inner.length + 1) true inner with
    | some (ms, rest) => oneOf negated ms :: parseUpTo n rest
    | none => byte '[' :: parseUpTo n rest
  | n + 1, c :: rest => byte c :: parseUpTo n rest

def parse (bs : Bytes) : List Wildcard :=
  parseUpTo bs.length bs

/-- Some end of the text satisfies `rest`. -/
def someSuffix (rest : Bytes → Bool) : Bytes → Bool
  | [] => rest []
  | c :: cs => rest (c :: cs) || someSuffix rest cs

/-- The pattern matches the whole text. -/
def accepts : List Wildcard → Bytes → Bool
  | [], cs => cs.isEmpty
  | many :: ws, cs => someSuffix (accepts ws) cs
  | _ :: _, [] => false
  | byte b :: ws, c :: cs => b == c && accepts ws cs
  | single :: ws, _ :: cs => accepts ws cs
  | oneOf negated ms :: ws, c :: cs => (ms.any (·.holds c) != negated) && accepts ws cs

end Wildcard

/-- The pattern matches a whole text, which ends before a zero. -/
def Wildcard.acceptsText (ws : List Wildcard) (text : Bytes) : Bool :=
  accepts ws (text.takeWhile (· ≠ '\x00'))

/-- The glyphs of a value without the end of it that a pattern matches, the shortest or the longest. -/
def trimEnd (longest : Bool) (ws : List Wildcard) (value : List Glyph) : List Glyph :=
  let starts := List.range (value.length + 1)
  match (if longest then starts else starts.reverse).find? fun k =>
    Wildcard.acceptsText ws (Glyph.plain (value.drop k)) with
  | some k => value.take k
  | none => value

/-- The glyphs of a value without the front of it that a pattern matches, the shortest or the longest. -/
def trimFront (longest : Bool) (ws : List Wildcard) (value : List Glyph) : List Glyph :=
  let ends := List.range (value.length + 1)
  match (if longest then ends.reverse else ends).find? fun k =>
    Wildcard.acceptsText ws (Glyph.plain (value.take k)) with
  | some k => value.drop k
  | none => value

end LocaleForge.Shell
