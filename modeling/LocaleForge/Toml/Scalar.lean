import LocaleForge.Text.Pieces
import LocaleForge.Toml.Value

/-!
The parts of a TOML line below the level of values: blanks, comments, strings, numbers, dates. A
reader takes the characters that remain and gives what it read with the characters behind it; none
means that the text is not TOML.
-/

namespace LocaleForge.Toml

def isBlank (c : Char) : Bool :=
  c == ' ' || c == '\t'

/-- May stand in comments and on one line of a string. -/
def isPlain (c : Char) : Bool :=
  c == '\t' || (0x20 ≤ c.toNat && c.toNat != 0x7F)

def skipBlanks (cs : List Char) : List Char :=
  cs.dropWhile isBlank

/-- The rest behind a newline, if there is one. -/
def newline? : List Char → Option (List Char)
  | '\n' :: cs => some cs
  | '\r' :: '\n' :: cs => some cs
  | _ => none

/-- Skips blanks and a comment up to the end of the line. -/
def skipComment (cs : List Char) : List Char :=
  match skipBlanks cs with
  | '#' :: rest => rest.dropWhile isPlain
  | rest => rest

/-- The rest behind the end of the line, which may hold a comment. -/
def endOfLine? (cs : List Char) : Option (List Char) :=
  match skipComment cs with
  | [] => some []
  | rest => newline? rest

/-- Skips blanks, comments and newlines; `n` bounds the number of lines. -/
def skipLines : Nat → List Char → List Char
  | 0, cs => cs
  | n + 1, cs =>
    let rest := skipComment cs
    match newline? rest with
    | some rest => skipLines n rest
    | none => rest

/-- Skips blanks, comments and newlines. -/
def skipSpace (cs : List Char) : List Char :=
  skipLines cs.length cs

def digitValue? (c : Char) : Option Nat :=
  if '0' ≤ c ∧ c ≤ '9' then some (c.toNat - '0'.toNat)
  else if 'a' ≤ c ∧ c ≤ 'f' then some (c.toNat - 'a'.toNat + 10)
  else if 'A' ≤ c ∧ c ≤ 'F' then some (c.toNat - 'A'.toNat + 10)
  else none

def isDigitOf (base : Nat) (c : Char) : Bool :=
  match digitValue? c with
  | some d => d < base
  | none => false

def ofDigits (base : Nat) (cs : List Char) : Nat :=
  cs.foldl (fun n c => n * base + (digitValue? c).getD 0) 0

/-- The character with this code point, if there is one. -/
def charOf? (n : Nat) : Option Char :=
  if n.isValidChar then some (Char.ofNat n) else none

/-- The character written with `n` hexadecimal digits. -/
def hexChar (n : Nat) (cs : List Char) : Option (Char × List Char) :=
  let digits := cs.take n
  if digits.length = n ∧ digits.all (isDigitOf 16) then
    (charOf? (ofDigits 16 digits)).map (·, cs.drop n)
  else none

/-- The character behind a backslash. -/
def escape : List Char → Option (Char × List Char)
  | 'b' :: cs => some (Char.ofNat 8, cs)
  | 't' :: cs => some ('\t', cs)
  | 'n' :: cs => some ('\n', cs)
  | 'f' :: cs => some (Char.ofNat 12, cs)
  | 'r' :: cs => some ('\r', cs)
  | 'e' :: cs => some (Char.ofNat 27, cs)
  | '"' :: cs => some ('"', cs)
  | '\\' :: cs => some ('\\', cs)
  | 'x' :: cs => hexChar 2 cs
  | 'u' :: cs => hexChar 4 cs
  | 'U' :: cs => hexChar 8 cs
  | _ => none

/-- The rest of a string on one line up to `quote`; `n` bounds the number of characters. -/
def lineString (quote : Char) : Nat → List Char → Option (List Char × List Char)
  | 0, _ => none
  | _ + 1, [] => none
  | n + 1, c :: cs =>
    if c = quote then some ([], cs)
    else if c = '\\' ∧ quote = '"' then do
      let (e, cs) ← escape cs
      let (s, cs) ← lineString quote n cs
      some (e :: s, cs)
    else if isPlain c then do
      let (s, cs) ← lineString quote n cs
      some (c :: s, cs)
    else none

/-- Skips blanks and newlines. -/
def skipBlankLines : List Char → List Char
  | '\r' :: '\n' :: cs => skipBlankLines cs
  | c :: cs => if isBlank c || c == '\n' then skipBlankLines cs else c :: cs
  | [] => []

/-- The rest behind a backslash at the end of a line, with the blank lines that follow it. -/
def lineEnding? (cs : List Char) : Option (List Char) :=
  (newline? (skipBlanks cs)).map skipBlankLines

/-- The rest of a string over several lines up to three quotes; up to two more quotes before those
belong to the string. -/
def blockString (quote : Char) : Nat → List Char → Option (List Char × List Char)
  | 0, _ => none
  | n + 1, cs =>
    let quotes := (cs.takeWhile (· == quote)).length
    if 3 ≤ quotes then
      if quotes ≤ 5 then some (List.replicate (quotes - 3) quote, cs.drop quotes) else none
    else
      match cs with
      | [] => none
      | '\\' :: rest =>
        if quote = '"' then
          match lineEnding? rest with
          | some rest => blockString quote n rest
          | none => do
            let (e, rest) ← escape rest
            let (s, rest) ← blockString quote n rest
            some (e :: s, rest)
        else do
          let (s, rest) ← blockString quote n rest
          some ('\\' :: s, rest)
      | '\r' :: '\n' :: rest => do
        let (s, rest) ← blockString quote n rest
        some ('\r' :: '\n' :: s, rest)
      | c :: rest =>
        if isPlain c || c == '\n' then do
          let (s, rest) ← blockString quote n rest
          some (c :: s, rest)
        else none

/-- A string of any of the four forms. -/
def string : List Char → Option (String × List Char)
  | '"' :: '"' :: '"' :: cs => block '"' cs
  | '\'' :: '\'' :: '\'' :: cs => block '\'' cs
  | '"' :: cs => line '"' cs
  | '\'' :: cs => line '\'' cs
  | _ => none
where
  /-- The newline right after the opening quotes does not count. -/
  block (quote : Char) (cs : List Char) : Option (String × List Char) :=
    let cs := (newline? cs).getD cs
    (blockString quote (cs.length + 1) cs).map fun (s, rest) => (String.ofList s, rest)
  line (quote : Char) (cs : List Char) : Option (String × List Char) :=
    (lineString quote (cs.length + 1) cs).map fun (s, rest) => (String.ofList s, rest)

/-- The digits of a number with its underscores removed; each underscore must stand between two
digits. -/
def digits? (base : Nat) (cs : List Char) : Option (List Char) :=
  let rec go : Bool → List Char → Option (List Char)
    | afterDigit, [] => if afterDigit then some [] else none
    | afterDigit, '_' :: cs => if afterDigit then go false cs else none
    | _, c :: cs => if isDigitOf base c then (go true cs).map (c :: ·) else none
  go false cs

/-- The sign of a number and what follows it. -/
def sign : List Char → Bool × List Char
  | '-' :: cs => (true, cs)
  | '+' :: cs => (false, cs)
  | cs => (false, cs)

/-- The digits of a number with its sign. -/
def signed (negative : Bool) (ds : List Char) : Int :=
  if negative then -(ofDigits 10 ds : Int) else (ofDigits 10 ds : Int)

/-- A number with its underscores removed; each must stand between two characters of the class
`isEdge`, or behind a sign. -/
def joined? (isEdge : Char → Bool) (cs : List Char) : Option (List Char) :=
  let parts := Text.pieces '_' cs
  if parts.all (!·.isEmpty) && (parts.drop 1).all (·.head?.any isEdge) &&
      parts.dropLast.all fun p => p.length = 1 || p.getLast?.any isEdge then
    some parts.flatten
  else none

/-- A number with a base of its own. -/
def based (base : Nat) : List Char → Option Value
  | [] => some .valueless
  | ds => (digits? base ds).map fun ds => .ofInt (ofDigits base ds)

/-- The rest behind digits and underscores; unless they are `padded`, no zero leads other digits. -/
def skipDigits? (padded : Bool) (cs : List Char) : Option (List Char) :=
  let run := cs.takeWhile fun c => c.isDigit || c == '_'
  let count := run.countP Char.isDigit
  if count = 0 ∨ (1 < count ∧ run.head? = some '0' ∧ !padded) then none
  else some (cs.drop run.length)

/-- The rest behind a fraction, if one follows. -/
def skipFraction? : List Char → Option (List Char)
  | '.' :: cs => skipDigits? true cs
  | cs => some cs

/-- The rest behind an exponent, if one follows. -/
def skipExponent? : List Char → Option (List Char)
  | 'e' :: cs | 'E' :: cs => skipDigits? true (sign cs).2
  | cs => some cs

/-- A number with a fraction, an exponent or both. -/
def float? (cs : List Char) : Option Value := do
  let rest ← skipExponent? (← skipFraction? (← skipDigits? false (sign cs).2))
  if rest ≠ [] then none
  let (negative, cs) := sign (← joined? Char.isDigit cs)
  let mantissa := cs.takeWhile fun c => c != 'e' && c != 'E'
  let whole := mantissa.takeWhile (· != '.')
  let fraction := mantissa.drop (whole.length + 1)
  let (negativeExponent, exponent) := sign (cs.drop (mantissa.length + 1))
  match Decimal.double.ofDecimal negative (ofDigits 10 (whole ++ fraction))
      (signed negativeExponent exponent - fraction.length) with
  | .infinite _ => some .valueless
  | d => some (.float d)

/-- An integer with underscores; it has no value if other characters than digits stand between
them. -/
def separated? (cs : List Char) : Option Value :=
  (joined? (isDigitOf 16) cs).map fun cs =>
    let (negative, ds) := sign cs
    if ds.all Char.isDigit then .ofInt (signed negative ds) else .valueless

/-- A number of any form. -/
def number? (cs : List Char) : Option Value :=
  match cs with
  | '0' :: 'x' :: ds => based 16 ds
  | '0' :: 'o' :: ds => based 8 ds
  | '0' :: 'b' :: ds => based 2 ds
  | _ =>
    let (negative, cs') := sign cs
    let ds := cs'.takeWhile Char.isDigit
    let padded := cs'.head? == some '0'
    match cs'.drop ds.length with
    | [] =>
      if ds.isEmpty || (padded && ds.length != 1) then none else some (.ofInt (signed negative ds))
    | c :: rest =>
      if cs' = ['i', 'n', 'f'] then some (.float (.infinite negative))
      else if cs' = ['n', 'a', 'n'] then some (.float (.nan negative))
      else if (c :: rest).any fun c => c == '.' || c == 'e' || c == 'E' then float? cs
      else if c == '_' && !padded then separated? cs
      else none

def daysIn (year month : Nat) : Nat :=
  if month = 2 then
    if year % 4 = 0 ∧ (year % 100 ≠ 0 ∨ year % 400 = 0) then 29 else 28
  else if month = 4 ∨ month = 6 ∨ month = 9 ∨ month = 11 then 30
  else 31

/-- Exactly `n` decimal digits. -/
def fixed (n : Nat) (cs : List Char) : Option (Nat × List Char) :=
  let ds := cs.take n
  if ds.length = n ∧ ds.all (isDigitOf 10) then some (ofDigits 10 ds, cs.drop n) else none

/-- The rest behind one expected character. -/
def after (c : Char) : List Char → Option (List Char)
  | d :: cs => if c = d then some cs else none
  | [] => none

/-- A calendar day. -/
def date (cs : List Char) : Option (List Char) := do
  let (year, cs) ← fixed 4 cs
  let (month, cs) ← fixed 2 (← after '-' cs)
  let (day, cs) ← fixed 2 (← after '-' cs)
  if 1 ≤ month ∧ month ≤ 12 ∧ 1 ≤ day ∧ day ≤ daysIn year month then some cs else none

/-- A time of day; seconds and their fraction may be left out. -/
def time (cs : List Char) : Option (List Char) := do
  let (hour, cs) ← fixed 2 cs
  let (minute, cs) ← fixed 2 (← after ':' cs)
  if 23 < hour ∨ 59 < minute then none
  match cs with
  | ':' :: cs =>
    let (second, cs) ← fixed 2 cs
    if 60 < second then none
    match cs with
    | '.' :: cs =>
      let ds := cs.takeWhile (isDigitOf 10)
      if ds.isEmpty then none else some (cs.drop ds.length)
    | _ => some cs
  | _ => some cs

/-- The offset of a time from the standard one. -/
def offset (cs : List Char) : Option (List Char) :=
  match cs with
  | 'Z' :: cs | 'z' :: cs => some cs
  | '+' :: cs | '-' :: cs => do
    let (hour, cs) ← fixed 2 cs
    let (minute, cs) ← fixed 2 (← after ':' cs)
    if 23 < hour ∨ 59 < minute then none else some cs
  | _ => none

/-- A date, a time, or both with an optional offset. -/
def isDatetime (cs : List Char) : Bool :=
  match date cs with
  | some [] => true
  | some (c :: rest) =>
    (c == 'T' || c == 't' || c == ' ') &&
      match time rest with
      | some [] => true
      | some rest => offset rest == some []
      | none => false
  | none => time cs == some []

/-- May stand in a number, a date or a word. -/
def isWordChar (c : Char) : Bool :=
  !(isBlank c || c == '=' || c == ',' || c == '[' || c == ']' || c == '\x7b' || c == '\x7d' ||
    c == '#' || c == '\r' || c == '\n')

/-- Numbers, dates and truth values. -/
def word (cs : List Char) : Option (Value × List Char) :=
  let w := cs.takeWhile isWordChar
  let rest := cs.drop w.length
  let (w, rest) :=
    match rest with
    | ' ' :: c :: more =>
      if date w == some [] && c.isDigit then
        let t := (c :: more).takeWhile isWordChar
        (w ++ ' ' :: t, (c :: more).drop t.length)
      else (w, rest)
    | _ => (w, rest)
  let value? : Option Value :=
    if w = "true".toList then some (.boolean true)
    else if w = "false".toList then some (.boolean false)
    else if isDatetime w then some .datetime
    else number? w
  value?.map (·, rest)

end LocaleForge.Toml
