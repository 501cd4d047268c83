import LocaleForge.Decimal.Numeral
import LocaleForge.Utility.Basic

/-!
Printing arguments on one line, with escapes on demand.
-/

namespace LocaleForge.Utility.Echo

/-- The byte that a letter behind a backslash stands for. -/
def letter? (c : Char) : Option Char :=
  [('a', '\x07'), ('b', '\x08'), ('e', '\x1b'), ('f', '\x0c'), ('n', '\n'), ('r', '\x0d'), ('t', '\t'),
    ('v', '\x0b'), ('\\', '\\')].lookup c

/-- The byte of up to `n` digits in a base, and what stands behind them. -/
def digits (base n : Nat) (bs : Bytes) : Char × Bytes :=
  let ds := (bs.takeWhile (Decimal.isDigitIn base)).take n
  (Bytes.byte (Decimal.ofDigits base ds), bs.drop ds.length)

/-- The text with its escapes replaced; one of them ends all output. `n` bounds the length. -/
def unescape (n : Nat) (bs : Bytes) : Bytes × Bool :=
  match n with
  | 0 => ([], false)
  | n + 1 =>
    let more (c : Char) (rest : Bytes) : Bytes × Bool :=
      let (out, ended) := unescape n rest
      (c :: out, ended)
    match bs with
    | [] => ([], false)
    | '\\' :: c :: rest =>
      if c = 'c' then ([], true)
      else if c = 'x' && rest.head?.any (Decimal.isDigitIn 16) then
        let (b, rest) := digits 16 2 rest
        more b rest
      else if c = '0' then
        let (b, rest) := digits 8 3 rest
        more b rest
      else if Decimal.isDigitIn 8 c then
        let (b, rest) := digits 8 3 (c :: rest)
        more b rest
      else
        match letter? c with
        | some b => more b rest
        | none => more '\\' (c :: rest)
    | c :: rest => more c rest

/-- An argument of option letters only. -/
def isOption (arg : Bytes) : Bool :=
  match arg with
  | '-' :: c :: cs => (c :: cs).all "neE".toList.contains
  | _ => false

def run : Utility := fun name args => do
  let letters := (args.takeWhile isOption).flatten.filter (· ≠ '-')
  let text := Bytes.spaced (args.dropWhile isOption)
  let escapes := (letters.filter (· ≠ 'n')).getLast? = some 'e'
  let (out, ended) := if escapes then unescape (text.length + 1) text else (text, false)
  conclude name 0 (out ++ if ended || letters.contains 'n' then [] else ['\n'])

end LocaleForge.Utility.Echo
