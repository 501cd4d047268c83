import LocaleForge.Bytes

/-!
How messages quote a text: between single quotes with escapes, or so that a shell reads it back.
-/

namespace LocaleForge.Utility.Quotation

/-- The letter behind the backslash of an escape. -/
def letter? (c : Char) : Option Char :=
  [('\x07', 'a'), ('\x08', 'b'), ('\t', 't'), ('\n', 'n'), ('\x0b', 'v'), ('\x0c', 'f'), ('\x0d', 'r')].lookup c

/-- A byte that is not printed as it is, as an escape. -/
def escape (c : Char) : Bytes :=
  match letter? c with
  | some l => ['\\', l]
  | none => '\\' :: Bytes.octal c

def isPrinted (c : Char) : Bool :=
  ByteClass.print.holds c

/-- The text between single quotes; these and backslashes have a backslash in front. -/
def quoted (bs : Bytes) : Bytes :=
  '\'' :: bs.flatMap (fun c =>
    if c = '\'' || c = '\\' then ['\\', c] else if isPrinted c then [c] else escape c) ++ ['\'']

/-- Means something to a shell, or nothing printable. -/
def isSpecial (c : Char) : Bool :=
  !isPrinted c || " !\"$&'()*;<=>?[\\^`|".toList.contains c

/-- A shell would not read the text as one plain word. -/
def needsQuotes (bs : Bytes) : Bool :=
  bs.isEmpty || bs.any isSpecial || bs = ['\x7b'] || bs = ['\x7d'] || bs.head? = some '#' || bs.head? = some '~'

/-- Stands for itself both between double quotes and between escaped single quotes. -/
def isHarmless (c : Char) : Bool :=
  c.isAlphanum || "%+,-./:]_ '".toList.contains c

/-- The text of a shell word between single quotes; `escaping` is set behind an escape, which stands
in quotes of its own. -/
def shellBody (escaping : Bool) : Bytes → Bytes
  | [] => []
  | c :: cs =>
    if !isPrinted c then (if escaping then [] else "'$'".toList) ++ escape c ++ shellBody true cs
    else if c = '\'' then "'\\''".toList ++ shellBody false cs
    else (if escaping then "''".toList else []) ++ c :: shellBody false cs

/-- The text as a shell word. -/
def word (bs : Bytes) : Bytes :=
  if !needsQuotes bs then bs
  else
    let front := bs.head? = some '#' || bs.head? = some '~'
    if bs.contains '\'' && (if front then bs.drop 1 else bs).all isHarmless then '"' :: bs ++ ['"']
    else '\'' :: shellBody false bs ++ ['\'']

/-- The name of a file as a shell word; a colon makes quotes necessary, since one follows the name in
messages. -/
def fileName (bs : Bytes) : Bytes :=
  if bs.contains ':' && !needsQuotes bs then '\'' :: bs ++ ['\''] else word bs

end LocaleForge.Utility.Quotation
