import LocaleForge.Path
import LocaleForge.Text.Utf8

/-!
Texts of bytes: what files hold and programs exchange. Each byte is written as the character of its
code, so that scripts and formats can be read with character literals.
-/

namespace LocaleForge

/-- A text of bytes, each of which is the character of its code. -/
abbrev Bytes := List Char

namespace Bytes

def ofList (bs : List UInt8) : Bytes :=
  bs.map fun b => Char.ofNat b.toNat

def toList (bs : Bytes) : List UInt8 :=
  bs.map fun c => UInt8.ofNat c.toNat

def ofArray (content : ByteArray) : Bytes :=
  ofList content.data.toList

def toArray (bs : Bytes) : ByteArray :=
  ⟨(toList bs).toArray⟩

theorem toNat_ofNat (b : UInt8) : (Char.ofNat b.toNat).toNat = b.toNat := by
  have hb : b.toNat.isValidChar := .inl (Nat.lt_of_lt_of_le b.toNat_lt (by decide))
  rw [Char.ofNat, dif_pos hb]
  exact UInt32.toNat_ofNatLT

theorem toList_ofList (bs : List UInt8) : toList (ofList bs) = bs := by
  induction bs with
  | nil => rfl
  | cons b bs ih =>
    change UInt8.ofNat (Char.ofNat b.toNat).toNat :: toList (ofList bs) = b :: bs
    rw [ih, toNat_ofNat, UInt8.ofNat_toNat]

theorem toArray_ofArray (content : ByteArray) : toArray (ofArray content) = content := by
  rw [toArray, ofArray, toList_ofList]

/-- The UTF-8 of a text. -/
def ofString (s : String) : Bytes :=
  ofArray (Text.encode s)

instance : Coe String Bytes :=
  ⟨ofString⟩

/-- The bytes as a text, with U+FFFD for what is not UTF-8. -/
def toText (bs : Bytes) : String :=
  Text.decodeLossy (toArray bs)

/-- The path that the bytes name. -/
def toPath (bs : Bytes) : Path :=
  ⟨toText bs⟩

/-- The bytes as a name that is looked up. -/
def toName (bs : Bytes) : String :=
  String.ofList bs

/-- The decimal digits of a number. -/
def ofNat (n : Nat) : Bytes :=
  Nat.toDigits 10 n

/-- An integer in decimal. -/
def ofInt (n : Int) : Bytes :=
  if n < 0 then '-' :: ofNat n.natAbs else ofNat n.natAbs

/-- The byte of a code, which is taken modulo 256. -/
def byte (n : Nat) : Char :=
  Char.ofNat (n % 256)

/-- Three octal digits. -/
def octal (c : Char) : Bytes :=
  [c.toNat / 64, c.toNat / 8 % 8, c.toNat % 8].map Nat.digitChar

/-- The text without newlines at its end. -/
def chomp (bs : Bytes) : Bytes :=
  (bs.reverse.dropWhile (· == '\n')).reverse

/-- Texts with blanks between them. -/
def spaced (ts : List Bytes) : Bytes :=
  List.intercalate [' '] ts

/-- As many copies of a byte as a text lacks to a width. -/
def filling (c : Char) (width : Nat) (bs : Bytes) : Bytes :=
  List.replicate (width - bs.length) c

/-- A text in the right-hand part of a column. -/
def padLeft (width : Nat) (bs : Bytes) : Bytes :=
  filling ' ' width bs ++ bs

end Bytes

/-- The classes of bytes that patterns and sets name. -/
inductive ByteClass where
  | alnum
  | alpha
  | blank
  | cntrl
  | digit
  | graph
  | lower
  | print
  | punct
  | space
  | upper
  | xdigit
deriving DecidableEq, Repr

namespace ByteClass

def all : List ByteClass :=
  [alnum, alpha, blank, cntrl, digit, graph, lower, print, punct, space, upper, xdigit]

def word : ByteClass → String
  | alnum => "alnum"
  | alpha => "alpha"
  | blank => "blank"
  | cntrl => "cntrl"
  | digit => "digit"
  | graph => "graph"
  | lower => "lower"
  | print => "print"
  | punct => "punct"
  | space => "space"
  | upper => "upper"
  | xdigit => "xdigit"

/-- The class of a name. -/
def ofWord? (name : String) : Option ByteClass :=
  all.find? (·.word == name)

/-- The byte belongs to the class; bytes beyond 127 belong to none. -/
def holds : ByteClass → Char → Bool
  | alnum, c => c.isAlphanum
  | alpha, c => c.isAlpha
  | blank, c => c == ' ' || c == '\t'
  | cntrl, c => c.toNat < 32 || c.toNat == 127
  | digit, c => c.isDigit
  | graph, c => '!' ≤ c && c ≤ '~'
  | lower, c => c.isLower
  | print, c => ' ' ≤ c && c ≤ '~'
  | punct, c => '!' ≤ c && c ≤ '~' && !c.isAlphanum
  | space, c => c == ' ' || ('\t' ≤ c && c ≤ '\r')
  | upper, c => c.isUpper
  | xdigit, c => c.isDigit || ('a' ≤ c && c ≤ 'f') || ('A' ≤ c && c ≤ 'F')

theorem ofWord?_word (c : ByteClass) : ofWord? c.word = some c := by
  cases c <;> rfl

end ByteClass

namespace Bytes

def isSpace (c : Char) : Bool :=
  ByteClass.space.holds c

def isBlank (c : Char) : Bool :=
  ByteClass.blank.holds c

/-- May begin a name in a script. -/
def isNameStart (c : Char) : Bool :=
  c.isAlpha || c == '_'

def isNameChar (c : Char) : Bool :=
  c.isAlphanum || c == '_'

/-- A name that a variable can have. -/
def isName (bs : Bytes) : Bool :=
  bs.head?.any isNameStart && bs.all isNameChar

end Bytes

end LocaleForge
