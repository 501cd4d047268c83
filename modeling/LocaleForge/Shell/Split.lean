import LocaleForge.Shell.Pattern

/-!
The fields that an expanded word falls into. Values that were expanded outside of quotes are split at the
bytes that divide fields; blanks among these come in runs, and a run may go on with another divider.
-/

namespace LocaleForge.Shell

/-- How a part of a word is split. -/
inductive Splitting where
  | whole
  /-- At the bytes that divide fields. -/
  | divided
  /-- At zeros, which stand between arguments. -/
  | listed
deriving DecidableEq, Repr

/-- A part of an expanded word. -/
structure Span where
  splitting : Splitting
  glyphs : List Glyph
deriving DecidableEq, Repr

/-- The text of an expanded word. -/
def Span.plain (spans : List Span) : Bytes :=
  Glyph.plain (spans.flatMap (·.glyphs))

/-- Fields while a word is split. -/
structure Division where
  /-- The fields, the last one first. -/
  fields : List (List Glyph) := []
  /-- The field that has not ended, the last glyph first. -/
  field : List Glyph := []
  /-- The field before has ended with blanks, which may go on. -/
  blank : Bool := false
  /-- The number of fields that may still be made; the last one is the rest. -/
  limit : Option Nat := none
  /-- The last field without dividers at its end. -/
  shortened : Option (List Glyph) := none
  /-- The last part was a list. -/
  listed : Bool := false

namespace Division

def isDefaultDivider (c : Char) : Bool :=
  c = '\x00' || c = ' ' || c = '\t' || c = '\n'

/-- Lists are divided at zeros only. -/
def isDivider (dividers : Bytes) (listed : Bool) : Glyph → Bool
  | .byte c _ => c = '\x00' || (!listed && dividers.contains c)
  | .quote => false

def isBlankDivider (dividers : Bytes) (listed : Bool) : Glyph → Bool
  | .byte c literal => isDivider dividers listed (.byte c literal) && isDefaultDivider c
  | .quote => false

/-- Splits before or behind a byte. -/
def step (dividers : Bytes) (afterList listed : Bool) (d : Division) (g : Glyph) : Division :=
  let divides := isDivider dividers listed g
  let isBlank := isBlankDivider dividers listed g
  let longer := { d with field := g :: d.field }
  if d.limit = some 0 then
    if isBlank then { longer with shortened := some (d.shortened.getD d.field) }
    else
      { longer with
        shortened := if divides && d.blank then d.shortened else none
        blank := false }
  else if d.blank then
    if divides then { d with blank := isBlank } else { longer with blank := false }
  else if divides then
    let blank := isBlank && !afterList && !listed
    if blank && d.field.isEmpty then d
    else if d.limit = some 1 then
      { longer with limit := some 0, shortened := some d.field, blank }
    else
      { d with
        fields := d.field.reverse :: d.fields
        field := []
        limit := d.limit.map (· - 1)
        blank }
  else longer

/-- Goes on with a part of the word. -/
def add (dividers : Bytes) (d : Division) (s : Span) : Division :=
  match s.splitting with
  | .whole => { d with field := s.glyphs.reverse ++ d.field }
  | splitting =>
    let listed := splitting = .listed
    { s.glyphs.foldl (step dividers d.listed listed) { d with blank := false } with listed }

/-- The fields of a word, at most so many of them if there is a limit. -/
def fieldsOf (dividers : Bytes) (limit : Option Nat) (spans : List Span) : List (List Glyph) :=
  let d := spans.foldl (add dividers) { limit }
  let last := (d.shortened.getD d.field).reverse
  (if last.isEmpty && !d.listed then d.fields else last :: d.fields).reverse

end Division

end LocaleForge.Shell
