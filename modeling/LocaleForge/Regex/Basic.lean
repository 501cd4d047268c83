import LocaleForge.Bytes

/-!
Regular expressions over bytes.
-/

namespace LocaleForge

/-- A place that an expression can ask for. -/
inductive Anchor where
  | lineStart
  | lineEnd
  | textStart
  | textEnd
  | wordStart
  | wordEnd
  /-- Either end of a word. -/
  | wordEdge
  | noWordEdge
deriving DecidableEq, Repr

/-- A regular expression. -/
inductive Regex where
  | empty
  | one (accepts : Char → Bool)
  | anchor (a : Anchor)
  | sequence (r s : Regex)
  /-- The first alternative is preferred. -/
  | either (r s : Regex)
  /-- Any number of times, as often as possible. -/
  | star (r : Regex)
  | group (number : Nat) (r : Regex)
  /-- The text of a group that was matched before. -/
  | reference (group : Nat)

namespace Regex

/-- The expression `n` times in a row. -/
def times (r : Regex) : Nat → Regex
  | 0 => empty
  | 1 => r
  | n + 1 => sequence (times r n) r

/-- The expression up to `n` times in a row, as often as possible. -/
def upTo (r : Regex) : Nat → Regex
  | 0 => empty
  | 1 => either r empty
  | n + 1 => either (sequence (upTo r n) r) empty

/-- Between `low` and `high` times in a row. -/
def repeated (r : Regex) (low : Nat) (high : Option Nat) : Regex :=
  match high with
  | none => if low = 0 then star r else sequence (times r low) (star r)
  | some high =>
    if low = 0 then upTo r high
    else if high = low then times r low
    else sequence (times r low) (upTo r (high - low))

/-- Refers to the text of a group. -/
def refers : Regex → Bool
  | reference _ => true
  | sequence r s | either r s => r.refers || s.refers
  | star r | group _ r => r.refers
  | empty | one _ | anchor _ => false

end Regex

end LocaleForge
