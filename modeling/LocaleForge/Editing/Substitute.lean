import LocaleForge.Editing.Script

/-!
Replacing what a pattern finds in a line.
-/

namespace LocaleForge.Editing

namespace Casing

def apply : Casing → Char → Char
  | kept, c => c
  | upper, c => c.toUpper
  | lower, c => c.toLower

end Casing

/-- A text with the cases of its letters set. -/
def Letters.apply (l : Letters) : Bytes → Bytes
  | [] => []
  | c :: cs => (l.first.getD l.rest).apply c :: cs.map l.rest.apply

/-- The replacement of a match. `owed` is the case of a first letter that has not come yet. -/
def Regex.Match.fill (m : Regex.Match) (text : Array Char) (owed : Option Casing) : List Piece → Bytes
  | [] => []
  | p :: ps =>
    let first := p.letters.first <|> owed
    let (front, first) :=
      if p.text.isEmpty then ([], first) else ({ p.letters with first : Letters }.apply p.text, none)
    match p.group with
    | none => front ++ fill m text none ps
    | some k =>
      let found := m.group text k
      if found.isEmpty then
        front ++ fill m text (if p.letters.first.isSome then first else none) ps
      else front ++ { p.letters with first : Letters }.apply found ++ fill m text none ps

/-- A line while matches in it are replaced. -/
structure Replacing where
  /-- The new text, the latest first. -/
  done : List Bytes := []
  count : Nat := 0
  /-- Where the last match ended. -/
  last : Option Nat := none
  replaced : Bool := false

/-- Replaces the matches from a place on. An empty match right behind another one does not count. `n`
bounds the number of matches. -/
def Substitution.goOn (s : Substitution) (p : Regex.Pattern) (text : Array Char) (n start : Nat)
    (r : Replacing) : Replacing :=
  let rest (place : Nat) (r : Replacing) : Replacing :=
    { r with done := (text.extract place text.size).toList :: r.done }
  match n with
  | 0 => rest start r
  | n + 1 =>
    match p.search text start with
    | none => rest start r
    | some m =>
      let between := (text.extract start m.start).toList
      let found := (text.extract m.start m.stop).toList
      let isEmpty := m.start = m.stop
      let counts := !(isEmpty && r.last = some m.start)
      let r := { r with
        done := between :: r.done
        count := if counts then r.count + 1 else r.count
        last := some m.stop }
      let replaces := counts && s.number ≤ r.count
      let r :=
        if replaces then { r with done := Regex.Match.fill m text none s.pieces :: r.done, replaced := true }
        else { r with done := found :: r.done }
      if replaces && !s.every then rest m.stop r
      else if isEmpty then
        match text[m.stop]? with
        | none => r
        | some c => s.goOn p text n (m.stop + 1) { r with done := [c] :: r.done }
      else s.goOn p text n m.stop r

/-- The line with its matches replaced, if any were. -/
def Substitution.apply (s : Substitution) (p : Regex.Pattern) (line : Bytes) : Option Bytes :=
  let text := List.toArray line
  let r := s.goOn p text (text.size + 2) 0 {}
  if r.replaced then some r.done.reverse.flatten else none

end LocaleForge.Editing
