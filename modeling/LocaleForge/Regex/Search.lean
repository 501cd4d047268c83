import Std.Data.HashSet
import LocaleForge.Regex.Parser

/-!
Searching a text for an expression. Of all places where it matches the first one counts, and there the
longest match. Among the ways to match that text the preferred one decides on the groups.
-/

namespace LocaleForge.Regex

/-- An instruction of a matching machine. -/
inductive Instruction where
  | one (accepts : Char → Bool)
  | anchor (a : Anchor)
  /-- Tries the first continuation before the second. -/
  | fork (first second : Nat)
  | jump (target : Nat)
  | openGroup (k : Nat)
  | closeGroup (k : Nat)
  | reference (k : Nat)
  | done

/-- The instructions for an expression, the first of which stands at `i`. -/
def compile (i : Nat) : Regex → List Instruction
  | .empty => []
  | .one accepts => [.one accepts]
  | .anchor a => [.anchor a]
  | .sequence r s =>
    let a := compile i r
    a ++ compile (i + a.length) s
  | .either r s =>
    let a := compile (i + 1) r
    let b := compile (i + a.length + 2) s
    .fork (i + 1) (i + a.length + 2) :: a ++ .jump (i + a.length + b.length + 2) :: b
  | .star r =>
    let a := compile (i + 1) r
    .fork (i + 1) (i + a.length + 2) :: a ++ [.jump i]
  | .group k r => .openGroup k :: compile (i + 1) r ++ [.closeGroup k]
  | .reference k => [.reference k]

/-- An expression that is ready to be searched for. -/
structure Pattern where
  dialect : Dialect
  instructions : Array Instruction
  groups : Nat
  /-- The groups count while matching, too. -/
  refers : Bool

def Pattern.ofRegex (d : Dialect) (r : Regex) (groups : Nat) : Pattern :=
  ⟨d, (compile 0 r ++ [Instruction.done]).toArray, groups, r.refers⟩

/-- Reads a pattern. -/
def Pattern.parse (d : Dialect) (bs : Bytes) : Except Fault Pattern :=
  (Regex.parse d bs).map fun (r, groups) => .ofRegex d r groups

/-- Where groups begin and end: the places by mark, twice the number of the group for its begin and
one more for its end. -/
abbrev Marks := List (Nat × Nat)

/-- Sets the place of a mark. -/
def mark (k place : Nat) (ms : Marks) : Marks :=
  (k, place) :: ms.filter (·.1 ≠ k)

/-- The text of a group. -/
def groupText? (text : Array Char) (ms : Marks) (k : Nat) : Option Bytes := do
  let a ← ms.lookup (2 * k)
  let b ← ms.lookup (2 * k + 1)
  if a ≤ b then some (text.extract a b).toList else none

/-- The anchor holds at a place of a text. -/
def Anchor.holds (d : Dialect) (text : Array Char) (place : Nat) (a : Anchor) : Bool :=
  let before := if place = 0 then none else text[place - 1]?
  let behind := text[place]?
  let inside (c : Option Char) : Bool := c.any isWordByte
  match a with
  | .textStart => place = 0
  | .textEnd => behind.isNone
  | .lineStart => before.isNone || (d.multiline && before = some '\n')
  | .lineEnd => behind.isNone || (d.multiline && behind = some '\n')
  | .wordStart => !inside before && inside behind
  | .wordEnd => inside before && !inside behind
  | .wordEdge => inside before != inside behind
  | .noWordEdge => inside before == inside behind

/-- A state of the machine: an instruction, a place in the text and the groups. -/
structure State where
  instruction : Nat
  place : Nat
  marks : Marks

/-- The states that follow a state, the preferred one first. -/
def Pattern.next (p : Pattern) (text : Array Char) (s : State) : List State :=
  let goOn (place : Nat) (marks : Marks) : List State := [⟨s.instruction + 1, place, marks⟩]
  match p.instructions[s.instruction]? with
  | none | some .done => []
  | some (.one accepts) =>
    match text[s.place]? with
    | some c => if accepts c then goOn (s.place + 1) s.marks else []
    | none => []
  | some (.anchor a) => if Anchor.holds p.dialect text s.place a then goOn s.place s.marks else []
  | some (.fork a b) => [{ s with instruction := a }, { s with instruction := b }]
  | some (.jump a) => [{ s with instruction := a }]
  | some (.openGroup k) => goOn s.place (mark (2 * k) s.place s.marks)
  | some (.closeGroup k) => goOn s.place (mark (2 * k + 1) s.place s.marks)
  | some (.reference k) =>
    match groupText? text s.marks k with
    | none => []
    | some t =>
      let here := (text.extract s.place (s.place + t.length)).toList
      if here.length = t.length && here.map p.dialect.fold = t.map p.dialect.fold then
        goOn (s.place + t.length) s.marks
      else []

/-- States that need not be looked at again. -/
abbrev Visited := Std.HashSet (Nat × Nat × Marks)

/-- What tells states apart: the groups do only where they count while matching. -/
def Pattern.key (p : Pattern) (s : State) : Nat × Nat × Marks :=
  (s.instruction, s.place, if p.refers then s.marks else [])

/-- Looks at the states that can be reached, the preferred ones first, and finds the first of the ways
that lead farthest. `n` bounds the number of steps. -/
def Pattern.explore (p : Pattern) (text : Array Char) (n : Nat) (visited : Visited)
    (best : Option State) (states : List State) : Option State × Visited :=
  match n with
  | 0 => (best, visited)
  | n + 1 =>
    match states with
    | [] => (best, visited)
    | s :: rest =>
      if visited.contains (p.key s) then p.explore text n visited best rest
      else
        let visited := visited.insert (p.key s)
        match p.instructions[s.instruction]? with
        | some .done =>
          if s.place = text.size then (some s, visited)
          else p.explore text n visited (if best.any (s.place ≤ ·.place) then best else some s) rest
        | _ => p.explore text n visited best (p.next text s ++ rest)

/-- The most steps of one search. -/
def maxSteps := 50000000

/-- A match: where it begins and ends, and its groups. -/
structure Match where
  start : Nat
  stop : Nat
  marks : Marks

/-- The preferred longest match that begins at a place. -/
def Pattern.matchAt (p : Pattern) (text : Array Char) (visited : Visited) (start : Nat) :
    Option Match × Visited :=
  let (found, visited) := p.explore text maxSteps visited none [⟨0, start, []⟩]
  (found.map fun s => ⟨start, s.place, s.marks⟩, visited)

/-- The first match that begins at one of `n` places. What a place could not lead to, later ones cannot
use either. -/
def Pattern.searchFrom (p : Pattern) (text : Array Char) (visited : Visited) : Nat → Nat → Option Match
  | 0, _ => none
  | n + 1, start =>
    match p.matchAt text visited start with
    | (some m, _) => some m
    | (none, visited) => p.searchFrom text visited n (start + 1)

/-- The first match that begins at a place or behind it. -/
def Pattern.search (p : Pattern) (text : Array Char) (start : Nat) : Option Match :=
  p.searchFrom text {} (text.size + 1 - start) start

/-- The pattern matches somewhere. -/
def Pattern.isIn (p : Pattern) (text : Array Char) : Bool :=
  (p.search text 0).isSome

/-- The text of a group of a match, where group zero is the whole match. -/
def Match.group (m : Match) (text : Array Char) (k : Nat) : Bytes :=
  if k = 0 then (text.extract m.start m.stop).toList else (groupText? text m.marks k).getD []

end LocaleForge.Regex
