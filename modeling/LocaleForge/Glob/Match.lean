import LocaleForge.Glob.Pattern

/-!
Matching a relative path against a pattern.
-/

namespace LocaleForge.Glob

/-- Some suffix that is reached without passing a separator satisfies `rest`. -/
def withinSegment (rest : List Char → Bool) : List Char → Bool
  | [] => rest []
  | c :: cs => rest (c :: cs) || (c != separator && withinSegment rest cs)

/-- Some suffix right behind a separator, or the empty one, satisfies `rest`. -/
def behindSegment (rest : List Char → Bool) : List Char → Bool
  | [] => rest []
  | c :: cs => (c == separator && rest cs) || behindSegment rest cs

/-- The first character satisfies `p` and what follows it satisfies `rest`. -/
def first (p : Char → Bool) (rest : List Char → Bool) : List Char → Bool
  | [] => false
  | c :: cs => p c && rest cs

/-- The tokens match the whole text. -/
def matchTokens : List Token → List Char → Bool
  | [] => List.isEmpty
  | .literal c :: ts => first (· == c) (matchTokens ts)
  | .single :: ts => first (· != separator) (matchTokens ts)
  | .oneOf set :: ts =>
    first (fun c => c != separator && set.any (·.contains c)) (matchTokens ts)
  | .noneOf set :: ts =>
    first (fun c => c != separator && !set.any (·.contains c)) (matchTokens ts)
  | .many :: ts => withinSegment (matchTokens ts)
  | .deep :: ts => fun cs => matchTokens ts cs || behindSegment (matchTokens ts) cs

/-- The pattern with these tokens matches a path. -/
def accepts (ts : List Token) (path : String) : Bool :=
  matchTokens ts path.toList

end LocaleForge.Glob
