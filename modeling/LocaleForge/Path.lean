import LocaleForge.Text.Pieces

/-!
Slash-separated paths. A path keeps its text as written; doubled and final slashes and inner single
dots name nothing, so two texts may have the same components.
-/

namespace LocaleForge

/-- A path as written. -/
structure Path where
  text : String
deriving DecidableEq, Repr

namespace Path

/-- One step of a path. -/
inductive Component where
  | root
  /-- A leading single dot. -/
  | here
  | up
  | name (text : String)
deriving DecidableEq, Repr

def isAbsolute (p : Path) : Bool :=
  p.text.toList.head? == some '/'

/-- Stands for no step: the piece between doubled slashes, or a single dot. -/
def isIdle (piece : String) : Bool :=
  piece.isEmpty || piece == "."

/-- The pieces after the root. -/
def pieces (p : Path) : List String :=
  let ps := Text.cut '/' p.text
  if p.isAbsolute then ps.tail else ps

/-- The path with these pieces after the root, if there is one. -/
def ofPieces (absolute : Bool) (ps : List String) : Path :=
  ⟨(if absolute then "/" else "") ++ Text.join '/' ps⟩

/-- Drops idle pieces at the end. -/
def dropIdleEnd (ps : List String) : List String :=
  (ps.reverse.dropWhile isIdle).reverse

/-- Drops idle pieces at the end, but not the single dot that a relative path begins with. -/
def dropIdleTail (absolute : Bool) : List String → List String
  | [] => []
  | p :: ps => if !absolute && p == "." then p :: dropIdleEnd ps else dropIdleEnd (p :: ps)

/-- The step that a piece stands for. -/
def step (piece : String) : Component :=
  if piece == ".." then .up else .name piece

/-- The steps of the path. -/
def components (p : Path) : List Component :=
  let steps := (p.pieces.filter (!isIdle ·)).map step
  if p.isAbsolute then .root :: steps
  else if p.pieces.head? == some "." then .here :: steps
  else steps

/-- Appends a relative path; an absolute one replaces the whole. -/
def join (p : Path) (rest : String) : Path :=
  if (Path.mk rest).isAbsolute then ⟨rest⟩
  else if p.text.isEmpty || p.text.toList.getLast? == some '/' then ⟨p.text ++ rest⟩
  else ⟨p.text ++ "/" ++ rest⟩

/-- The path without its last step; the root and the empty path have none. -/
def parent? (p : Path) : Option Path :=
  match dropIdleTail p.isAbsolute p.pieces with
  | [] => none
  | ps => some (ofPieces p.isAbsolute (dropIdleTail p.isAbsolute ps.dropLast))

/-- The last step, if it is a name. -/
def fileName? (p : Path) : Option String :=
  match p.components.getLast? with
  | some (.name n) => some n
  | _ => none

/-- A file name up to its last dot; a dot at the front does not count. -/
def stemOf (name : String) : String :=
  match Text.cut '.' name with
  | [] | [_] => name
  | ps =>
    match Text.join '.' ps.dropLast with
    | "" => name
    | s => s

/-- The last step without its extension, if it is a name. -/
def stem? (p : Path) : Option String :=
  p.fileName?.map stemOf

/-- Drops pieces up to and including the `n`-th that stands for a step. -/
def dropSteps : Nat → List String → List String
  | 0, ps => ps
  | _ + 1, [] => []
  | n + 1, p :: ps => if isIdle p then dropSteps (n + 1) ps else dropSteps n ps

/-- What remains of the path behind `base`, if its steps begin with those of `base`. -/
def below? (base p : Path) : Option Path :=
  match base.components with
  | [] => some (ofPieces p.isAbsolute (dropIdleTail p.isAbsolute p.pieces))
  | c :: steps =>
    if (c :: steps).isPrefixOf p.components then
      let rest := match c with
        | .root => dropSteps steps.length p.pieces
        | .here => dropSteps steps.length p.pieces.tail
        | _ => dropSteps (steps.length + 1) p.pieces
      some (ofPieces false (dropIdleEnd (rest.dropWhile isIdle)))
    else none

/-- The path as shown to somebody in `base`: relative to it where it lies below. -/
def shownFrom (base p : Path) : String :=
  (below? base p).elim p.text Path.text

end Path

end LocaleForge
