import LocaleForge.Text.Blank
import LocaleForge.Text.Pieces

/-!
Documentation lines, those that begin with `//!`, are hoisted above the rest of a text. Lines that
are no documentation keep their text and order in every mode.
-/

namespace LocaleForge

/-- Where the documentation lines of a text go. -/
inductive CommentMode where
  /-- They stay in place. -/
  | keep
  /-- All of them go to the top. -/
  | full
  /-- They go to the top, but a marker line and the documentation line right after it are dropped. -/
  | mainOnly
deriving DecidableEq, Repr

namespace Relocation

/-- Begins with `//!` apart from blanks. -/
def isDoc (line : String) : Bool :=
  ['/', '/', '!'].isPrefixOf (Text.trimChars line.toList)

/-- What becomes of a line. -/
inductive Fate where
  | hoisted (text : String)
  | kept (line : String)
  | dropped
deriving DecidableEq, Repr

namespace Fate

def hoisted? : Fate → Option String
  | hoisted s => some s
  | _ => none

def kept? : Fate → Option String
  | kept s => some s
  | _ => none

end Fate

/-- The fate of each line; `marker` is given in the mode that drops marked blocks, and `skipping`
says that the line before was a marker. -/
def fates (marker : Option String) : Bool → List String → List Fate
  | _, [] => []
  | skipping, l :: ls =>
    if isDoc l then
      if skipping then .dropped :: fates marker false ls
      else if marker = some (Text.trim l) then .dropped :: fates marker true ls
      else .hoisted (Text.trim l) :: fates marker false ls
    else .kept l :: fates marker false ls

/-- The lines kept in place are those that are no documentation, whatever becomes of the others. -/
theorem filterMap_kept?_fates (marker : Option String) (skipping : Bool) (ls : List String) :
    (fates marker skipping ls).filterMap Fate.kept? = ls.filter (!isDoc ·) := by
  induction ls generalizing skipping with
  | nil => rfl
  | cons l ls ih =>
    rw [fates]
    split
    case isTrue hl =>
      split
      · simp [List.filterMap_cons, Fate.kept?, hl, ih]
      · split <;> simp [List.filterMap_cons, Fate.kept?, hl, ih]
    case isFalse hl => simp [Fate.kept?, hl, ih]

/-- The hoisted lines, an empty line, and the lines kept in place. -/
def assemble (fs : List Fate) : List String :=
  fs.filterMap Fate.hoisted? ++ "" :: fs.filterMap Fate.kept?

end Relocation

open Relocation in
/-- Moves the documentation lines of a text to its top, trimmed and in order, with an empty line
after them. -/
def relocate (mode : CommentMode) (marker text : String) : String :=
  match mode with
  | .keep => text
  | .full => Text.unlines (assemble (fates none false (Text.lines text)))
  | .mainOnly => Text.unlines (assemble (fates (some marker) false (Text.lines text)))

end LocaleForge
