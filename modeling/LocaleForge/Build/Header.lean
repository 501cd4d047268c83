import LocaleForge.Build.Context

/-!
Header texts. Each header file is read at most once; a failed read leaves nothing on the shelf.
-/

namespace LocaleForge.Context

/-- The text of a header file. -/
def header (ctx : Context) (p : Path) : Build String := do
  if p = Job.noHeader then return ""
  match (← get).shelf.get? p with
  | some text => return text
  | none =>
    let text ← ctx.read p
    modify fun s => { s with shelf := s.shelf.put p text }
    return text

end LocaleForge.Context
