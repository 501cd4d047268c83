import LocaleForge.Build.Header

/-!
One job from its request to its output file. The job is in two parts, since the bundler's answer may
take its time: opening loads the header and asks the bundler, closing takes the answer and writes
the file.
-/

namespace LocaleForge

/-- A job that waits for the bundler. -/
structure OpenCall where
  job : Job
  header : String
  request : Request

/-- The text of a job's file: the bundle without its first lines, with the header in front, and the
documentation lines where the job wants them. -/
def OpenCall.output (c : OpenCall) (s : Settings) (reply : String) : String :=
  relocate c.job.comments s.localeMarker (c.header ++ Text.dropLines c.job.skipped reply)

namespace Context

/-- Loads the header of a job and asks the bundler. -/
def openCall (ctx : Context) (j : Job) : Build OpenCall := do
  let header ← ctx.header (j.headerPath ctx.settings)
  let request := Request.ofJob ctx.settings j
  Build.note (.request request)
  return ⟨j, header, request⟩

/-- Takes the bundler's answer. -/
def answer (ctx : Context) (r : Request) : Build String := do
  let given := ctx.bundler.reply r (← get).disk
  Build.note (.reply ⟨r, given.1.toOption⟩)
  Build.alter fun _ => given

/-- Takes the bundler's answer and writes the output file. -/
def closeCall (ctx : Context) (c : OpenCall) : Build Path := do
  let reply ← ctx.answer c.request
  ctx.write c.job.target (c.output ctx.settings reply)
  return c.job.target

/-- Runs a job to its end. -/
def transpile (ctx : Context) (j : Job) : Build Path := do
  ctx.closeCall (← ctx.openCall j)

end Context

end LocaleForge
