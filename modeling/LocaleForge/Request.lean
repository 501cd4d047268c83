import LocaleForge.Job
import LocaleForge.Json.Basic

/-!
What the bundler is asked for.
-/

namespace LocaleForge

/-- A request to the bundler. -/
structure Request where
  entry : Path
  format : Format
  name : String
  /-- Import specifiers to reference and not to include. -/
  external : List String
  /-- The global symbol of some externals, sorted by specifier. -/
  globals : List (String × String)
deriving DecidableEq, Repr

namespace Request

/-- The bundle name where the real one does not matter. -/
def unusedName := "not_used"

/-- The name of a job's bundle; a bundle with a header file of its own needs none. -/
def nameFor (j : Job) : String :=
  match j.header with
  | .file _ => unusedName
  | _ => j.name.getD unusedName

/-- Every spelling under which sources import the base module. -/
def baseSpellings (s : Settings) : List String :=
  ["./" ++ s.baseModule, "../" ++ s.baseModule, "../../" ++ s.baseModule,
    (s.srcDir.join s.baseModule).text, (s.tmpDir.join s.baseModule).text]

/-- The global symbol for the two absolute spellings of the base module, sorted by spelling. -/
def baseGlobals (s : Settings) : List (String × String) :=
  let src := (s.srcDir.join s.baseModule).text
  let tmp := (s.tmpDir.join s.baseModule).text
  if src = tmp then [(src, s.baseGlobal)]
  else if src < tmp then [(src, s.baseGlobal), (tmp, s.baseGlobal)]
  else [(tmp, s.baseGlobal), (src, s.baseGlobal)]

/-- The request of a job. -/
def ofJob (s : Settings) (j : Job) : Request where
  entry := j.entryPath
  format := j.format
  name := nameFor j
  external := if j.excludeBase then baseSpellings s else []
  globals := if j.excludeBase then baseGlobals s else []

/-- The record that stands for a request. -/
def toJson (r : Request) : Json :=
  .record [
    ("entry", .string r.entry.text),
    ("format", .string r.format.word),
    ("name", .string r.name),
    ("external", .list (r.external.map .string)),
    ("globals", .record (r.globals.map fun (k, v) => (k, .string v)))]

/-- The text of a request as the bundler reads it. -/
def payload (r : Request) : String :=
  r.toJson.render

end Request

end LocaleForge
