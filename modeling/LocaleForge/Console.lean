import LocaleForge.Text.Pieces

/-!
What the program tells on the console. Messages are kept as data; their wording and colours are in
`Message.render`.
-/

namespace LocaleForge.Console

/-- Escape sequences for the terminal. -/
def reset := "\x1b[0m"
def bold := "\x1b[1m"
def dim := "\x1b[2m"
def red := "\x1b[31m"
def green := "\x1b[32m"
def yellow := "\x1b[33m"

/-- The version shown in banners. -/
def version := "0.3.0"

/-- One message on standard output. -/
inductive Message where
  | blank
  | success (text : String)
  | warning (text : String)
  | action (text : String)
  /-- The start of step `n` out of `total`. -/
  | step (n total : Nat) (name : String)
  | detail (text : String)
  | detailSuccess (text : String)
  /-- The files a step has written. -/
  | files (paths : List String)
  | banner (command project : String) (subject : Option String)
  /-- The end of a whole run that wrote `written` files. -/
  | complete (what : String) (written : Nat)
deriving DecidableEq, Repr

/-- A count with its noun. -/
def plural (n : Nat) (word : String) : String :=
  if n = 1 then "1 " ++ word else toString n ++ " " ++ word ++ "s"

/-- Files are listed one by one up to this many. -/
def listedFiles := 3

/-- The lines for a set of files: each path, or a summary of a large set. -/
def fileLines : List String → List String
  | [] => []
  | first :: rest =>
    let paths := first :: rest
    if paths.length > listedFiles then
      [plural paths.length "file" ++ " (" ++ first ++ ", ...)"]
    else paths

/-- A line with a coloured sign in front. -/
def signed (indent colour sign text : String) : String :=
  indent ++ colour ++ sign ++ reset ++ " " ++ text

def Message.toLines (elapsed : String) : Message → List String
  | blank => [""]
  | success text => [signed "  " green "✓" text]
  | warning text => [signed "  " yellow "!" text]
  | action text => [signed "  " green "→" text]
  | step n total name =>
    ["  " ++ bold ++ "[" ++ toString n ++ "/" ++ toString total ++ "]" ++ reset ++ " " ++ name ++ "..."]
  | detail text => ["        " ++ text]
  | detailSuccess text => [signed "        " green "✓" text]
  | files paths => (fileLines paths).map (signed "        " green "✓")
  | banner command project subject =>
    let title := match subject with
      | some s => project ++ " (" ++ s ++ ")"
      | none => project
    ["", "  " ++ bold ++ "locale-transpile" ++ reset ++ " " ++ command ++ " " ++ dim ++ "v" ++
      version ++ reset ++ "  " ++ title, ""]
  | complete what written =>
    [signed "  " green "✓"
      (what ++ " complete in " ++ elapsed ++ "s (" ++ plural written "file" ++ ")")]

/-- The printed text of a message; `elapsed` is the number of seconds that a run took. -/
def Message.render (elapsed : String) (m : Message) : String :=
  String.join ((m.toLines elapsed).map (· ++ "\n"))

/-- The line on standard error that ends a failed run. -/
def failureLine (text : String) : String :=
  signed "  " red "✗" text ++ "\n"

end LocaleForge.Console
