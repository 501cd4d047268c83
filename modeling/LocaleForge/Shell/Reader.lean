import LocaleForge.Shell.Syntax
import LocaleForge.Shell.Token

/-!
The text of a script while it is read. Words that are aliases put their texts in front of it.
-/

namespace LocaleForge.Shell

/-- A text that is read before the others. -/
structure Frame where
  text : Bytes
  /-- The aliases that stand for their own names until the text has been read. -/
  busy : List Bytes := []
  /-- The next word behind it may be an alias, too. -/
  goesOn : Bool := false

/-- A document within the script whose text comes behind the line. -/
structure Pending where
  number : Nat
  mark : Bytes
  expands : Bool
  /-- Tabs at the begins of its lines are left out. -/
  stripsTabs : Bool

/-- What is made of the next word. -/
structure Checks where
  newlines : Bool := false
  keywords : Bool := false
  aliases : Bool := false
  /-- It is the mark at which a document ends. -/
  isMark : Bool := false
deriving DecidableEq, Repr

namespace Checks

/-- Of a word that begins a command. -/
def command : Checks :=
  { keywords := true, aliases := true }

/-- Of a word that begins a command, perhaps on a later line. -/
def behindNewlines : Checks :=
  { keywords := true, aliases := true, newlines := true }

def union (a b : Checks) : Checks :=
  ⟨a.newlines || b.newlines, a.keywords || b.keywords, a.aliases || b.aliases, a.isMark || b.isMark⟩

end Checks

/-- A redirection while its target is not known. -/
inductive Opening where
  | file (descriptor : Nat) (mode : OpenMode) (forced : Bool)
  | copy (descriptor : Nat)
  | document (descriptor : Nat) (stripsTabs : Bool)

/-- A script while it is read. -/
structure Reading where
  frames : List Frame
  /-- The aliases whose texts were left behind with the last byte. -/
  left : List Bytes := []
  /-- The line that has been reached. -/
  line : Nat := 1
  aliases : List (Bytes × Bytes) := []
  /-- The documents, by their numbers. -/
  documents : Array Word := #[]
  pending : List Pending := []
  checks : Checks := {}
  token : Token := .newline
  /-- The token is to be read again. -/
  pushedBack : Bool := false
  word : Word := []
  /-- Something in the word was quoted. -/
  quoted : Bool := false
  opening : Opening := .copy 0

/-- Reads from a script. A fault of the script comes with its message. -/
abbrev Reader := EStateM String Reading

namespace Reader

/-- Refuses the script. -/
def refuse {α : Type} (message : String) : Reader α :=
  throw ("Syntax error: " ++ message)

/-- Refuses the token, of which another one is expected. -/
def refuseToken {α : Type} (expected : Option Token) : Reader α := do
  let t := (← get).token
  match expected with
  | some e => refuse (t.name ++ " unexpected (expecting " ++ e.name ++ ")")
  | none => refuse (t.name ++ " unexpected")

/-- Takes a byte. -/
def next : Reader (Option Char) :=
  modifyGet fun r => take { r with left := [] } r.frames
where
  take (r : Reading) : List Frame → Option Char × Reading
    | [] => (none, r)
    | f :: fs =>
      match f.text with
      | b :: rest => (some b, { r with frames := { f with text := rest } :: fs })
      | [] =>
        if fs.isEmpty then (none, { r with frames := [f] })
        else take { r with left := f.busy, checks := { r.checks with aliases := r.checks.aliases || f.goesOn } } fs

/-- Reads the text of an alias before the rest. -/
def insert (name text : Bytes) : Reader Unit :=
  modify fun r =>
    { r with
      frames := { text, busy := name :: r.left, goesOn := text.getLast?.any Bytes.isBlank } :: r.frames
      left := [] }

/-- The text of an alias, unless it is being read. -/
def alias? (r : Reading) (name : Bytes) : Option Bytes :=
  if r.left.contains name || r.frames.any (·.busy.contains name) then none
  else r.aliases.lookup name

/-- Puts a byte back. -/
def unread (c : Option Char) : Reader Unit :=
  modify fun r =>
    match c, r.frames with
    | some c, f :: fs => { r with frames := { f with text := c :: f.text } :: fs }
    | _, _ => r

def countLine : Reader Unit :=
  modify fun r => { r with line := r.line + 1 }

/-- An upper bound for the steps of one loop. -/
def maxSteps := 100000000

/-- Takes a byte; lines that are joined by a backslash are one. `n` bounds their number. -/
def joinedUpTo (n : Nat) : Reader (Option Char) := do
  let c ← next
  match n with
  | 0 => return c
  | n + 1 =>
    if c = some '\\' then
      let d ← next
      if d = some '\n' then
        countLine
        joinedUpTo n
      else
        unread d
        return c
    else return c

def joined : Reader (Option Char) :=
  joinedUpTo maxSteps

/-- The byte `c` and those behind it for as long as they satisfy `p`, with the byte behind them. -/
def collect (n : Nat) (p : Char → Bool) (c : Option Char) (taken : Bytes) : Reader (Bytes × Option Char) := do
  match n, c with
  | n + 1, some b => if p b then collect n p (← joined) (b :: taken) else return (taken.reverse, c)
  | _, _ => return (taken.reverse, c)

/-- Takes bytes up to the end of the line. -/
def skipComment (n : Nat) : Reader Unit := do
  match n with
  | 0 => return
  | n + 1 =>
    let c ← next
    if c = some '\n' || c.isNone then unread c else skipComment n

end Reader

end LocaleForge.Shell
