import LocaleForge.Shell.Reader
import LocaleForge.Shell.Syntax

/-!
Reading words: quotes, expansions, and the texts of documents within the script.
-/

namespace LocaleForge.Shell

/-- What the bytes of a word mean. -/
inductive Style where
  | plain
  | double
  | single
  | arithmetic
deriving DecidableEq, Repr

/-- A part of a word in which quotes count anew. -/
structure Level where
  style : Style
  /-- Lies in double quotes. -/
  doubled : Bool := false
  /-- Lies in double quotes within an expansion. -/
  inner : Bool := false
  /-- Is the word of an expansion. -/
  isOperand : Bool := false
  /-- The number of expansions that have not ended. -/
  depth : Nat := 0
  /-- How many of them lie in double quotes. -/
  doubledDepth : Nat := 0
  /-- The number of parentheses that have not ended. -/
  parens : Nat := 0

/-- An expansion while its word is read. -/
inductive Container where
  | parameter (name : Bytes) (operation : Operation) (nonempty : Bool)
  | arithmetic

/-- Where a text ends. -/
inductive Extent where
  /-- Behind a word. -/
  | word
  /-- Before the line that is its mark. -/
  | mark (line : Bytes) (stripsTabs : Bool)
  /-- At the end of the script. -/
  | everything

/-- A word while it is read. -/
structure Draft where
  level : Level
  outer : List Level := []
  /-- The pieces, the last one first. -/
  pieces : Word := []
  /-- The expansions that have not ended, with the pieces before them. -/
  containers : List (Container × Word) := []
  quoted : Bool := false

namespace Draft

def add (d : Draft) (p : Piece) : Draft :=
  { d with pieces := p :: d.pieces }

def addByte (d : Draft) (c : Char) : Draft :=
  d.add (.byte c false)

def push (d : Draft) (l : Level) : Draft :=
  { d with level := l, outer := d.level :: d.outer }

def pop (d : Draft) : Draft :=
  match d.outer with
  | [] => d
  | l :: outer => { d with level := l, outer }

/-- Begins an expansion. -/
def enclose (d : Draft) (c : Container) : Draft :=
  { d with pieces := [], containers := (c, d.pieces) :: d.containers }

/-- Ends an expansion. -/
def close (d : Draft) : Draft :=
  match d.containers with
  | [] => d
  | (.parameter name operation nonempty, before) :: containers =>
    { d with pieces := .parameter name operation nonempty d.pieces.reverse :: before, containers }
  | (.arithmetic, before) :: containers =>
    { d with pieces := .arithmetic d.pieces.reverse :: before, containers }

end Draft

namespace Extent

def isWord : Extent → Bool
  | word => true
  | _ => false

end Extent

namespace Reader

/-- Quoted bytes that would mean something in patterns and paths. -/
def isMarked (c : Char) : Bool :=
  ['!', '*', '?', '[', '=', '~', ':', '/', '-', ']'].contains c

/-- Ends a word that is not quoted. -/
def isDivider (c : Char) : Bool :=
  ['<', '>', '(', ')', ';', '&', '|', ' ', '\t'].contains c

/-- Parameters that have a byte as their name. -/
def isSpecial (c : Char) : Bool :=
  c.isDigit || ['@', '*', '#', '?', '-', '$', '!'].contains c

/-- Adds a quote that is no byte of the text. -/
def addQuote (x : Extent) (d : Draft) : Draft :=
  if x.isWord then d.add .quote else d

def addDoubleQuote (x : Extent) (d : Draft) : Draft :=
  addQuote x (if d.level.depth = 0 then d else { d with level.inner := !d.level.inner })

/-- Quotes end with the byte `c`. -/
def endQuote (x : Extent) (d : Draft) (c : Char) : Draft :=
  if !x.isWord && d.level.depth = 0 then d.addByte c
  else
    let d := { d with quoted := true }
    let d := if d.level.doubledDepth = 0 then { d with level.style := .plain, level.doubled := false } else d
    if c = '"' then addDoubleQuote x d else addQuote x d

/-- A byte behind a backslash. -/
def addEscaped (x : Extent) (d : Draft) (c : Char) : Draft :=
  let l := d.level
  let isPlain := l.doubled && !(List.contains ['\\', '\x60', '$'] c) &&
    (c ≠ '"' || !x.isWord && l.depth = 0) && (c ≠ '\x7d' || l.depth = 0)
  let d := if isPlain then d.add (.byte '\\' true) else d
  { d.add (.byte c true) with quoted := true }

/-- A brace that ends an expansion. -/
def endBrace (d : Draft) : Draft :=
  let l := d.level
  if l.inner || l.depth = 0 then d.addByte '\x7d'
  else
    let d := { d with level.depth := l.depth - 1 }
    if l.depth = 1 && l.isOperand then d.pop.close
    else { d with level.doubledDepth := l.doubledDepth - 1 }.close

/-- The text of a command in backquotes. -/
def backquoted (n : Nat) (doubled : Bool) (taken : Bytes) : Reader Bytes := do
  match n, ← joined with
  | _, none => refuse "EOF in backquote substitution"
  | 0, _ | _, some '\x60' => return taken.reverse
  | n + 1, some '\\' =>
    match ← next with
    | none => backquoted n doubled taken
    | some c =>
      let isPlain := !(List.contains ['\\', '\x60', '$'] c) && !(doubled && c = '"')
      backquoted n doubled (c :: (if isPlain then '\\' :: taken else taken))
  | n + 1, some c =>
    if c = '\n' then countLine
    backquoted n doubled (c :: taken)

/-- Reads a text that is a script of its own. -/
def within (text : Bytes) (reader : Reader α) : Reader α := do
  let outer ← get
  set { outer with frames := [{ text }], left := [], line := 1, pending := [], pushedBack := false }
  let a ← reader
  modify fun r =>
    { r with
      frames := outer.frames
      left := outer.left
      line := outer.line
      pending := outer.pending
      pushedBack := false }
  return a

/-- The operation of a byte behind a parameter. -/
def operation? (c : Option Char) : Option Operation :=
  match c with
  | some '\x7d' => some .plain
  | some '-' => some .default
  | some '+' => some .alternative
  | some '?' => some .required
  | some '=' => some .assign
  | _ => none

/-- What is done with a parameter in braces, from the byte `c` on; colons ask for values that are not
empty. -/
def operation (c : Option Char) : Reader (Operation × Bool) := do
  match c with
  | some ':' => return ((operation? (← joined)).getD .bad, true)
  | some '%' =>
    let e ← joined
    if e ≠ some '%' then unread e
    return (.trimEnd (e = some '%'), false)
  | some '#' =>
    let e ← joined
    if e ≠ some '#' then unread e
    return (.trimFront (e = some '#'), false)
  | _ => return ((operation? c).getD .bad, false)

/-- The name of a parameter that begins with `c`, and what is done with it. -/
def parameter (braced : Bool) (c : Option Char) : Reader (Bytes × Operation × Bool) := do
  let finish (name : Bytes) (isLength : Bool) (c : Option Char) : Reader (Bytes × Operation × Bool) := do
    if isLength then
      unread c
      return (name, if c = some '\x7d' then .length else .bad, false)
    else if braced then
      let (o, nonempty) ← operation c
      return (name, o, nonempty)
    else
      unread c
      return (name, .plain, false)
  let named (isLength : Bool) (c : Option Char) : Reader (Bytes × Operation × Bool) := do
    let (name, c) ← collect maxSteps (if c.any Char.isDigit then Char.isDigit else Bytes.isNameChar) c []
    finish name isLength c
  let bad (c : Option Char) : Reader (Bytes × Operation × Bool) := do
    unread c
    return ([], .bad, false)
  if c.any Bytes.isNameStart || braced && c.any Char.isDigit then named false c
  else
    match c with
    | none | some '\x7d' => bad c
    | some b =>
      let e ← joined
      if braced && b = '#' then
        if e.any Bytes.isNameChar then named true e
        else
          let f ← joined
          if e = some '\x7d' || f ≠ some '\x7d' then
            unread f
            finish ['#'] false e
          else if e.any isSpecial then finish e.toList true f
          else bad f
      else if isSpecial b then finish [b] false e
      else bad e

/-- Begins the expansion of a parameter. -/
def addParameter (d : Draft) (c : Option Char) : Reader Draft := do
  let braced := c = some '\x7b'
  let c ← if braced then joined else pure c
  let (name, o, nonempty) ← parameter braced c
  if o = .plain && !nonempty then return d.add (.parameter name .plain false [])
  else
    let trims := match o with
      | .trimEnd _ | .trimFront _ => true
      | _ => false
    let style :=
      if trims then .plain
      else if d.level.style = .arithmetic then .double
      else d.level.style
    let d := d.enclose (.parameter name o nonempty)
    let d :=
      if style ≠ d.level.style || d.level.inner then
        d.push { style, isOperand := true, doubled := style ≠ .plain }
      else d
    return { d with
      level.depth := d.level.depth + 1
      level.doubledDepth := d.level.doubledDepth + (if d.level.doubled then 1 else 0) }

/-- What a dollar sign begins. `commands` reads commands up to a parenthesis, if that is asked for. -/
def dollar (commands : Bool → Reader (Option Command)) (d : Draft) : Reader Draft := do
  let c ← joined
  if (← get).checks.isMark ||
      !c.any (fun c => c = '(' || c = '\x7b' || Bytes.isNameStart c || isSpecial c) then
    unread c
    return d.addByte '$'
  else if c = some '(' then
    let e ← joined
    if e = some '(' then
      return (d.enclose .arithmetic).push { style := .arithmetic, doubled := true }
    else
      unread e
      let outer := (← get).pending
      modify fun r => { r with pending := [] }
      let body ← commands true
      modify fun r => { r with pending := outer }
      return d.add (.substitution body)
  else addParameter d c

/-- Puts a byte of a word behind what has been read of it; nothing if the word ends before it. -/
def place (commands : Bool → Reader (Option Command)) (x : Extent) (d : Draft) (c : Char) :
    Reader (Option Draft) := do
  let l := d.level
  let isBetween := l.style ≠ .single
  let marked := l.style ≠ .arithmetic && l.style ≠ .plain && isMarked c || l.style = .single && c = '\\'
  if c = '\n' then
    if l.style = .plain && l.depth = 0 then return none
    else
      countLine
      return d.addByte c
  else if c = '\\' && isBetween then
    match ← next with
    | none => return d.add (.byte '\\' true)
    | some e => return addEscaped x d e
  else if c = '\'' && l.style = .plain then return addQuote x { d with level.style := .single }
  else if c = '"' && l.style = .plain then
    return addDoubleQuote x { d with level.style := .double, level.doubled := true }
  else if c = '\'' && l.style = .single || c = '"' && l.style = .double then return endQuote x d c
  else if c = '$' && isBetween then dollar commands d
  else if c = '\x7d' && isBetween then return endBrace d
  else if c = '(' && l.style = .arithmetic then
    return { d with level.parens := l.parens + 1 }.addByte c
  else if c = ')' && l.style = .arithmetic then
    if l.parens > 0 then return { d with level.parens := l.parens - 1 }.addByte c
    else
      let e ← joined
      if e = some ')' then return d.pop.close
      else
        unread e
        return d.addByte c
  else if c = '\x60' && isBetween then
    if (← get).checks.isMark then return { d with quoted := true }.addByte c
    else
      let text ← backquoted maxSteps l.doubled []
      return d.add (.substitution (← within text (commands false)))
  else if l.style = .plain && l.depth = 0 && isDivider c then return none
  else return d.add (.byte c (marked && (x.isWord || l.doubled)))

/-- Takes tabs, with the byte behind them. -/
def skipTabs (n : Nat) (c : Option Char) : Reader (Option Char) := do
  match n with
  | 0 => return c
  | n + 1 => if c = some '\t' then skipTabs n (← next) else return c

/-- Takes the bytes of a line for as long as they are those of a mark. Gives the bytes that were taken, the
last one first, and whether the line is the mark. -/
def compare (c : Option Char) (taken : List (Option Char)) : Bytes → Reader (List (Option Char) × Bool)
  | [] => return (c :: taken, c = some '\n' || c.isNone)
  | m :: mark => do
    if c = some m then compare (← next) (c :: taken) mark else return (c :: taken, false)

/-- The first byte of a line that begins with `c`; none if the line is the mark. -/
def beginLine (x : Extent) (c : Option Char) : Reader (Option Char) := do
  match x with
  | .mark line stripsTabs =>
    let c ← if stripsTabs then skipTabs maxSteps c else pure c
    let (taken, ends) ← compare c [] line
    if ends then
      countLine
      return none
    else
      for e in taken.dropLast do unread e
      return taken.getLast?.getD none
  | _ => return c

/-- Reads a word from the byte `c` on, which may begin a line. -/
def draft (commands : Bool → Reader (Option Command)) (x : Extent) (n : Nat) (begins : Bool) (d : Draft)
    (c : Option Char) : Reader (Draft × Option Char) := do
  let c ← if begins then beginLine x c else pure c
  match n, c with
  | n + 1, some b =>
    match ← place commands x d b with
    | none => return (d, c)
    | some d =>
      let e ← if d.level.style = .single then next else joined
      draft commands x n (b = '\n') d e
  | _, _ => return (d, c)

/-- Reads a text in a style from the byte `c` on, and the byte behind it. -/
def text (commands : Bool → Reader (Option Command)) (x : Extent) (style : Style) (c : Option Char) :
    Reader (Draft × Option Char) := do
  let (d, c) ← draft commands x maxSteps true { level := { style, doubled := style = .double } } c
  if d.level.style = .arithmetic then refuse "Missing '))'"
  if d.level.style ≠ .plain && x.isWord then refuse "Unterminated quoted string"
  if d.level.depth ≠ 0 then refuse "Missing '\x7d'"
  return ({ d with pieces := d.pieces.reverse }, c)

/-- The file or descriptor that a sign of redirection opens. -/
def openingOf (output : Bool) (descriptor : Option Nat) : Reader Opening := do
  let e ← joined
  if output then
    let n := descriptor.getD 1
    match e with
    | some '>' => return .file n .append false
    | some '|' => return .file n .write true
    | some '&' => return .copy n
    | _ =>
      unread e
      return .file n .write false
  else
    let n := descriptor.getD 0
    match e with
    | some '<' =>
      let f ← joined
      if f = some '-' then return .document n true
      else
        unread f
        return .document n false
    | some '&' => return .copy n
    | some '>' => return .file n .readWrite false
    | _ =>
      unread e
      return .file n .read false

/-- Reads a word or a redirection from the byte `c` on. -/
def wordToken (commands : Bool → Reader (Option Command)) (c : Option Char) : Reader Token := do
  let (d, c) ← text commands .word .plain c
  let descriptor? : Option (Option Nat) :=
    match d.pieces with
    | [] => some none
    | [.byte b false] => if b.isDigit then some (some (b.toNat - 48)) else none
    | _ => none
  match (if d.quoted then none else descriptor?), c with
  | some descriptor, some '<' =>
    let opening ← openingOf false descriptor
    modify fun r => { r with opening }
    return .redirection
  | some descriptor, some '>' =>
    let opening ← openingOf true descriptor
    modify fun r => { r with opening }
    return .redirection
  | _, _ =>
    unread c
    modify fun r => { r with word := d.pieces, quoted := d.quoted }
    return .word

/-- Reads the texts of the documents that the line before has named. -/
def documents (commands : Bool → Reader (Option Command)) : Reader Unit := do
  let pending := (← get).pending
  modify fun r => { r with pending := [] }
  for p in pending do
    let extent := Extent.mark p.mark p.stripsTabs
    let (d, _) ←
      if p.expands then text commands extent .double (← joined)
      else text commands extent .single (← next)
    modify fun r => { r with documents := r.documents.setIfInBounds p.number d.pieces }

/-- Reads a token without regard to keywords and aliases. `n` bounds the number of blanks before it. -/
def rawToken (commands : Bool → Reader (Option Command)) (n : Nat) : Reader Token := do
  let twofold (c : Char) (one two : Token) : Reader Token := do
    let e ← joined
    if e = some c then return two
    else
      unread e
      return one
  match n, ← joined with
  | _, none => return .endOfFile
  | 0, _ => return .endOfFile
  | n + 1, some ' ' | n + 1, some '\t' => rawToken commands n
  | n + 1, some '#' =>
    skipComment maxSteps
    rawToken commands n
  | _, some '\n' =>
    countLine
    return .newline
  | _, some '&' => twofold '&' .ampersand .and
  | _, some '|' => twofold '|' .pipe .or
  | _, some ';' => twofold ';' .semicolon .clauseEnd
  | _, some '(' => return .openParen
  | _, some ')' => return .closeParen
  | _, c => wordToken commands c

/-- A token, or the one that was pushed back. -/
def anyToken (commands : Bool → Reader (Option Command)) : Reader Token := do
  let r ← get
  if r.pushedBack then
    set { r with pushedBack := false }
    return r.token
  else
    let token ← rawToken commands maxSteps
    modify fun r => { r with token }
    return token

/-- A token behind newlines, with the texts of documents that come with them. -/
def behindNewlines (commands : Bool → Reader (Option Command)) (n : Nat) : Reader Token := do
  match n, ← anyToken commands with
  | n + 1, .newline =>
    documents commands
    behindNewlines commands n
  | _, t => return t

/-- Takes the next token, of which it was told what to check. `n` bounds the number of aliases. -/
def checkedToken (commands : Bool → Reader (Option Command)) (checks : Checks) (n : Nat) : Reader Token := do
  let t ← if checks.newlines then behindNewlines commands maxSteps else anyToken commands
  let r ← get
  let checks := checks.union r.checks
  match n, (if t = .word && !r.quoted then Word.literal? r.word else none) with
  | n + 1, some text =>
    match (if checks.keywords then Keyword.ofText? (String.ofList text) else none) with
    | some k =>
      modify fun r => { r with token := .keyword k }
      return .keyword k
    | none =>
      match (if checks.aliases then alias? r text else none) with
      | some replacement =>
        if !replacement.isEmpty then insert text replacement
        checkedToken commands checks n
      | none => return t
  | _, _ => return t

/-- Takes the next token. -/
def token (commands : Bool → Reader (Option Command)) : Reader Token := do
  let t ← checkedToken commands (← get).checks maxSteps
  modify fun r => { r with checks := {} }
  return t

/-- Says what is to be checked of the next token. -/
def check (checks : Checks) : Reader Unit :=
  modify fun r => { r with checks }

/-- The last token is to be taken again. -/
def pushBack : Reader Unit :=
  modify fun r => { r with pushedBack := true }

end Reader

end LocaleForge.Shell
