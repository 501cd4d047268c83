import LocaleForge.Editing.Script
import LocaleForge.Editing.Source

/-!
Reading scripts. A script may come in several parts; a text that is not at its end with the one part
goes on in the next.
-/

namespace LocaleForge.Editing

/-- How a script is read. -/
structure Rules where
  extended : Bool := false
  /-- Commands that reach beyond the lines are not allowed. -/
  confined : Bool := false
deriving DecidableEq, Repr

/-- A block that has been opened: its command, and where it stands. -/
structure Block where
  index : Nat
  place : Source

/-- A script while it is read. -/
structure Draft where
  rules : Rules
  script : Script := {}
  blocks : List Block := []
  /-- The text of the last command while it is not at its end. -/
  pending : Option Bytes := none
  /-- The files that lines are written to, the latest first. -/
  files : List Bytes := []
  /-- The part that is read. -/
  source : Source := ⟨.expression 0, [], 0, 1⟩
  /-- Nothing else has been read before this part. -/
  isFirst : Bool := true

/-- Reads from a draft and adds to it. -/
abbrev Reader := EStateM Fault Draft

namespace Reader

def setSource (s : Source) : Reader Unit :=
  modify ({ · with source := s })

/-- The byte at the place. -/
def peek? : Reader (Option Char) :=
  return (← get).source.rest.head?

/-- Goes on behind `n` bytes. -/
def skip (n : Nat) : Reader Unit := do
  setSource ((← get).source.drop n)

/-- Takes a byte. -/
def next? : Reader (Option Char) := do
  let c ← peek?
  skip 1
  return c

/-- Takes bytes for as long as they satisfy `p`. -/
def takeWhile (p : Char → Bool) : Reader Bytes := do
  let bs := (← get).source.rest.takeWhile p
  skip bs.length
  return bs

def skipBlanks : Reader Unit := do
  let _ ← takeWhile Bytes.isBlank

/-- Takes a number; no digits are zero. -/
def number : Reader Nat := do
  let ds ← takeWhile Char.isDigit
  return Decimal.ofDigits 10 ds

/-- Takes a text up to a delimiter. -/
def delimited (isPattern : Bool) (delimiter : Char) : Reader (Option Bytes) := do
  let (text, rest) := Editing.delimited isPattern delimiter none (← get).source.rest
  modify fun d => { d with source := d.source.goTo rest }
  return text

/-- Replaces escapes. -/
def unescaped (u : Usage) (bs : Bytes) : Reader Bytes :=
  match unescape u (bs.length + 1) bs with
  | .ok bs => return bs
  | .error e => throw e

/-- Reads a pattern; an empty one stands for the pattern that was used last. A replacement may refer to
the groups up to `groups`. -/
def pattern (text : Bytes) (ignoresCase multiline : Bool) (groups : Nat) : Reader (Option Regex.Pattern) := do
  if text.isEmpty then
    if ignoresCase || multiline then throw .flagsWithoutPattern
    return none
  let text ← unescaped .pattern text
  let dialect : Regex.Dialect := { extended := (← get).rules.extended, ignoresCase, multiline }
  match Regex.Pattern.parse dialect text with
  | .error e => throw (.pattern e)
  | .ok p =>
    if p.groups < groups then throw (.missingGroup groups)
    if Regex.hasBareClass dialect (text.length + 1) text then throw .bareClass
    return some p

/-- Takes the letters that change how a pattern in an address is meant. -/
def addressFlags : Reader (Bool × Bool) := do
  let flags ← takeWhile fun c => Bytes.isBlank c || c = 'I' || c = 'M'
  return (flags.contains 'I', flags.contains 'M')

/-- An address, if one comes next. -/
def address? : Reader (Option Address) := do
  match ← peek? with
  | none => return none
  | some c =>
    if c = '/' || c = '\\' then
      if c = '\\' then skip 1
      match ← next? with
      | none => throw .openPattern
      | some delimiter =>
        match ← delimited true delimiter with
        | none => throw .openPattern
        | some text =>
          let (ignoresCase, multiline) ← addressFlags
          return some (.found (← pattern text ignoresCase multiline 0))
    else if c.isDigit then
      let first ← number
      skipBlanks
      if (← peek?) = some '~' then
        skip 1
        skipBlanks
        let step ← number
        return some (if step = 0 then .line first else .steps first step)
      else return some (.line first)
    else if c = '$' then
      skip 1
      return some .last
    else return none

/-- The end of a range. -/
def rangeEnd : Reader RangeEnd := do
  let c ← peek?
  if c = some '+' || c = some '~' then
    skip 1
    skipBlanks
    let n ← number
    return if c = some '+' then .later n else .multiple n
  else
    match ← address? with
    | some a => return .address a
    | none =>
      skip 1
      throw .unexpectedComma

/-- The lines that a command is for. -/
def selection : Reader Selection := do
  match ← address? with
  | none =>
    if (← peek?) = some '+' || (← peek?) = some '~' then
      skip 1
      skipBlanks
      let _ ← number
      throw .stepFirst
    return .all
  | some first =>
    skipBlanks
    let isZero := match first with
      | .line 0 => true
      | _ => false
    if (← peek?) = some ',' then
      skip 1
      skipBlanks
      let last ← rangeEnd
      skipBlanks
      let finds := match last with
        | .address (.found _) => true
        | _ => false
      if isZero && !finds then
        skip 1
        throw .lineZero
      return .range first last
    else
      if isZero && (← peek?) ≠ some 'r' then
        skip 1
        throw .lineZero
      return .single first

/-- Nothing but the end of a command comes next. -/
def endOfCommand : Reader Unit := do
  skipBlanks
  match ← peek? with
  | none => return
  | some c =>
    if c = '\x7d' || c = '#' then return
    skip 1
    if c ≠ '\n' && c ≠ ';' then throw .junkBehindCommand

def label : Reader Bytes := do
  skipBlanks
  takeWhile fun c => !Bytes.isSpace c && c ≠ ';' && c ≠ '\x7d'

def fileName : Reader Bytes := do
  skipBlanks
  let name ← takeWhile (· ≠ '\n')
  skip 1
  if name.isEmpty then throw .missingFile
  return name

/-- The place where lines are written. -/
def target : Reader Target := do
  let name ← fileName
  if name = ofText "/dev/stdout" then return .output
  else if name = ofText "/dev/stderr" then return .errors
  else
    modify fun d => { d with files := if d.files.contains name then d.files else name :: d.files }
    return .file name
where
  ofText (s : String) : Bytes := s

/-- Parts of a replacement. `text` is the text since the last part, in reverse. `now` are the letters of
the next part and `later` those behind it. -/
def pieces (now : Letters) (later : Casing) (text : Bytes) : Bytes → List Piece
  | [] => if text.isEmpty then [] else [⟨text.reverse, none, now⟩]
  | ['\\'] => [⟨text.reverse ++ ['\\'], none, now⟩]
  | '\\' :: c :: rest =>
    let before (group : Option Nat) : Piece := ⟨text.reverse, group, now⟩
    let plain : Letters := { rest := later }
    if c.isDigit then before (some (c.toNat - '0'.toNat)) :: pieces plain later [] rest
    else
      match c with
      | 'L' => before none :: pieces { rest := .lower } .lower [] rest
      | 'U' => before none :: pieces { rest := .upper } .upper [] rest
      | 'E' => before none :: pieces {} .kept [] rest
      | 'l' => before none :: pieces { plain with first := some .lower } later [] rest
      | 'u' => before none :: pieces { plain with first := some .upper } later [] rest
      | _ => pieces now later (c :: text) rest
  | '&' :: rest => ⟨text.reverse, some 0, now⟩ :: pieces { rest := later } later [] rest
  | c :: rest => pieces now later (c :: text) rest

/-- The letters behind a substitution. `n` bounds their number. -/
def flags (n : Nat) (s : Substitution) (ignoresCase multiline : Bool) :
    Reader (Substitution × Bool × Bool) := do
  match n with
  | 0 => return (s, ignoresCase, multiline)
  | n + 1 =>
    match ← peek? with
    | none => return (s, ignoresCase, multiline)
    | some c =>
      if c = '\x7d' || c = '#' then return (s, ignoresCase, multiline)
      if c.isDigit then
        if s.number ≠ 0 then
          skip 1
          throw .manyNumbers
        let k ← number
        if k = 0 then throw .zeroNumber
        flags n { s with number := k } ignoresCase multiline
      else
        skip 1
        match c with
        | 'i' | 'I' => flags n s true multiline
        | 'm' | 'M' => flags n s ignoresCase true
        | 'e' => flags n { s with runs := true } ignoresCase multiline
        | 'p' =>
          if s.prints ≠ .never then throw .manyPrints
          flags n { s with prints := if s.runs then .afterwards else .beforeRunning } ignoresCase multiline
        | 'g' =>
          if s.every then throw .manyGlobals
          flags n { s with every := true } ignoresCase multiline
        | 'w' => return ({ s with target := some (← target) }, ignoresCase, multiline)
        | '\n' | ';' => return (s, ignoresCase, multiline)
        | '\x0d' =>
          if (← next?) = some '\n' then return (s, ignoresCase, multiline)
          throw .unknownFlag
        | _ =>
          if Bytes.isBlank c then flags n s ignoresCase multiline else throw .unknownFlag

def substitution : Reader Act := do
  match ← next? with
  | none => throw .openSubstitution
  | some delimiter =>
    let text ← delimited true delimiter
    match text with
    | none => throw .openSubstitution
    | some text =>
      match ← delimited false delimiter with
      | none => throw .openSubstitution
      | some replacement =>
        let parts := pieces {} .kept [] (← unescaped .replacement replacement)
        let draft : Substitution := { pattern := none, pieces := parts }
        let (s, ignoresCase, multiline) ← flags ((← get).source.rest.length + 1) draft false false
        let groups := (parts.filterMap Piece.group).foldl max 0
        let p ← pattern text ignoresCase multiline groups
        if s.runs && (← get).rules.confined then throw .disallowed
        return .substitute { s with pattern := p }

/-- The text without the backslashes that are left in it. -/
def plain : Bytes → Bytes
  | '\\' :: c :: rest => c :: plain rest
  | c :: rest => c :: plain rest
  | [] => []

def translation : Reader Act := do
  match ← next? with
  | none => throw .openTranslation
  | some delimiter =>
    let part : Reader Bytes := do
      match ← delimited false delimiter with
      | none => throw .openTranslation
      | some text => return plain (← unescaped .replacement text)
    let before ← part
    let after ← part
    if before.length ≠ after.length then throw .unequalTranslation
    endOfCommand
    return .translate (before.zip after).reverse

/-- Reads the text of the last command, up to the end of its line. -/
def textOfLast (before : Bytes) : Reader Unit := do
  let (text, rest, goesOn) := textLine (← get).source.rest
  let text := before ++ text ++ ['\n']
  modify fun d => { d with source := d.source.goTo rest }
  let set (text : Bytes) : Reader Unit := modify fun d =>
    let is := d.script.instructions
    let is := is.modify (is.size - 1) fun i => { i with act := Act.withText text i.act }
    { d with script := { d.script with instructions := is } }
  if goesOn then
    modify ({ · with pending := some text })
    set text
  else
    modify ({ · with pending := none })
    set (← unescaped .text text)

/-- Goes to the begin of the text of a command. Gives nothing if the text is in the next part. -/
def beginText : Reader (Option Unit) := do
  skipBlanks
  match ← peek? with
  | none => throw .textExpected
  | some '\\' =>
    skip 1
    match ← peek? with
    | none => return none
    | some '\n' => skip 1
    | some _ => pure ()
    return some ()
  | some _ => return some ()

/-- Adds a command to the script. -/
def add (i : Instruction) : Reader Unit :=
  modify fun d => { d with script := { d.script with instructions := d.script.instructions.push i } }

/-- Adds a command with a text. -/
def addText (i : Instruction) : Reader Unit := do
  let begun ← beginText
  add i
  match begun with
  | some () => textOfLast []
  | none => modify ({ · with pending := some [] })

/-- A status behind a command, or the width of a list. -/
def argument? : Reader (Option Nat) := do
  skipBlanks
  let n ← if (← peek?).any Char.isDigit then some <$> number else pure none
  endOfCommand
  return n

/-- Refuses what scripts in a sandbox must not do. -/
def guardOutside : Reader Unit := do
  if (← get).rules.confined then throw .disallowed

/-- The acts of commands without an argument. -/
def simple? (c : Char) : Option Act :=
  match c with
  | '=' => some .lineNumber
  | 'd' => some .delete
  | 'D' => some .deleteFirst
  | 'F' => some .fileName
  | 'g' => some .get
  | 'G' => some .getMore
  | 'h' => some .hold
  | 'H' => some .holdMore
  | 'n' => some .next
  | 'N' => some .nextMore
  | 'p' => some .print
  | 'P' => some .printFirst
  | 'z' => some .clear
  | 'x' => some .exchange
  | _ => none

/-- The latest version that a script may ask for. -/
def version : List Nat := [4, 9]

/-- The numbers of a version. -/
def numbersOf (bs : Bytes) : List Nat :=
  (Text.cut '.' (Bytes.toName bs)).map fun part => Decimal.ofDigits 10 (part.toList.takeWhile Char.isDigit)

/-- Reads the command of a letter, whose lines are known. -/
def command (c : Char) (selection : Selection) (negated : Bool) : Reader Unit := do
  let isAddressed := match selection with
    | .all => false
    | _ => true
  let isRange := match selection with
    | .range .. => true
    | _ => false
  let put (act : Act) : Reader Unit := add { selection, negated, act }
  match simple? c with
  | some act =>
    endOfCommand
    put act
  | none =>
    match c with
    | '\x7b' =>
      modify fun d =>
        { d with blocks := ⟨d.script.instructions.size, { d.source with consumed := 0 }⟩ :: d.blocks }
      add { selection, negated := !negated }
    | '\x7d' =>
      match (← get).blocks with
      | [] => throw .unexpectedClose
      | b :: blocks =>
        if isAddressed then throw .closeAddressed
        endOfCommand
        modify fun d =>
          let is := d.script.instructions
          let is := is.modify b.index fun i => { i with act := .goTo is.size }
          { d with blocks, script := { d.script with instructions := is } }
    | 'a' => addText { selection, negated, act := .append [] }
    | 'i' => addText { selection, negated, act := .insert [] }
    | 'c' => addText { selection, negated, act := .change [] }
    | 'e' =>
      guardOutside
      skipBlanks
      let c ← peek?
      if c.isNone || c = some '\n' then
        skip 1
        put (.run [])
      else addText { selection, negated, act := .run [] }
    | ':' =>
      if isAddressed then throw .labelAddressed
      let name ← label
      if name.isEmpty then throw .missingLabel
      modify fun d =>
        { d with script := { d.script with labels := (name, d.script.instructions.size) :: d.script.labels } }
    | 'b' => put (.jump .always (← label))
    | 't' => put (.jump .substituted (← label))
    | 'T' => put (.jump .notSubstituted (← label))
    | 'q' | 'Q' =>
      if isRange then throw .oneAddress
      put (.quit (c = 'q') ((← argument?).getD 0))
    | 'l' => put (.list (← argument?))
    | 'r' =>
      guardOutside
      put (.appendFile (← fileName))
    | 'R' =>
      guardOutside
      put (.appendLine (← fileName))
    | 'w' =>
      guardOutside
      put (.write (← target))
    | 'W' =>
      guardOutside
      put (.writeFirst (← target))
    | 's' => put (← substitution)
    | 'y' => put (← translation)
    | _ => throw (.unknownCommand c)

/-- Passes over a comment. One that only says `n`, at the very begin, makes the script silent. -/
def comment : Reader Unit := do
  let d ← get
  let text ← takeWhile (· ≠ '\n')
  skip 1
  if text = ['n'] && d.isFirst && d.source.consumed = 1 then
    modify fun d => { d with script := { d.script with silent := true } }

/-- Reads commands up to the end of the part; `n` bounds their number. -/
def commands (n : Nat) : Reader Unit := do
  match n with
  | 0 => return
  | n + 1 =>
    let _ ← takeWhile fun c => c = ';' || Bytes.isSpace c
    if (← peek?).isNone then return
    let lines ← selection
    skipBlanks
    let negated := (← peek?) = some '!'
    if negated then
      skip 1
      skipBlanks
      if (← peek?) = some '!' then
        skip 1
        throw .manyNegations
    match ← next? with
    | none => throw .missingCommand
    | some '#' =>
      match lines with
      | .all => comment
      | _ => throw .commentAddressed
    | some 'v' =>
      let wanted := numbersOf (← label)
      if version < wanted then throw .newerVersion
    | some c => command c lines negated
    commands n

/-- Reads a part of a script. -/
def part (s : Source) : Reader Unit := do
  setSource s
  match (← get).pending with
  | some text => textOfLast text
  | none => pure ()
  commands (s.rest.length + 1)
  modify ({ · with isFirst := false })

/-- The whole script, of which all parts have been read. -/
def finish : Reader Script := do
  match (← get).blocks with
  | b :: _ =>
    setSource b.place
    throw .openBlock
  | [] =>
    let script := (← get).script
    let missing := script.instructions.toList.reverse.findSome? fun i =>
      match i.act with
      | .jump _ name => if name.isEmpty || (script.labels.lookup name).isSome then none else some name
      | _ => none
    match missing with
    | some name => throw (.unknownLabel name)
    | none => return script

end Reader

end LocaleForge.Editing
