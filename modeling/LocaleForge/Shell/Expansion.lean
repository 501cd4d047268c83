import LocaleForge.Shell.Arithmetic
import LocaleForge.Shell.Options
import LocaleForge.Shell.PathPattern
import LocaleForge.Shell.Split

/-!
Expanding words: parameters, the output of commands, arithmetic and the paths that match patterns. Quotes
keep values whole.
-/

namespace LocaleForge.Shell

/-- How a word is expanded. -/
structure Manner where
  /-- Into fields. -/
  divides : Bool := false
  /-- In double quotes. -/
  quoted : Bool := false
  /-- As an assignment, in which home directories may also stand behind colons. -/
  assigns : Bool := false
  /-- As the word of an expansion. -/
  isOperand : Bool := false
deriving DecidableEq, Repr

/-- Runs a command within a word and gives its output. -/
abbrev Capture := Option Command → Run Bytes

namespace Expansion

/-- The arguments as one text. -/
def joinedArguments (s : State) (name : Bytes) (divides quoted : Bool) : Bytes :=
  let dividers? := s.value? "IFS"
  let divider : Bytes :=
    if divides && quoted && name = ['@'] then ['\x00']
    else if divides && !quoted then (if dividers?.isSome then ['\x00'] else [' '])
    else dividers?.elim [' '] (·.take 1)
  List.intercalate divider s.arguments

/-- The value of a parameter. -/
def parameter? (s : State) (name : Bytes) (divides quoted : Bool) : Option Bytes :=
  match name with
  | ['@'] | ['*'] => some (joinedArguments s name divides quoted)
  | ['$'] => some (Bytes.ofNat s.number)
  | ['?'] => some (Bytes.ofNat s.status)
  | ['#'] => some (Bytes.ofNat s.arguments.length)
  | ['!'] => s.lastBeside.map Bytes.ofNat
  | ['-'] => some (optionLetters s)
  | _ =>
    if Decimal.isNumeral name then
      match Decimal.ofDigits 10 name with
      | 0 => some s.name
      | n + 1 => s.arguments[n]?
    else s.value? name

/-- The home directory that a name stands for. -/
def home? (s : State) (name : Bytes) : Option Bytes :=
  if name.isEmpty then s.value? "HOME" else if name = "root" then some "/root" else none

/-- The home directory at the front of a text, and the text behind its name. `closed` says that the word ends
with the text. -/
def homeIn? (s : State) (assigns closed : Bool) (bs : Bytes) : Option (Bytes × Bytes) :=
  match bs with
  | '~' :: cs =>
    let name := cs.takeWhile fun c => c ≠ '/' && !(assigns && c = ':')
    let rest := cs.drop name.length
    if rest.isEmpty && !closed then none else (home? s name).map (·, rest)
  | _ => none

/-- An assigned text with its home directories, which stand behind colons; `begins` says that one may stand
at the front, too. `n` bounds the length. -/
def assignedText (s : State) (n : Nat) (closed begins : Bool) (bs : Bytes) : List Glyph :=
  match n with
  | 0 => Glyph.ofBytes false bs
  | n + 1 =>
    match (if begins then homeIn? s true closed bs else none), bs with
    | some (home, rest), _ => Glyph.ofBytes true home ++ assignedText s n closed false rest
    | none, [] => []
    | none, c :: cs => .byte c false :: assignedText s n closed (c = ':') cs

/-- The bytes at the front of a word that are neither quoted nor expanded, and what stands behind them. -/
def plainFront : Word → Bytes × Word
  | .byte c false :: rest =>
    let (cs, rest) := plainFront rest
    (c :: cs, rest)
  | rest => ([], rest)

/-- The spans of a text in a word. -/
def textSpans (s : State) (m : Manner) (inQuotes begins closed : Bool) (bs : Bytes) : List Span :=
  if m.assigns then [⟨.whole, assignedText s (2 * bs.length + 1) closed begins bs⟩]
  else
    let kind := if m.isOperand && !m.quoted && !inQuotes then Splitting.divided else .whole
    match (if begins then homeIn? s false closed bs else none) with
    | some (home, rest) => [⟨.whole, Glyph.ofBytes true home⟩, ⟨kind, Glyph.ofBytes false rest⟩]
    | none => [⟨kind, Glyph.ofBytes false bs⟩]

/-- How a value is split. -/
def valueSplitting (s : State) (name : Bytes) (quoted : Bool) : Splitting :=
  if !quoted then .divided
  else if name = ['@'] && !s.arguments.isEmpty then .listed
  else .whole

/-- A missing value is a fault. -/
def failUnset {α : Type} (name message : Bytes) : Run α :=
  fail (name ++ ": " ++ message)

/-- An upper bound for the depth of words within words. -/
def maxDepth := 1000000

mutual

/-- The spans of a word. `inQuotes` says that quotes have begun before it, and `begins` that a home directory
may stand at its front. -/
def spansUpTo (n : Nat) (capture : Capture) (m : Manner) (inQuotes begins : Bool) (w : Word) :
    Run (List Span) :=
  match n with
  | 0 => throw (.over (.exited 2))
  | n + 1 => do
    let quoted := m.quoted || inQuotes
    match w with
    | [] => return []
    | .byte c true :: rest =>
      return ⟨.whole, [.byte c true]⟩ :: (← spansUpTo n capture m inQuotes false rest)
    | .byte c false :: rest =>
      let (bs, rest) := plainFront (.byte c false :: rest)
      let front := textSpans (← get) m inQuotes begins rest.isEmpty bs
      return front ++ (← spansUpTo n capture m inQuotes false rest)
    | .quote :: rest =>
      match inQuotes, rest with
      | false, .parameter ['@'] .plain false [] :: .quote :: rest =>
        let value ← parameterUpTo n capture { m with quoted := true } ['@'] .plain false []
        return value ++ (← spansUpTo n capture m inQuotes false rest)
      | _, _ => return ⟨.whole, [.quote]⟩ :: (← spansUpTo n capture m (!inQuotes) false rest)
    | .parameter name operation nonempty word :: rest =>
      let value ← parameterUpTo n capture { m with quoted } name operation nonempty word
      return value ++ (← spansUpTo n capture m inQuotes false rest)
    | .substitution command :: rest =>
      let output := Bytes.chomp ((← capture command).filter (· ≠ '\x00'))
      let value : Span := ⟨if quoted then .whole else .divided, Glyph.ofBytes quoted output⟩
      return value :: (← spansUpTo n capture m inQuotes false rest)
    | .arithmetic expression :: rest =>
      let text ← spansUpTo n capture {} false false expression
      let result ← Arithmetic.evaluate (Span.plain text)
      let value : Span :=
        ⟨if quoted then .whole else .divided, Glyph.ofBytes quoted (Bytes.ofInt result)⟩
      return value :: (← spansUpTo n capture m inQuotes false rest)

/-- The spans of the expansion of a parameter. -/
def parameterUpTo (n : Nat) (capture : Capture) (m : Manner) (name : Bytes) (operation : Operation)
    (nonempty : Bool) (word : Word) : Run (List Span) :=
  match n with
  | 0 => throw (.over (.exited 2))
  | n + 1 => do
    let s ← get
    let value? := parameter? s name m.divides m.quoted
    let found? := value?.filter fun v => !(nonempty && v.isEmpty)
    let operand : Run (List Span) := spansUpTo n capture { m with isOperand := true } false true word
    let found (s : State) (gs : List Glyph) : List Span := [⟨valueSplitting s name m.quoted, gs⟩]
    let checked : Run Unit := do
      if found?.isNone && s.has "nounset" then failUnset name "parameter not set"
    match operation, found? with
    | .bad, _ => fail "Bad substitution"
    | .alternative, some _ => operand
    | .alternative, none => return []
    | .default, none => operand
    | .assign, none =>
      let text ← spansUpTo n capture {} false true word
      setNamed name (some (Span.plain text)) false false
      let s ← get
      return found s (Glyph.ofBytes m.quoted ((parameter? s name m.divides m.quoted).getD []))
    | .required, none =>
      let text ← spansUpTo n capture {} false true word
      failUnset name
        (if word.isEmpty then "parameter not set" ++ (if nonempty then " or null" else "")
          else Span.plain text)
    | .length, _ =>
      checked
      let length := ((parameter? s name false m.quoted).getD []).length
      return found s (Glyph.ofBytes m.quoted (Bytes.ofNat length))
    | .trimEnd longest, some v =>
      let pattern ← spansUpTo n capture {} false true word
      let ws := Wildcard.parse (Glyph.pattern (pattern.flatMap (·.glyphs)))
      return found (← get) (trimEnd longest ws (Glyph.ofBytes m.quoted v))
    | .trimFront longest, some v =>
      let pattern ← spansUpTo n capture {} false true word
      let ws := Wildcard.parse (Glyph.pattern (pattern.flatMap (·.glyphs)))
      return found (← get) (trimFront longest ws (Glyph.ofBytes m.quoted v))
    | .plain, none | .trimEnd _, none | .trimFront _, none =>
      checked
      return []
    | .plain, some v | .default, some v | .assign, some v | .required, some v =>
      return found s (Glyph.ofBytes m.quoted v)

end

/-- The spans of a word. -/
def spans (capture : Capture) (m : Manner) (begins : Bool) (w : Word) : Run (List Span) :=
  spansUpTo maxDepth capture m false begins w

/-- A word expanded to one text. -/
def text (capture : Capture) (w : Word) : Run Bytes :=
  return Span.plain (← spans capture {} true w)

/-- The name and the value of an assignment. -/
def assigned (capture : Capture) (w : Word) : Run (Bytes × Bytes) := do
  let (front, rest) := plainFront w
  let name := front.takeWhile (· ≠ '=')
  let value := (front.drop (name.length + 1)).map (Piece.byte · false) ++ rest
  return (name, Span.plain (← spans capture { assigns := true } true value))

/-- A text of the script itself, in which quotes are only bytes. -/
def document (capture : Capture) (w : Word) : Run Bytes :=
  return Span.plain (← spans capture { quoted := true } false w)

/-- The pattern in a word. -/
def pattern (capture : Capture) (w : Word) : Run (List Wildcard) := do
  return Wildcard.parse (Glyph.pattern ((← spans capture {} true w).flatMap (·.glyphs)))

/-- The fields of a word. -/
def fields (capture : Capture) (w : Word) : Run (List Bytes) := do
  let spans ← spans capture { divides := true } true w
  let s ← get
  let fields := Division.fieldsOf s.dividers none spans
  return fields.flatMap fun gs =>
    if s.has "noglob" then [Glyph.plain gs] else PathPattern.resolve s.process.world.disk gs

/-- The fields of words. -/
def allFields (capture : Capture) : List Word → Run (List Bytes)
  | [] => return []
  | w :: ws => do
    let front ← fields capture w
    return front ++ (← allFields capture ws)

end Expansion

end LocaleForge.Shell
