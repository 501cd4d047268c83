import LocaleForge.Shell.Word

/-!
Reading commands, a line of a script after the other. A line goes on until the commands that begin on it are
complete.
-/

namespace LocaleForge.Shell

/-- Builtin commands whose failures end the shell, and whose assignments stay. -/
def specialNames : List String :=
  [".", ":", "break", "continue", "eval", "exec", "exit", "export", "local", "readonly", "return", "set",
    "shift", "times", "trap", "unset"]

namespace Reader

/-- Where a list of commands ends. -/
inductive Closing where
  /-- At the end of the line. -/
  | line
  /-- At a token that ends lists; there is a command before it. -/
  | token
  /-- At a token that ends lists; there may be no command. -/
  | early
deriving DecidableEq

/-- What reads the commands within words. -/
abbrev Nested := Bool → Reader (Option Command)

/-- Takes a token, which must be the expected one. -/
def expect (commands : Nested) (t : Token) : Reader Unit := do
  if (← token commands) ≠ t then refuseToken (some t)

/-- The words up to another token. -/
def words (commands : Nested) (n : Nat) : Reader (List Word) := do
  match n, ← token commands with
  | n + 1, .word =>
    let w := (← get).word
    return w :: (← words commands n)
  | _, _ => return []

/-- The patterns up to a parenthesis. -/
def patterns (commands : Nested) (n : Nat) : Reader (List Word) := do
  let w := (← get).word
  match n, ← token commands with
  | n + 1, .pipe =>
    let _ ← token commands
    return w :: (← patterns commands n)
  | _, .closeParen => return [w]
  | _, _ => refuseToken (some .closeParen)

/-- Takes the target of the redirection that has been opened. -/
def target (commands : Nested) : Reader Redirection := do
  let opening := (← get).opening
  match opening with
  | .document .. => check { isMark := true }
  | _ => pure ()
  if (← token commands) ≠ .word then refuseToken none
  let word := (← get).word
  match opening with
  | .file d mode forced => return .file d mode forced word
  | .copy d =>
    match Word.literal? word with
    | some ['-'] => return .close d
    | some [c] => return if c.isDigit then .copy d (c.toNat - 48) else .copyWord d word
    | _ => return .copyWord d word
  | .document d stripsTabs =>
    modifyGet fun r =>
      let number := r.documents.size
      let pending := ⟨number, Word.plainText word, !r.quoted, stripsTabs⟩
      (.document d number !r.quoted,
        { r with documents := r.documents.push [], pending := r.pending ++ [pending] })

/-- The redirections behind a command. -/
def redirections (commands : Nested) (n : Nat) : Reader (List Redirection) := do
  match n, ← token commands with
  | n + 1, .redirection =>
    let r ← target commands
    return r :: (← redirections commands n)
  | _, _ =>
    pushBack
    return []

/-- The parts of a simple command, each list with the last one first. -/
structure Parts where
  assignments : List Word := []
  words : List Word := []
  redirections : List Redirection := []

/-- Reads the parts of a simple command up to another token. -/
def parts (commands : Nested) (n : Nat) (p : Parts) : Reader Parts := do
  check { aliases := p.words.isEmpty }
  match n, ← token commands with
  | n + 1, .word =>
    let w := (← get).word
    parts commands n <|
      if p.words.isEmpty && Word.isAssignment w then { p with assignments := w :: p.assignments }
      else { p with words := w :: p.words }
  | n + 1, .redirection =>
    let r ← target commands
    parts commands n { p with redirections := r :: p.redirections }
  | _, _ => return p

mutual

/-- Commands one behind the other. -/
def list (n : Nat) (closing : Closing) (before : Option Command) : Reader (Option Command) :=
  match n with
  | 0 => refuse "Command too deep"
  | n + 1 => do
    let commands : Nested := fun closes => nested n closes
    check { Checks.command with newlines := closing ≠ .line }
    match ← token commands with
    | .newline =>
      documents commands
      return before
    | .endOfFile =>
      documents commands
      modify fun r => { r with pushedBack := true, token := .endOfFile }
      return before
    | t =>
      pushBack
      if closing = .early && t.endsList then return before
      else
        let c ← conditional n
        let t ← token commands
        let c :=
          if t = .ampersand then
            match c with
            | .pipeline _ cs => .pipeline true cs
            | .redirected line body rs => .background line body rs
            | c => .background 0 c []
          else c
        let all := some (before.elim c fun b => .sequence b c)
        let closing := if closing = .line then closing else .early
        match t with
        | .ampersand | .semicolon => list n closing all
        | .newline | .endOfFile =>
          pushBack
          list n closing all
        | _ =>
          if closing = .line then refuseToken none
          pushBack
          return all

/-- Commands within a word, with the parenthesis behind them if `closes` is set. -/
def nested (n : Nat) (closes : Bool) : Reader (Option Command) :=
  match n with
  | 0 => refuse "Command too deep"
  | n + 1 => do
    let body ← list n .early none
    if closes then expect (fun closes => nested n closes) .closeParen
    return body

/-- Commands that depend on the success of those before them. -/
def conditional (n : Nat) : Reader Command :=
  match n with
  | 0 => refuse "Command too deep"
  | n + 1 => do
    let first ← pipeline n
    conditions n first

/-- Goes on behind a pipeline. -/
def conditions (n : Nat) (before : Command) : Reader Command :=
  match n with
  | 0 => refuse "Command too deep"
  | n + 1 => do
    match ← token fun closes => nested n closes with
    | .and =>
      check Checks.behindNewlines
      let second ← pipeline n
      conditions n (.both before second)
    | .or =>
      check Checks.behindNewlines
      let second ← pipeline n
      conditions n (.either before second)
    | _ =>
      pushBack
      return before

/-- Commands that are joined by pipes. -/
def pipeline (n : Nat) : Reader Command :=
  match n with
  | 0 => refuse "Command too deep"
  | n + 1 => do
    let negated := (← token fun closes => nested n closes) = .keyword .bang
    if negated then check Checks.command else pushBack
    let first ← command n
    let rest ← pipes n
    let all := if rest.isEmpty then first else .pipeline false (first :: rest)
    return if negated then .negated all else all

/-- The commands behind pipes. -/
def pipes (n : Nat) : Reader (List Command) :=
  match n with
  | 0 => refuse "Command too deep"
  | n + 1 => do
    match ← token fun closes => nested n closes with
    | .pipe =>
      check Checks.behindNewlines
      let c ← command n
      let rest ← pipes n
      return c :: rest
    | _ =>
      pushBack
      return []

/-- Commands up to a token, which is taken. -/
def body (n : Nat) (close : Token) : Reader Command :=
  match n with
  | 0 => refuse "Command too deep"
  | n + 1 => do
    let c ← list n .token none
    expect (fun closes => nested n closes) close
    match c with
    | some c => return c
    | none => refuse "Command too deep"

/-- The condition of a branch and what follows it. -/
def branch (n : Nat) : Reader Command :=
  match n with
  | 0 => refuse "Command too deep"
  | n + 1 => do
    let commands : Nested := fun closes => nested n closes
    let test ← body n (.keyword .thenWord)
    let positive ← list n .token none
    match ← token commands, positive with
    | .keyword .elifWord, some positive =>
      let negative ← branch n
      return .branch test positive (some negative)
    | .keyword .elseWord, some positive =>
      let negative ← body n (.keyword .fiWord)
      return .branch test positive (some negative)
    | .keyword .fiWord, some positive => return .branch test positive none
    | _, _ => refuseToken (some (.keyword .fiWord))

/-- The clauses that a word chooses from. -/
def clauses (n : Nat) : Reader (List (List Word × Option Command)) :=
  match n with
  | 0 => refuse "Command too deep"
  | n + 1 => do
    let commands : Nested := fun closes => nested n closes
    check { keywords := true, newlines := true }
    let t ← token commands
    if t = .keyword .esacWord then return []
    else
      if t = .openParen then
        let _ ← token commands
      let ps ← patterns commands maxSteps
      let action ← list n .early none
      check { keywords := true, newlines := true }
      match ← token commands with
      | .keyword .esacWord => return [(ps, action)]
      | .clauseEnd =>
        let rest ← clauses n
        return (ps, action) :: rest
      | _ => refuseToken (some .clauseEnd)

/-- A command. -/
def command (n : Nat) : Reader Command :=
  match n with
  | 0 => refuse "Command too deep"
  | n + 1 => do
    let commands : Nested := fun closes => nested n closes
    let line := (← get).line
    let t ← token commands
    let redirect (c : Command) : Reader Command := do
      check Checks.command
      match c, ← redirections commands maxSteps with
      | c, [] => return c
      | .subshell line b _, rs => return .subshell line b rs
      | c, rs => return .redirected line c rs
    match t with
    | .keyword .ifWord =>
      let c ← branch n
      redirect c
    | .keyword .whileWord =>
      let test ← body n (.keyword .doWord)
      let b ← body n (.keyword .doneWord)
      redirect (.loop false test b)
    | .keyword .untilWord =>
      let test ← body n (.keyword .doWord)
      let b ← body n (.keyword .doneWord)
      redirect (.loop true test b)
    | .keyword .forWord =>
      let t ← token commands
      let r ← get
      let name := Word.plainText r.word
      if t ≠ .word || r.quoted || (Word.literal? r.word).isNone || !Bytes.isName name then
        refuse "Bad for loop variable"
      check Checks.behindNewlines
      let t ← token commands
      let ws ←
        if t = .keyword .inWord then
          let ws ← words commands maxSteps
          let t := (← get).token
          if t ≠ .newline && t ≠ .semicolon then refuseToken none
          pure ws
        else
          if t ≠ .semicolon then pushBack
          pure [[.quote, .parameter ['@'] .plain false [], .quote]]
      check Checks.behindNewlines
      expect commands (.keyword .doWord)
      let b ← body n (.keyword .doneWord)
      redirect (.iterate line name ws b)
    | .keyword .caseWord =>
      expect commands .word
      let subject := (← get).word
      check Checks.behindNewlines
      expect commands (.keyword .inWord)
      let cs ← clauses n
      redirect (.select line subject cs)
    | .openParen =>
      let b ← body n .closeParen
      redirect (.subshell line b [])
    | .keyword .openBrace =>
      let b ← body n (.keyword .closeBrace)
      redirect b
    | .word | .redirection =>
      pushBack
      simple n
    | _ => refuseToken none

/-- A simple command, or the definition of a function. -/
def simple (n : Nat) : Reader Command :=
  match n with
  | 0 => refuse "Command too deep"
  | n + 1 => do
    let commands : Nested := fun closes => nested n closes
    let line := (← get).line
    let p ← parts commands maxSteps {}
    match (← get).token, p with
    | .openParen, { assignments := [], words := [name], redirections := [] } =>
      expect commands .closeParen
      match (Word.literal? name).filter Bytes.isName with
      | some name =>
        if specialNames.contains (String.ofList name) then refuse "Bad function name"
        check Checks.behindNewlines
        let b ← command n
        return .define name b
      | none => refuse "Bad function name"
    | _, _ =>
      pushBack
      return .simple line p.assignments.reverse p.words.reverse p.redirections.reverse

end

/-- The commands of the next line, which may be none; nothing at the end of the script. -/
def line : Reader (Option (Option Command)) := do
  modify fun r => { r with pushedBack := false, checks := {}, pending := [] }
  let c ← list maxSteps .line none
  return if c.isNone && (← get).token = .endOfFile then none else some c

/-- The whole text in the style of double quotes. -/
def doubled : Reader Word := do
  let (d, _) ← text (fun closes => nested maxSteps closes) .everything .double (← joined)
  return d.pieces

end Reader

end LocaleForge.Shell
