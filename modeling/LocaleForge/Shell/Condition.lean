import LocaleForge.Shell.Variables

/-!
Conditions on texts, numbers and files, as commands of their own.
-/

namespace LocaleForge.Shell.Condition

/-- What a sign in a condition asks. -/
inductive Sign where
  /-- About a file, by the letter of the question. -/
  | file (letter : Char)
  | isEmpty
  | isNonempty
  | isTerminal
  /-- About the order of two texts. -/
  | text (holds : Ordering → Bool)
  /-- About the order of two numbers. -/
  | number (holds : Ordering → Bool)
  /-- About two files, by the letters of the question. -/
  | files (letters : String)
  | not
  | and
  | or
  | openParen
  | closeParen

namespace Sign

def isUnary : Sign → Bool
  | file _ | isEmpty | isNonempty | isTerminal => true
  | _ => false

def isBinary : Sign → Bool
  | text _ | number _ | files _ => true
  | _ => false

/-- The sign that a word is. -/
def ofWord? (w : Bytes) : Option Sign :=
  match String.ofList w with
  | "=" => some (text (·.isEq))
  | "!=" => some (text (·.isNe))
  | "<" => some (text (·.isLT))
  | ">" => some (text (·.isGT))
  | "-eq" => some (number (·.isEq))
  | "-ne" => some (number (·.isNe))
  | "-ge" => some (number (·.isGE))
  | "-gt" => some (number (·.isGT))
  | "-le" => some (number (·.isLE))
  | "-lt" => some (number (·.isLT))
  | "-nt" => some (files "nt")
  | "-ot" => some (files "ot")
  | "-ef" => some (files "ef")
  | "!" => some not
  | "-a" => some and
  | "-o" => some or
  | "(" => some openParen
  | ")" => some closeParen
  | "-z" => some isEmpty
  | "-n" => some isNonempty
  | "-t" => some isTerminal
  | _ =>
    match w with
    | ['-', c] => if "rwxefdcbpugkshOGLS".toList.contains c then some (file c) else none
    | _ => none

end Sign

/-- A word of a condition. -/
inductive Token where
  | finish
  | operand
  | sign (s : Sign)

/-- What the first of some words is. -/
def tokenOf : List Bytes → Token
  | [] => .finish
  | w :: rest =>
    match Sign.ofWord? w with
    | none => .operand
    | some s =>
      let isOperand := match rest with
        | [] => s.isUnary || (s matches .openParen)
        | [_] => false
        | next :: _ :: _ => s.isUnary && (Sign.ofWord? next).any Sign.isBinary
      if isOperand then .operand else .sign s

/-- What lies at a path. -/
inductive Kind where
  | device
  | directory
  | file (size : Nat) (executable : Bool)
  | link
deriving DecidableEq

def Kind.isFile : Kind → Bool
  | file .. => true
  | _ => false

/-- What lies at a path, behind a link at its end or not. -/
def kind? (follow : Bool) (path : Bytes) : Run (Option Kind) := do
  if path = "/dev/null" || path = "/dev/full" then return some .device
  match (← get).process.world.disk.find follow (Bytes.toPath path) with
  | .error _ => return none
  | .ok spot =>
    return spot.entry.map fun
      | .file content x => .file content.size x
      | .directory => .directory
      | .link _ => .link

/-- The answer to a question about a file. -/
def fileHolds (letter : Char) (path : Bytes) : Run Bool := do
  match ← kind? (letter ≠ 'h' && letter ≠ 'L') path with
  | none => return false
  | some k =>
    return match letter with
    | 'f' => k.isFile
    | 'd' => k = .directory
    | 'c' => k = .device
    | 'h' | 'L' => k = .link
    | 's' =>
      match k with
      | .file size _ => size ≠ 0
      | k => k ≠ .device
    | 'x' =>
      match k with
      | .file _ x => x
      | k => k ≠ .device
    | 'b' | 'p' | 'u' | 'g' | 'k' | 'S' => false
    | _ => true

/-- The answer to a question about two files. -/
def filesHold (letters : String) (a b : Bytes) : Run Bool := do
  let disk := (← get).process.world.disk
  let location? (path : Bytes) : Option Location := (disk.locate (Bytes.toPath path)).toOption
  return letters = "ef" && (location? a).isSome && location? a = location? b

/-- Works out a condition, from the word on that has been reached. -/
abbrev Judging := StateT (List Bytes) Run

/-- Refuses a condition because of a word. -/
def refuse {α : Type} (word message : Bytes) : Judging α :=
  fail (if word.isEmpty then message else word ++ ": " ++ message)

/-- Goes on by a word, and tells what the next one is. -/
def advance : Judging Token := do
  modify (·.tail)
  return tokenOf (← get)

/-- What the word behind the one that has been reached is. -/
def upcoming : Judging Token := do
  return tokenOf (← get).tail

/-- The order of two numbers, or of two texts. -/
def orderOf (s : Sign) (a b : Bytes) : Run Ordering := do
  match s with
  | .number _ =>
    let m ← numberIn 10 a
    let n ← numberIn 10 b
    return compare m n
  | _ => return if a < b then .lt else if a = b then .eq else .gt

/-- A comparison of the word that has been reached with the one behind the sign. -/
def comparison (s : Sign) : Judging Bool := do
  let ws ← get
  match ws with
  | a :: sign :: rest =>
    set rest
    match rest with
    | [] => refuse sign "argument expected"
    | b :: _ =>
      match s with
      | .files letters => filesHold letters a b
      | .text holds | .number holds =>
        let o ← orderOf s a b
        return holds o
      | _ => return false
  | _ => return false

/-- The answer to a question about one word. -/
def question (s : Sign) : Judging Bool := do
  let sign := (← get).headD []
  let _ ← advance
  match ← get with
  | [] => refuse sign "argument expected"
  | w :: _ =>
    match s with
    | .isEmpty => return w.isEmpty
    | .isNonempty => return !w.isEmpty
    | .isTerminal =>
      let _ ← numberIn 10 w
      return false
    | .file letter => fileHolds letter w
    | _ => return false

mutual

/-- A condition without signs that join conditions. `t` is what the word is that has been reached; `n` bounds
the number of words. -/
def primary (n : Nat) (t : Token) : Judging Bool :=
  match n with
  | 0 => return false
  | n + 1 => do
    match t with
    | .finish => return false
    | .sign .openParen =>
      match ← advance with
      | .sign .closeParen => return false
      | t =>
        let r ← disjunction n t
        match ← advance with
        | .sign .closeParen => return r
        | _ => refuse [] "closing paren expected"
    | t =>
      let unary? := match t with
        | .sign s => if s.isUnary then some s else none
        | _ => none
      match unary? with
      | some s => question s
      | none =>
        match ← upcoming with
        | .sign s =>
          if s.isBinary then comparison s else return !((← get).headD []).isEmpty
        | _ => return !((← get).headD []).isEmpty

/-- A condition that may be negated. -/
def negation (n : Nat) (t : Token) : Judging Bool :=
  match n with
  | 0 => return false
  | n + 1 => do
    match t with
    | .sign .not =>
      match ← upcoming with
      | .finish => return true
      | t =>
        modify (·.tail)
        return !(← negation n t)
    | t => primary n t

/-- Conditions that must all hold. -/
def conjunction (n : Nat) (t : Token) : Judging Bool :=
  match n with
  | 0 => return false
  | n + 1 => do
    let a ← negation n t
    match ← upcoming with
    | .sign .and =>
      modify (·.tail)
      let t ← advance
      let b ← conjunction n t
      return a && b
    | _ => return a

/-- Conditions one of which must hold. -/
def disjunction (n : Nat) (t : Token) : Judging Bool :=
  match n with
  | 0 => return false
  | n + 1 => do
    let a ← conjunction n t
    match ← upcoming with
    | .sign .or =>
      modify (·.tail)
      let t ← advance
      let b ← disjunction n t
      return a || b
    | _ => return a

end

/-- Works out the whole of a condition. -/
def whole (t : Token) (words : List Bytes) : Run Bool := do
  let (r, rest) ← (disjunction (8 * words.length + 8) t).run words
  match rest with
  | w :: _ :: _ =>
    let _ ← (refuse w "unexpected operator" : Judging Unit).run rest
    return r
  | _ => return r

/-- Judges words by their number. `n` bounds it. -/
def judge (n : Nat) (words : List Bytes) : Run Bool := do
  match n, words with
  | 0, _ | _, [] => return false
  | n + 1, w :: rest =>
    let comparesThree := match words with
      | [_, sign, _] => (Sign.ofWord? sign).any Sign.isBinary
      | _ => false
    if comparesThree then whole .operand words
    else if words.length = 3 || words.length = 4 then
      if w = ['('] && words.getLast? = some [')'] then
        let inner := rest.dropLast
        whole (tokenOf inner) inner
      else if w = ['!'] then return !(← judge n rest)
      else whole (tokenOf words) words
    else whole (tokenOf words) words

/-- A condition as a command, called with a bracket or without. -/
def run (name : Bytes) (args : List Bytes) : Run Nat := do
  let words ←
    if name.head? = some '[' then
      if (args.getLast?.bind List.head?) = some ']' then pure args.dropLast else fail "missing ]"
    else pure args
  return if ← judge (words.length + 1) words then 0 else 1

end LocaleForge.Shell.Condition
