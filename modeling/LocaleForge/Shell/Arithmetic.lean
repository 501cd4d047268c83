import LocaleForge.Shell.Variables

/-!
Arithmetic expressions of scripts: integers of 64 bits, and variables that expressions may also set. Parts
whose value does not matter are read but not worked out.
-/

namespace LocaleForge.Shell.Arithmetic

/-- An operation on two numbers. -/
inductive Operator where
  | times
  | dividedBy
  | modulo
  | plus
  | minus
  | shiftLeft
  | shiftRight
  | less
  | lessEqual
  | greater
  | greaterEqual
  | equal
  | unequal
  | bitAnd
  | bitXor
  | bitOr
deriving DecidableEq, Repr

/-- Operators of lower rank bind more tightly. -/
def Operator.rank : Operator → Nat
  | times | dividedBy | modulo => 0
  | plus | minus => 1
  | shiftLeft | shiftRight => 2
  | less | lessEqual | greater | greaterEqual => 3
  | equal | unequal => 4
  | bitAnd => 5
  | bitXor => 6
  | bitOr => 7

inductive Token where
  | finish
  | number (n : Int)
  | name (name : Bytes)
  | operator (o : Operator)
  /-- Sets a variable, to what an operation makes of its value if there is one. -/
  | assign (o : Option Operator)
  | both
  | either
  | bang
  | tilde
  | openParen
  | closeParen
  | question
  | colon
  | unknown
deriving DecidableEq, Repr

/-- The signs and their tokens; longer ones come first. -/
def signs : List (String × Token) :=
  [("<<=", .assign (some .shiftLeft)), (">>=", .assign (some .shiftRight)),
   ("+=", .assign (some .plus)), ("-=", .assign (some .minus)), ("*=", .assign (some .times)),
   ("/=", .assign (some .dividedBy)), ("%=", .assign (some .modulo)), ("&=", .assign (some .bitAnd)),
   ("^=", .assign (some .bitXor)), ("|=", .assign (some .bitOr)), ("==", .operator .equal),
   ("!=", .operator .unequal), ("<=", .operator .lessEqual), (">=", .operator .greaterEqual),
   ("<<", .operator .shiftLeft), (">>", .operator .shiftRight), ("&&", .both), ("||", .either),
   ("=", .assign none), ("<", .operator .less), (">", .operator .greater), ("|", .operator .bitOr),
   ("&", .operator .bitAnd), ("^", .operator .bitXor), ("+", .operator .plus), ("-", .operator .minus),
   ("*", .operator .times), ("/", .operator .dividedBy), ("%", .operator .modulo), ("!", .bang), ("~", .tilde),
   ("(", .openParen), (")", .closeParen), ("?", .question), (":", .colon)]

/-- The sign at the front of a text, and the text behind it. -/
def sign? (bs : Bytes) : Option (Token × Bytes) :=
  signs.findSome? fun (text, t) =>
    if text.toList.isPrefixOf bs then some (t, bs.drop text.length) else none

/-- An integer brought into the range of signed words. -/
def wrapped (n : Int) : Int :=
  n.bmod (Word.count 64)

/-- The token at the front of a text, and the text behind it. -/
def tokenOf (bs : Bytes) : Token × Bytes :=
  let bs := bs.dropWhile fun c => c = ' ' || c = '\t' || c = '\n'
  match bs with
  | [] => (.finish, [])
  | c :: _ =>
    if c.isDigit then
      let (n, rest) := (Decimal.integer? 0 bs).getD (0, bs.tail)
      (.number (min n (Word.largest 64)), rest)
    else if Bytes.isNameStart c then
      let name := bs.takeWhile Bytes.isNameChar
      (.name name, bs.drop name.length)
    else (sign? bs).getD (.unknown, bs)

/-- An expression while it is read. -/
structure Reading where
  /-- The whole text. -/
  text : Bytes
  rest : Bytes
  /-- The token behind what has been worked out. -/
  last : Token := .finish

/-- Works out a part of an expression. -/
abbrev Reckon := StateT Reading Run

def refuse {α : Type} (message : Bytes) : Reckon α := do
  let r ← get
  fail ("arithmetic expression: " ++ message ++ ": \"" ++ r.text ++ "\"")

/-- Takes a token. -/
def next : Reckon Token :=
  modifyGet fun r =>
    let (t, rest) := tokenOf r.rest
    (t, { r with rest })

def setLast (t : Token) : Reckon Unit :=
  modify fun r => { r with last := t }

def truth (b : Bool) : Int :=
  if b then 1 else 0

/-- An operation on the bits of words. -/
def bitwise (f : UInt64 → UInt64 → UInt64) (a b : Int) : Int :=
  wrapped (f (UInt64.ofInt a) (UInt64.ofInt b)).toNat

/-- The number of bits by which words are shifted. -/
def shift (n : Int) : Nat :=
  (n % 64).toNat

/-- The value of an operation. -/
def apply (o : Operator) (a b : Int) : Reckon Int := do
  match o with
  | .times => return wrapped (a * b)
  | .dividedBy | .modulo =>
    if b = 0 then refuse "division by zero"
    if a = Word.smallest 64 && b = -1 then throw (.over (.signalled ⟨8⟩))
    return if o = .dividedBy then a.tdiv b else a.tmod b
  | .plus => return wrapped (a + b)
  | .minus => return wrapped (a - b)
  | .shiftLeft => return wrapped (a * Word.count (shift b))
  | .shiftRight => return a.fdiv (Word.count (shift b))
  | .less => return truth (a < b)
  | .lessEqual => return truth (a ≤ b)
  | .greater => return truth (a > b)
  | .greaterEqual => return truth (a ≥ b)
  | .equal => return truth (a = b)
  | .unequal => return truth (a ≠ b)
  | .bitAnd => return bitwise (· &&& ·) a b
  | .bitXor => return bitwise (· ^^^ ·) a b
  | .bitOr => return bitwise (· ||| ·) a b

/-- The value of a variable as a number. -/
def valueOf (name : Bytes) : Reckon Int := do
  let s ← getThe State
  numberIn 0 (s.value name)

mutual

/-- A value without operators between numbers. `t` is its first token and `behind` the next one; with `idle`
set it does not matter. -/
def primary (n : Nat) (idle : Bool) (t behind : Token) : Reckon Int :=
  match n with
  | 0 => refuse "expecting primary"
  | n + 1 => do
    match t with
    | .openParen =>
      let v ← assignment n idle behind
      if (← get).last ≠ .closeParen then refuse "expecting ')'"
      setLast (← next)
      return v
    | .number v =>
      setLast behind
      return v
    | .name name =>
      setLast behind
      if idle then return 0 else valueOf name
    | .operator .plus =>
      let e ← next
      primary n idle behind e
    | .operator .minus =>
      let e ← next
      return wrapped (-(← primary n idle behind e))
    | .bang =>
      let e ← next
      return truth ((← primary n idle behind e) = 0)
    | .tilde =>
      let e ← next
      return -(← primary n idle behind e) - 1
    | _ => refuse "expecting primary"

/-- Goes on behind `a` with operators of lower rank than `rank`, the first of which is `o`. -/
def operations (n : Nat) (idle : Bool) (a : Int) (o : Operator) (rank : Nat) : Reckon Int :=
  match n with
  | 0 => refuse "expecting primary"
  | n + 1 => do
    let t ← next
    let e ← next
    let b ← primary n idle t e
    let b ← match (← get).last with
      | .operator o' => if o'.rank < o.rank then operations n idle b o' o.rank else pure b
      | _ => pure b
    let a ← if idle then pure b else apply o a b
    match (← get).last with
    | .operator o' => if o'.rank < rank then operations n idle a o' rank else return a
    | _ => return a

/-- An operation on numbers. -/
def operation (n : Nat) (idle : Bool) (t behind : Token) : Reckon Int :=
  match n with
  | 0 => refuse "expecting primary"
  | n + 1 => do
    let a ← primary n idle t behind
    match (← get).last with
    | .operator o => operations n idle a o 8
    | _ => return a

/-- Values that must all be true. -/
def conjunction (n : Nat) (idle : Bool) (t behind : Token) : Reckon Int :=
  match n with
  | 0 => refuse "expecting primary"
  | n + 1 => do
    let a ← operation n idle t behind
    if (← get).last ≠ .both then return a
    let t ← next
    let e ← next
    let b ← conjunction n (idle || a = 0) t e
    return truth (a ≠ 0 && b ≠ 0)

/-- Values one of which must be true. -/
def disjunction (n : Nat) (idle : Bool) (t behind : Token) : Reckon Int :=
  match n with
  | 0 => refuse "expecting primary"
  | n + 1 => do
    let a ← conjunction n idle t behind
    if (← get).last ≠ .either then return a
    let t ← next
    let e ← next
    let b ← disjunction n (idle || a ≠ 0) t e
    return truth (a ≠ 0 || b ≠ 0)

/-- A choice between two values. -/
def choice (n : Nat) (idle : Bool) (t behind : Token) : Reckon Int :=
  match n with
  | 0 => refuse "expecting primary"
  | n + 1 => do
    let a ← disjunction n idle t behind
    if (← get).last ≠ .question then return a
    let t ← next
    let b ← assignment n (idle || a = 0) t
    if (← get).last ≠ .colon then refuse "expecting ':'"
    let t ← next
    let e ← next
    let c ← choice n (idle || a ≠ 0) t e
    return if a ≠ 0 then b else c

/-- A value that may be given to a variable. `t` is its first token. -/
def assignment (n : Nat) (idle : Bool) (t : Token) : Reckon Int :=
  match n with
  | 0 => refuse "expecting primary"
  | n + 1 => do
    let e ← next
    match t, e with
    | .name name, .assign o =>
      let first ← next
      let v ← assignment n idle first
      if idle then return v
      let v ← match o with
        | none => pure v
        | some o => do
          let before ← valueOf name
          apply o before v
      setVariable name (some (Bytes.ofInt v)) false false false
      return v
    | _, _ => choice n idle t e

end

/-- The value of an expression. -/
def evaluate (text : Bytes) : Run Int := do
  let (v, r) ← (start (4 * text.length + 16)).run { text, rest := text }
  if r.last ≠ .finish then
    let _ ← (refuse "expecting EOF" : Reckon Unit).run r
  return v
where
  start (n : Nat) : Reckon Int := do
    let t ← next
    assignment n false t

end LocaleForge.Shell.Arithmetic
