import LocaleForge.Decimal.Numeral
import LocaleForge.Utility.Options

/-!
Translating the bytes of standard input, leaving some of them out and squeezing repeated ones. Sets of
bytes are written with escapes, ranges, classes and repetitions.
-/

namespace LocaleForge.Utility.Translate

/-- An element of a set. -/
inductive Element where
  | byte (c : Char)
  | range (first last : Char)
  | named (k : ByteClass)
  /-- The bytes that count as equal to one. -/
  | equal (c : Char)
  | times (c : Char) (n : Nat)
  /-- As often as the other set has more elements. -/
  | filling (c : Char)
deriving DecidableEq, Repr

/-- What is wrong with the sets. -/
inductive Fault where
  | namelessClass
  | namelessEquivalence
  | badClass (name : Bytes)
  | badEquivalence (text : Bytes)
  | badCount (digits : Bytes)
  | reversedRange (first last : Char)
  | fillingInFirst
  | manyFillings
  | fillingWithoutTranslation
  | equivalenceInSecond
  | classInSecond
  | misaligned
  | emptySecond
  | classAtEnd
  | severalImages

/-- A byte as complaints show it. -/
def shown (c : Char) : Bytes :=
  if c = '\\' then "\\\\" else if Quotation.isPrinted c then [c] else Quotation.escape c

/-- A byte of a range as complaints show it. -/
def shownEnd (c : Char) : Bytes :=
  if Quotation.isPrinted c then [c] else '\\' :: Bytes.octal c

def Fault.message : Fault → Bytes
  | namelessClass => "missing character class name '[::]'"
  | namelessEquivalence => "missing equivalence class character '[==]'"
  | badClass name => "invalid character class " ++ Quotation.quoted (name.flatMap shown)
  | badEquivalence text =>
    text.flatMap shown ++ ": equivalence class operand must be a single character"
  | badCount digits =>
    "invalid repeat count " ++ Quotation.quoted (digits.flatMap shown) ++ " in [c*n] construct"
  | reversedRange a b =>
    "range-endpoints of '" ++ shownEnd a ++ "-" ++ shownEnd b ++
      "' are in reverse collating sequence order"
  | fillingInFirst => "the [c*] repeat construct may not appear in string1"
  | manyFillings => "only one [c*] repeat construct may appear in string2"
  | fillingWithoutTranslation => "the [c*] construct may appear in string2 only when translating"
  | equivalenceInSecond => "[=c=] expressions may not appear in string2 when translating"
  | classInSecond =>
    "when translating, the only character classes that may appear in\nstring2 are 'upper' and 'lower'"
  | misaligned => "misaligned [:upper:] and/or [:lower:] construct"
  | emptySecond => "when not truncating set1, string2 must be non-empty"
  | classAtEnd =>
    "when translating with string1 longer than string2,\nthe latter string must not end with a " ++
      "character class"
  | severalImages =>
    "when translating with complemented character classes,\nstring2 must map all characters in the " ++
      "domain to one"

/-- All bytes in order. -/
def allBytes : List Char :=
  (List.range 256).map Char.ofNat

/-- The longest repetition that is written out. -/
def maxTimes := 100000

def Element.members : Element → List Char
  | byte c | equal c => [c]
  | range a b => (List.range (b.toNat + 1 - a.toNat)).map fun k => Char.ofNat (a.toNat + k)
  | named k => allBytes.filter k.holds
  | times c n => List.replicate (min n maxTimes) c
  | filling _ => []

/-- The byte of an octal escape with the digits behind it, and whether a third digit makes it too
large. -/
def octal? (bs : Bytes) : Option (Char × Bytes × Bool) :=
  let ds := (bs.takeWhile (Decimal.isDigitIn 8)).take 3
  let n := Decimal.ofDigits 8 ds
  if ds.isEmpty then none
  else if n < 256 then some (Char.ofNat n, bs.drop ds.length, false)
  else some (Char.ofNat (Decimal.ofDigits 8 (ds.take 2)), bs.drop 2, true)

/-- The byte that a letter behind a backslash stands for. -/
def letter? (c : Char) : Option Char :=
  [('a', '\x07'), ('b', '\x08'), ('f', '\x0c'), ('n', '\n'), ('r', '\x0d'), ('t', '\t'), ('v', '\x0b')].lookup c

/-- A byte of a set with the mark whether it was escaped. -/
abbrev Marked := List (Char × Bool)

/-- The bytes of a set behind their escapes, and warnings; `n` bounds their number. -/
def unescape (n : Nat) (bs : Bytes) : Marked × List Bytes :=
  match n with
  | 0 => ([], [])
  | n + 1 =>
    let more (c : Char) (escaped : Bool) (rest : Bytes) : Marked × List Bytes :=
      let (cs, ws) := unescape n rest
      ((c, escaped) :: cs, ws)
    match bs with
    | [] => ([], [])
    | ['\\'] => ([('\\', false)], ["warning: an unescaped backslash at end of string is not portable"])
    | '\\' :: rest =>
      match octal? rest, rest with
      | some (c, behind, ambiguous), _ =>
        let (cs, ws) := more c true behind
        let warning : Bytes := "warning: the ambiguous octal escape \\" ++ rest.take 3 ++
          " is being\n\tinterpreted as the 2-byte sequence \\0" ++ rest.take 2 ++ ", " ++ behind.take 1
        (cs, if ambiguous then warning :: ws else ws)
      | none, c :: behind => more ((letter? c).getD c) true behind
      | none, [] => ([], [])
    | c :: rest => more c false rest

/-- The bytes up to a mark and a closing bracket, and what stands behind these. -/
def closed? (stop : Char) : Marked → Option (Bytes × Marked)
  | (a, false) :: (']', false) :: rest =>
    if a = stop then some ([], rest)
    else (closed? stop ((']', false) :: rest)).map fun (cs, rest) => (a :: cs, rest)
  | (a, _) :: rest => (closed? stop rest).map fun (cs, rest) => (a :: cs, rest)
  | [] => none

/-- A repetition behind its opening bracket. -/
def repetition? (ms : Marked) : Except Fault (Option (Element × Marked)) :=
  match ms with
  | (c, _) :: ('*', false) :: rest =>
    let inner := rest.takeWhile fun m => !m.2 && m.1 ≠ ']'
    match rest.drop inner.length with
    | (']', false) :: behind =>
      let digits := inner.map (·.1)
      let base := if digits.head? = some '0' then 8 else 10
      if digits.isEmpty then .ok (some (.filling c, behind))
      else if digits.all (Decimal.isDigitIn base) && Decimal.ofDigits base digits < Nat.pow 2 63 then
        let n := Decimal.ofDigits base digits
        .ok (some (if n = 0 then .filling c else .times c n, behind))
      else .error (.badCount digits)
    | _ => .ok none
  | _ => .ok none

/-- A star and digits up to a closing bracket. -/
def isStarred (ms : Marked) : Bool :=
  match ms with
  | ('*', false) :: rest => ((rest.dropWhile (·.1.isDigit)).head?) = some (']', false)
  | _ => false

/-- A class or a repetition behind its opening bracket. -/
def bracketed? (ms : Marked) : Except Fault (Option (Element × Marked)) :=
  match ms with
  | (d, false) :: rest =>
    match if d = ':' || d = '=' then closed? d rest else none with
    | some ([], _) => .error (if d = ':' then .namelessClass else .namelessEquivalence)
    | some (name, behind) =>
      let element := match d, name with
        | '=', [c] => some (.equal c)
        | '=', _ => none
        | _, _ => (ByteClass.ofWord? (Bytes.toName name)).map .named
      match element with
      | some e => .ok (some (e, behind))
      | none =>
        if isStarred rest then repetition? ms
        else .error (if d = ':' then .badClass name else .badEquivalence name)
    | none => repetition? ms
  | _ => repetition? ms

/-- The elements of a set; `n` bounds their number. -/
def elements (n : Nat) (ms : Marked) : Except Fault (List Element) :=
  match n with
  | 0 => .ok []
  | n + 1 =>
    match ms with
    | (a, qa) :: (b, qb) :: (c, qc) :: rest => do
      let special ← if a = '[' && !qa then bracketed? ((b, qb) :: (c, qc) :: rest) else .ok none
      match special with
      | some (e, rest) => return e :: (← elements n rest)
      | none =>
        if b = '-' && !qb then
          if c < a then .error (.reversedRange a c)
          else return .range a c :: (← elements n rest)
        else return .byte a :: (← elements n ((b, qb) :: (c, qc) :: rest))
    | _ => .ok (ms.map fun m => .byte m.1)

/-- The elements that a text stands for, and warnings about it. -/
def parse (bs : Bytes) : Except Fault (List Element) × List Bytes :=
  let (ms, ws) := unescape (bs.length + 1) bs
  (elements (ms.length + 1) ms, ws)

def isNamed : Element → Bool
  | .named _ => true
  | _ => false

def isFilling : Element → Bool
  | .filling _ => true
  | _ => false

/-- The classes of letters of one case, which change into each other. -/
def caseOf? : Element → Option ByteClass
  | .named .upper => some .upper
  | .named .lower => some .lower
  | _ => none

def members (es : List Element) : List Char :=
  es.flatMap Element.members

/-- Elements that are translated one by one, of which some may be gone already. -/
structure Run where
  letters : Option ByteClass
  chars : List Char
  fresh : Bool := true

def runs (es : List Element) : List Run :=
  (es.map fun e => { letters := caseOf? e, chars := e.members : Run }).filter (!·.chars.isEmpty)

/-- A run without its first byte. -/
def Run.next (r : Run) (rest : List Run) : List Run :=
  match r.chars with
  | _ :: c :: cs => { r with chars := c :: cs, fresh := false } :: rest
  | _ => rest

/-- The bytes of two sets side by side. Classes of letters must stand at the same places; `n` bounds
the number of bytes. -/
def pairs (n : Nat) (froms tos : List Run) : Except Fault (List (Char × Char)) :=
  match n with
  | 0 => .ok []
  | n + 1 =>
    match froms, tos with
    | _, [] => .ok []
    | [], t :: _ => if t.fresh && t.letters.isSome then .error .misaligned else .ok []
    | f :: fs, t :: ts =>
      match t.letters with
      | some k =>
        if !(f.fresh && f.letters.isSome) then .error .misaligned
        else do
          let rest ← pairs n fs ts
          if f.letters = some k then return rest
          else
            return f.chars.map (fun c => (c, if k = .upper then c.toUpper else c.toLower)) ++ rest
      | none => do return (f.chars.headD ' ', t.chars.headD ' ') :: (← pairs n (f.next fs) (t.next ts))

/-- What is done with the bytes. -/
structure Plan where
  complements : Bool := false
  deletes : Bool := false
  squeezes : Bool := false
  truncates : Bool := false

/-- The second set of a translation, as long as the first one, which has `size` bytes. -/
def extended (t : Plan) (size : Nat) (hasClass : Bool) (tos : List Element) : Except Fault (List Element) := do
  if tos.any fun
    | .equal _ => true
    | _ => false then
    throw .equivalenceInSecond
  if tos.any fun e => isNamed e && (caseOf? e).isNone then
    throw .classInSecond
  let missing := size - (members tos).length
  let tos := tos.map fun
    | .filling c => .times c missing
    | e => e
  let missing := size - (members tos).length
  let repeated (c : Char) : List Element := tos ++ [.times c missing]
  let tos ←
    if missing = 0 || t.truncates then pure tos
    else
      match tos.getLast? with
      | none => throw .emptySecond
      | some (.range _ c) | some (.byte c) | some (.equal c) | some (.times c _) | some (.filling c) =>
        pure (repeated c)
      | some (.named _) => throw .classAtEnd
  let all := members tos
  if t.complements && hasClass && !(all.length = size && all.all (some · == all.head?)) then
    throw .severalImages
  return tos

/-- Drops bytes of a set that repeat the byte before. -/
def squeeze (set : List Char) : Bytes → Bytes
  | a :: b :: rest =>
    if a = b && set.contains a then squeeze set (b :: rest) else a :: squeeze set (b :: rest)
  | bs => bs

/-- What the sets and the options make of a text. -/
def filter (t : Plan) (first : List Element) (second : Option (List Element)) :
    Except Fault (Bytes → Bytes) := do
  let plain := members first
  let set := if t.complements then allBytes.filter (!plain.contains ·) else plain
  if first.any isFilling then throw .fillingInFirst
  match second with
  | none =>
    return fun bs => if t.deletes then bs.filter (!set.contains ·) else squeeze set bs
  | some second =>
    if (second.filter isFilling).length > 1 then
      throw .manyFillings
    if t.deletes then
      if second.any isFilling then
        throw .fillingWithoutTranslation
      return fun bs => squeeze (members second) (bs.filter (!set.contains ·))
    else
      let size := if t.complements then set.length else plain.length
      -- The classes are compared before the second set is made longer.
      let shape := second.map fun
        | .filling c => .times c (size - (members second).length)
        | e => e
      let allowed := !second.any fun
        | .equal _ => true
        | e => isNamed e && (caseOf? e).isNone
      if allowed && !t.complements && second.any isNamed then
        let _ ← pairs (plain.length + 1) (runs first) (runs shape)
      let tos ← extended t size (first.any isNamed) second
      let table ←
        if t.complements then pure (set.zip (members tos))
        else pairs (plain.length + 1) (runs first) (runs tos)
      -- Of several images of a byte the last one counts.
      let table := table.reverse
      let image (bs : Bytes) : Bytes := bs.map fun c => (table.lookup c).getD c
      return fun bs => if t.squeezes then squeeze (members tos) (image bs) else image bs

def options : OptionTable Char where
  letters := "AcCdst".toList.map fun c => (c, .plain, c)
  words := [("complement", .plain, 'c'), ("delete", .plain, 'd'), ("squeeze-repeats", .plain, 's'),
    ("truncate-set1", .plain, 't')]
  permutes := false

/-- What is wrong with the number of sets. -/
def miscounted? (t : Plan) (sets : List Bytes) : Option Bytes :=
  let most := if t.deletes && !t.squeezes then 1 else 2
  let least := if t.deletes = t.squeezes then 2 else 1
  if sets.length < least then
    match sets.getLast? with
    | none => some "missing operand"
    | some s =>
      some ("missing operand after " ++ Quotation.quoted s ++
        (if t.squeezes then "\nTwo strings must be given when both deleting and squeezing repeats."
        else "\nTwo strings must be given when translating."))
  else if most < sets.length then
    some ("extra operand " ++ Quotation.quoted ((sets[most]?).getD []) ++
      (if sets.length = 2 then
        "\nOnly one string may be given when deleting without squeezing repeats."
      else ""))
  else none

def run : Utility := fun name args => do
  let a := options.read args
  let has (c : Char) : Bool := a.options.any (·.1 = c)
  let t : Plan := ⟨has 'c' || has 'C', has 'd', has 's', has 't'⟩
  match (a.fault <|> miscounted? t a.operands : Option Bytes) with
  | some message => misuse name message
  | none =>
    let bad (message : Bytes) : Action Nat := do
      complain name message
      return 1
    let (first, warnings) := parse (a.operands.headD [])
    for w in warnings do complain name w
    match first, a.operands[1]? with
    | .error e, _ => bad e.message
    | .ok first, second =>
      let (second, warnings) : Except Fault (Option (List Element)) × List Bytes := match second with
        | none => (.ok none, [])
        | some s => let (es, ws) := parse s; (es.map some, ws)
      for w in warnings do complain name w
      match second.bind (filter t first) with
      | .error e => bad e.message
      | .ok f =>
        match ← Process.readAll Process.standardInput with
        | .ok bs => conclude name 0 (f bs)
        | .error e => bad ("read error: " ++ Bytes.ofFault e)

end LocaleForge.Utility.Translate
