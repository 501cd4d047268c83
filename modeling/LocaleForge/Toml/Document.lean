import LocaleForge.Toml.Scalar

/-!
Whole TOML documents: keys, values, and the tables that headers and dotted keys build up. No key is
set twice, and a table that was written down is not extended from elsewhere.
-/

namespace LocaleForge.Toml

/-- Arrays and inline tables nest at most this deep, and a key has at most this many parts. -/
def maxDepth := 80

def isBareKeyChar (c : Char) : Bool :=
  c.isAlphanum || c == '_' || c == '-'

/-- One part of a dotted key. -/
def simpleKey (cs : List Char) : Option (String × List Char) :=
  match cs with
  | '"' :: '"' :: '"' :: _ => none
  | '\'' :: '\'' :: '\'' :: _ => none
  | '"' :: rest => string.line '"' rest
  | '\'' :: rest => string.line '\'' rest
  | _ =>
    let k := cs.takeWhile isBareKeyChar
    if k.isEmpty then none else some (String.ofList k, cs.drop k.length)

/-- A key of at most `n` parts divided by points; blanks around the points do not count. -/
def keyParts : Nat → List Char → Option (List String × List Char)
  | 0, _ => none
  | n + 1, cs => do
    let (k, cs) ← simpleKey (skipBlanks cs)
    match skipBlanks cs with
    | '.' :: cs =>
      let (ks, cs) ← keyParts n cs
      some (k :: ks, cs)
    | cs => some ([k], cs)

def key (cs : List Char) : Option (List String × List Char) :=
  keyParts maxDepth cs

/-- A table under construction. -/
abbrev Table := TableKind × Fields

/-- Changes the table that a path leads to and makes the missing ones on the way. A path in a
header passes through arrays by their last table; a dotted key enters no table that has a header of
its own. -/
def change (dotted : Bool) (f : Table → Option Table) : List String → Table → Option Table
  | [], t => f t
  | k :: ks, (kind, fields) => do
    match fields.get? k with
    | none =>
      let (kind', fields') ← change dotted f ks (if dotted then .dotted else .implied, [])
      some (kind, fields.set k (.table kind' fields'))
    | some (.table kind' fields') =>
      if kind' = .inlined ∨ (dotted ∧ kind' = .opened) then none
      else
        let (kind'', fields'') ← change dotted f ks (kind', fields')
        some (kind, fields.set k (.table kind'' fields''))
    | some (.array true items) =>
      match items.getLast? with
      | some (.table kind' fields') =>
        let (kind'', fields'') ← change dotted f ks (kind', fields')
        some (kind, fields.set k (.array true (items.dropLast ++ [.table kind'' fields''])))
      | _ => none
    | some _ => none

/-- Sets a new field of a table reached by a dotted path, and marks that table as made by one. -/
def setField (path : List String) (value : Value) (t : Table) : Option Table :=
  match path.getLast? with
  | none => none
  | some last =>
    let parents := path.dropLast
    change true (fun (kind, fields) =>
      if parents ≠ [] ∧ kind ≠ .implied ∧ kind ≠ .dotted then none
      else if (fields.get? last).isSome then none
      else some (if parents = [] then kind else .dotted, fields.set last value)) parents t

/-- Opens the table of a header. -/
def openTable (path : List String) (root : Table) : Option Table :=
  match path.getLast? with
  | none => none
  | some last =>
    change false (fun (kind, fields) =>
      match fields.get? last with
      | none => some (kind, fields.set last (.table .opened []))
      | some (.table .implied inner) => some (kind, fields.set last (.table .opened inner))
      | some _ => none) path.dropLast root

/-- Appends a table to the array of a header in double brackets. -/
def appendTable (path : List String) (root : Table) : Option Table :=
  match path.getLast? with
  | none => none
  | some last =>
    change false (fun (kind, fields) =>
      match fields.get? last with
      | none => some (kind, fields.set last (.array true [.table .opened []]))
      | some (.array true items) =>
        some (kind, fields.set last (.array true (items ++ [.table .opened []])))
      | some _ => none) path.dropLast root

/-- The items of an array up to its closing bracket. -/
def arrayItems (value : List Char → Option (Value × List Char)) : Nat → List Char → Option (List Value × List Char)
  | 0, _ => none
  | n + 1, cs =>
    match skipSpace cs with
    | ']' :: rest => some ([], rest)
    | cs => do
      let (v, cs) ← value cs
      match skipSpace cs with
      | ',' :: cs =>
        let (vs, cs) ← arrayItems value n cs
        some (v :: vs, cs)
      | ']' :: cs => some ([v], cs)
      | _ => none

/-- The fields of an inline table up to its closing brace. -/
def inlineFields (value : List Char → Option (Value × List Char)) : Nat → Table → List Char → Option (Table × List Char)
  | 0, _, _ => none
  | n + 1, t, cs =>
    match skipSpace cs with
    | '}' :: rest => some (t, rest)
    | cs => do
      let (path, cs) ← key cs
      let (v, cs) ← value (skipSpace (← after '=' (skipSpace cs)))
      let t ← setField path v t
      match skipSpace cs with
      | ',' :: cs => inlineFields value n t cs
      | '}' :: cs => some (t, cs)
      | _ => none

/-- A value; `depth` bounds the nesting. -/
def value (depth : Nat) (cs : List Char) : Option (Value × List Char) :=
  match depth with
  | 0 => none
  | depth + 1 =>
    match cs with
    | '[' :: rest =>
      if depth = 0 then none
      else (arrayItems (value depth) (rest.length + 1) rest).map fun (vs, rest) =>
        (.array false vs, rest)
    | '{' :: rest =>
      if depth = 0 then none
      else (inlineFields (value depth) (rest.length + 1) (.inlined, []) rest).map fun (t, rest) =>
        (.table .inlined t.2, rest)
    | '"' :: _ | '\'' :: _ => (string cs).map fun (s, rest) => (.string s, rest)
    | _ => word cs

/-- The document read so far and the path of the table that lines belong to. -/
structure Cursor where
  root : Table
  current : List String

/-- One header or field up to the end of its line. -/
def line (c : Cursor) (cs : List Char) : Option (Cursor × List Char) := do
  match cs with
  | '[' :: '[' :: rest =>
    let (path, rest) ← key rest
    let rest ← endOfLine? (← after ']' (← after ']' rest))
    some (⟨← appendTable path c.root, path⟩, rest)
  | '[' :: rest =>
    let (path, rest) ← key rest
    let rest ← endOfLine? (← after ']' rest)
    some (⟨← openTable path c.root, path⟩, rest)
  | _ =>
    let (path, rest) ← key cs
    let (v, rest) ← value (maxDepth + 1) (skipBlanks (← after '=' rest))
    let rest ← endOfLine? rest
    some (⟨← change false (setField path v) c.current c.root, c.current⟩, rest)

/-- All lines of a document; `n` bounds their number. -/
def documentLines : Nat → Cursor → List Char → Option Table
  | 0, _, _ => none
  | n + 1, c, cs =>
    match skipSpace cs with
    | [] => some c.root
    | cs => do
      let (c, cs) ← line c cs
      documentLines n c cs

/-- The value of a document, or none if the text is not TOML. -/
def parse? (text : String) : Option Value :=
  let cs := match text.toList with
    | c :: cs => if c = Char.ofNat 0xFEFF then cs else c :: cs
    | [] => []
  (documentLines (cs.length + 1) ⟨(.opened, []), []⟩ cs).map fun t => .table t.1 t.2

end LocaleForge.Toml
