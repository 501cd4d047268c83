import LocaleForge.Shell.Expansion

/-!
Redirections: what the descriptors of a command lead to. The names of all files are expanded before the first
of them is opened.
-/

namespace LocaleForge.Shell

/-- What a descriptor is made to lead to. -/
inductive Target where
  | file (mode : OpenMode) (forced : Bool) (path : Bytes)
  | copy (source : Nat)
  | nothing
  | document (number : Nat) (expands : Bool)

/-- A redirection whose words have been expanded. -/
structure Turn where
  descriptor : Nat
  target : Target

namespace Turn

/-- Expands the words of a redirection. -/
def ofRedirection (capture : Capture) (r : Redirection) : Run Turn := do
  match r with
  | .file d mode forced path =>
    let path ← Expansion.text capture path
    return ⟨d, .file mode forced path⟩
  | .copy d source => return ⟨d, .copy source⟩
  | .close d => return ⟨d, .nothing⟩
  | .document d number expands => return ⟨d, .document number expands⟩
  | .copyWord d source =>
    match ← Expansion.text capture source with
    | ['-'] => return ⟨d, .nothing⟩
    | [c] => if c.isDigit then return ⟨d, .copy (c.toNat - 48)⟩ else fail "Syntax error: Bad fd number"
    | _ => fail "Syntax error: Bad fd number"

/-- The fault of a file that is not opened. -/
def failOpening {α : Type} (mode : OpenMode) (path : Bytes) (e : Disk.Fault) : Run α :=
  if mode = .read then fail ("cannot open " ++ path ++ ": " ++ describe "No such file" e)
  else fail ("cannot create " ++ path ++ ": " ++ describe "Directory nonexistent" e)

/-- Lets the descriptor lead to its target. One that is `saved` leads nowhere when its target is found to be
closed. -/
def perform (capture : Capture) (saved : Bool) (t : Turn) : Run Unit := do
  let s ← get
  match t.target with
  | .file mode forced path =>
    let isKept := mode = .write && !forced && s.has "noclobber" && s.process.world.disk.isFile (Bytes.toPath path)
    if isKept then failOpening mode path .alreadyExists
    match s.process.openFile mode (Bytes.toPath path) with
    | (.ok handle, process) => set { s with process := process.point t.descriptor handle }
    | (.error e, process) =>
      set { s with process }
      failOpening mode path e
  | .copy source =>
    if source ≠ t.descriptor then
      match s.process.handle? source with
      | some handle => set { s with process := s.process.point t.descriptor handle }
      | none =>
        if saved then set { s with process := s.process.close t.descriptor }
        fail (Bytes.ofNat source ++ ": " ++ Bytes.ofFault .badDescriptor)
  | .nothing => set { s with process := s.process.close t.descriptor }
  | .document number expands =>
    let word := (s.documents[number]?).getD []
    let text ← if expands then Expansion.document capture word else pure (Word.plainText word)
    modify fun s =>
      let ((front, _), world) := s.process.world.addPipe text
      { s with process := { s.process with world }.point t.descriptor front }

/-- Lets descriptors lead to their targets and saves each of them before; `saved` are those that have been. -/
def performSaving (capture : Capture) (saved : List Nat) : List Turn → Run Unit
  | [] => return
  | t :: ts => do
    perform capture (!saved.contains t.descriptor) t
    performSaving capture (t.descriptor :: saved) ts

/-- Lets descriptors lead to their targets for some time, or tells of a fault. -/
def performAll (capture : Capture) (ts : List Turn) : Run Bool := do
  try
    performSaving capture [] ts
    return true
  catch
    | .failed => return false
    | jump => throw jump

/-- The descriptors lead to where they led in an earlier state. -/
def undoAll (earlier : State) (ts : List Turn) : Run Unit :=
  modify fun s =>
    let undo (p : Process) (t : Turn) : Process :=
      match earlier.process.handle? t.descriptor with
      | some handle => p.point t.descriptor handle
      | none => p.close t.descriptor
    { s with process := ts.foldl undo s.process }

end Turn

end LocaleForge.Shell
