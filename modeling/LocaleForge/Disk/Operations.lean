import LocaleForge.Disk.Lookup

/-!
File operations on paths. An operation that may change the tree gives the new tree also when it
fails, since it may fail half way.
-/

namespace LocaleForge.Disk

/-- The bytes of a file. -/
def readBytes (d : Disk) (p : Path) : Except Fault ByteArray := do
  match (← d.find true p).entry with
  | none => .error .notFound
  | some (.file content _) => .ok content
  | some _ => .error .isDirectory

/-- The text of a file. -/
def readText (d : Disk) (p : Path) : Except Fault String := do
  match Text.decode? (← d.readBytes p) with
  | some s => .ok s
  | none => .error .notText

/-- Makes one directory. -/
def createDirectory (d : Disk) (p : Path) : Except Fault Disk := do
  let spot ← d.find false (bare p)
  match spot.entry with
  | some _ => .error .alreadyExists
  | none => .ok (d.set spot.location .directory)

theorem get?_createDirectory {d d' : Disk} {p : Path} (h : d.createDirectory p = .ok d') :
    ∃ s, d.find false (bare p) = .ok s ∧ d.get? s.location = none ∧
      ∀ loc, d'.get? loc = if loc = s.location then some .directory else d.get? loc := by
  rw [createDirectory] at h
  cases hf : d.find false (bare p) with
  | error e => rw [hf] at h; cases h
  | ok s =>
    rw [hf] at h
    simp only [bind, Except.bind] at h
    have hs := sound_of_find hf
    split at h
    case h_1 => cases h
    case h_2 hnone =>
      cases h
      exact ⟨s, rfl, hs.entry_eq.symm.trans hnone,
        fun loc => get?_set (hs.fits (by simp [hnone]) _)⟩

/-- Makes a directory and the missing ones above it; one that is there already is no fault. `n`
bounds the number of directories. -/
def createUpTo : Nat → Disk → Path → Except Fault Unit × Disk
  | 0, d, _ => (.error .notFound, d)
  | n + 1, d, p =>
    if p.text.isEmpty then (.ok (), d)
    else
      match d.createDirectory p with
      | .ok d' => (.ok (), d')
      | .error .notFound =>
        match p.parent? with
        | none => (.error .notFound, d)
        | some parent =>
          match createUpTo n d parent with
          | (.error e, d') => (.error e, d')
          | (.ok (), d') =>
            match d'.createDirectory p with
            | .ok d'' => (.ok (), d'')
            | .error e => (if d'.isDirectory p then .ok () else .error e, d')
      | .error e => (if d.isDirectory p then .ok () else .error e, d)

/-- Makes a directory and the missing ones above it. -/
def createDirectories (d : Disk) (p : Path) : Except Fault Unit × Disk :=
  createUpTo (p.text.length + 1) d p

/-- The second tree is the first one with more directories. -/
def Extends (d d' : Disk) : Prop :=
  ∀ loc, d'.get? loc = d.get? loc ∨ (d.get? loc = none ∧ d'.get? loc = some .directory)

theorem Extends.refl (d : Disk) : d.Extends d :=
  fun _ => .inl rfl

theorem Extends.trans {d d' d'' : Disk} (h : d.Extends d') (h' : d'.Extends d'') : d.Extends d'' := by
  intro loc
  rcases h' loc with h₂ | ⟨hn, h₂⟩
  · rw [h₂]
    exact h loc
  · rcases h loc with h₁ | ⟨_, h₁⟩
    · exact .inr ⟨h₁ ▸ hn, h₂⟩
    · rw [h₁] at hn
      cases hn

theorem extends_createDirectory {d d' : Disk} {p : Path} (h : d.createDirectory p = .ok d') :
    d.Extends d' := by
  obtain ⟨s, _, hnone, hget⟩ := get?_createDirectory h
  intro loc
  rw [hget]
  split
  case isTrue hl => exact .inr ⟨hl ▸ hnone, rfl⟩
  case isFalse => exact .inl rfl

theorem extends_createUpTo (n : Nat) (d : Disk) (p : Path) : d.Extends (createUpTo n d p).2 := by
  induction n generalizing d p with
  | zero => exact .refl d
  | succ n ih =>
    rw [createUpTo]
    split
    · exact .refl d
    · split
      case h_1 d' h => exact extends_createDirectory h
      case h_2 =>
        split
        case h_1 => exact .refl d
        case h_2 parent _ =>
          have hp := ih d parent
          split
          case h_1 e d' he => exact he ▸ hp
          case h_2 d' he =>
            rw [he] at hp
            split
            case h_1 d'' h => exact hp.trans (extends_createDirectory h)
            case h_2 => exact hp
      case h_3 => exact .refl d

/-- Making directories changes nothing that was there. -/
theorem extends_createDirectories (d : Disk) (p : Path) : d.Extends (d.createDirectories p).2 :=
  extends_createUpTo _ d p

/-- The directory in which the last piece of a path is looked up. -/
def frontOf (p : Path) : Path :=
  match Text.cut '/' (bare p).text with
  | [] | [_] => ⟨"."⟩
  | ps => ⟨Text.join '/' (ps.dropLast ++ ["."])⟩

/-- The location of the file that writing to a path replaces or makes. -/
def writable (d : Disk) (p : Path) : Except Fault Spot := do
  if p.text.toList.getLast? = some '/' then
    let _ ← d.find true (frontOf p)
    .error .isDirectory
  else
    let spot ← d.find true p
    match spot.entry with
    | some .directory => .error .isDirectory
    | none => if spot.slashed then .error .isDirectory else .ok spot
    | some _ => .ok spot

theorem find_of_writable {d : Disk} {p : Path} {s : Spot} (h : d.writable p = .ok s) :
    d.find true p = .ok s ∧ s.entry ≠ some .directory := by
  rw [writable] at h
  split at h
  · cases hf : d.find true (frontOf p) <;> rw [hf] at h <;> cases h
  · cases hf : d.find true p with
    | error e => rw [hf] at h; cases h
    | ok spot =>
      rw [hf] at h
      simp only [bind, Except.bind] at h
      split at h
      case h_1 => cases h
      case h_2 hnone =>
        split at h
        · cases h
        · cases h
          exact ⟨rfl, by simp [hnone]⟩
      case h_3 e hdir hsome =>
        cases h
        exact ⟨rfl, fun he => hdir (Option.some.inj (hsome.symm.trans he))⟩

/-- A file can be put where a writable path leads. -/
theorem fits_of_writable {d : Disk} {p : Path} {s : Spot} (h : d.writable p = .ok s) (e : Entry) :
    d.Fits s.location e :=
  (sound_of_find (find_of_writable h).1).fits (find_of_writable h).2 e

/-- Replaces the content of a file or makes a new one. -/
def writeBytes (d : Disk) (p : Path) (content : ByteArray) : Except Fault Disk := do
  let spot ← d.writable p
  match spot.entry with
  | some (.file _ x) => .ok (d.set spot.location (.file content x))
  | _ => .ok (d.set spot.location (.file content false))

/-- Writing changes one location, which holds the content afterwards. -/
theorem get?_writeBytes {d d' : Disk} {p : Path} {content : ByteArray}
    (h : d.writeBytes p content = .ok d') :
    ∃ s x, d.find true p = .ok s ∧
      ∀ loc, d'.get? loc = if loc = s.location then some (.file content x) else d.get? loc := by
  rw [writeBytes] at h
  cases hw : d.writable p with
  | error e => rw [hw] at h; cases h
  | ok s =>
    rw [hw] at h
    simp only [bind, Except.bind] at h
    split at h <;> cases h <;>
      exact ⟨s, _, (find_of_writable hw).1, fun loc => get?_set (fits_of_writable hw _)⟩

/-- Copies a regular file with its permission to run. The target is emptied first, so a file copied
onto itself becomes empty. -/
def copy (d : Disk) (source target : Path) : Except Fault Disk := do
  let s ← d.find true source
  match s.entry with
  | none => .error .notFound
  | some (.file content x) =>
    let t ← d.writable target
    if t.location = s.location then .ok (d.set t.location (.file ByteArray.empty x))
    else .ok (d.set t.location (.file content x))
  | some _ => .error .notRegular

/-- The last piece of a path that is not empty. -/
def lastPiece? (p : Path) : Option String :=
  ((Text.cut '/' p.text).filter (!·.isEmpty)).getLast?

/-- Removes an emptied directory by a path to it; a path that ends in no proper name, or in a link,
does not name it. A path that led through the directory itself leads nowhere now, and that is no
fault. -/
def removeEmptied (d : Disk) (p : Path) (loc : Location) : Except Fault Unit × Disk :=
  match d.find true (frontOf p), lastPiece? p with
  | .error _, _ => (.ok (), d)
  | .ok _, none => (.error .busy, d)
  | .ok _, some "." => (.error .invalidArgument, d)
  | .ok _, some ".." => (.error .notEmpty, d)
  | .ok _, some _ =>
    match d.find false (bare p) with
    | .ok ⟨_, some (.link _), _⟩ => (.error .notDirectory, d)
    | _ => (.ok (), d.erase loc)

/-- Removes a directory with all that lies below it; of a link only the link is removed. -/
def removeTree (d : Disk) (p : Path) : Except Fault Unit × Disk :=
  match d.find false p with
  | .error e => (.error e, d)
  | .ok spot =>
    match spot.entry with
    | none => (.error .notFound, d)
    | some (.link _) => (.ok (), d.erase spot.location)
    | some (.file ..) => (.error .notDirectory, d)
    | some .directory => (d.eraseBelow spot.location).removeEmptied p spot.location

end LocaleForge.Disk
