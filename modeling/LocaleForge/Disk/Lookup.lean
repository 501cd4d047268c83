import LocaleForge.Disk.Fault
import LocaleForge.Disk.Lemmas
import LocaleForge.Path

/-!
Finding the location that a path leads to. Links are followed on the way, up to a fixed number; a
piece of the path that is followed by another one must be a directory.
-/

namespace LocaleForge.Disk

/-- Where a path leads. -/
structure Spot where
  location : Location
  /-- What lies there; nothing, when only the last name of the path is missing. -/
  entry : Option Entry
  /-- The last name was followed by a slash. -/
  slashed : Bool

/-- Longest name, in bytes. -/
def maxName := 255

/-- Longest path, in bytes. -/
def maxPath := 4095

/-- Most links followed for one path. -/
def maxLinks := 40

/-- Walks along the pieces of a path from a directory. A link is left to `onLink`, with the
directory and the pieces to go on with; with `follow` unset a link at the very end stays. -/
def walkWith (d : Disk) (follow : Bool) (onLink : Location → List String → Except Fault Spot) :
    Location → List String → Except Fault Spot
  | dir, [] => .ok ⟨dir, d.get? dir, false⟩
  | dir, p :: ps =>
    if Path.isIdle p then walkWith d follow onLink dir ps
    else if p = ".." then walkWith d follow onLink dir.dropLast ps
    else if maxName < p.utf8ByteSize then .error .nameTooLong
    else
      let loc := dir ++ [p]
      match d.get? loc with
      | none => if ps.all String.isEmpty then .ok ⟨loc, none, !ps.isEmpty⟩ else .error .notFound
      | some .directory => walkWith d follow onLink loc ps
      | some (.file content x) =>
        if ps.isEmpty then .ok ⟨loc, some (.file content x), false⟩ else .error .notDirectory
      | some (.link target) =>
        if ps.isEmpty && !follow then .ok ⟨loc, some (.link target), false⟩
        else onLink (if (Path.mk target).isAbsolute then [] else dir) (Text.cut '/' target ++ ps)

/-- Walks along the pieces of a path, following at most `links` links. -/
def walk (d : Disk) (follow : Bool) (links : Nat) : Location → List String → Except Fault Spot :=
  match links with
  | 0 => walkWith d follow fun _ _ => .error .tooManyLinks
  | n + 1 => walkWith d follow (walk d follow n)

/-- Where a path leads; a link at its end is followed or not. -/
def find (d : Disk) (follow : Bool) (p : Path) : Except Fault Spot :=
  if p.text.toList.contains '\x00' then .error .nulInPath
  else if p.text.isEmpty then .error .notFound
  else if maxPath < p.text.utf8ByteSize then .error .nameTooLong
  else if p.isAbsolute then walk d follow maxLinks [] (Text.cut '/' p.text)
  else if d.get? d.workDir = some .directory then
    walk d follow maxLinks d.workDir (Text.cut '/' p.text)
  else .error .notFound

/-- The entry is that of the location; unless it is a directory, a file can be put there. -/
structure Spot.Sound (d : Disk) (s : Spot) : Prop where
  entry_eq : s.entry = d.get? s.location
  fits : s.entry ≠ some .directory → ∀ e, d.Fits s.location e

theorem sound_of_get? {d : Disk} {loc : Location} {e : Option Entry} {slashed : Bool}
    (he : e = d.get? loc) {name : String} (hn : name ∈ loc.getLast?) (hname : IsName name)
    (hdir : d.get? loc.dropLast = some .directory) : (Spot.mk loc e slashed).Sound d where
  entry_eq := he
  fits hne _ := ⟨⟨name, hn, hname⟩, hdir, fun h => absurd (he.trans h) hne⟩

theorem sound_of_walkWith {d : Disk} {follow : Bool}
    {onLink : Location → List String → Except Fault Spot}
    (hlink : ∀ dir ps s, d.get? dir = some .directory → (∀ p ∈ ps, '/' ∉ p.toList) →
      onLink dir ps = .ok s → s.Sound d)
    {dir : Location} {ps : List String} (hdir : d.get? dir = some .directory)
    (hps : ∀ p ∈ ps, '/' ∉ p.toList) {s : Spot} (h : walkWith d follow onLink dir ps = .ok s) :
    s.Sound d := by
  induction ps generalizing dir with
  | nil =>
    cases h
    exact ⟨rfl, fun hne => absurd hdir hne⟩
  | cons p ps ih =>
    have hps' : ∀ q ∈ ps, '/' ∉ q.toList := fun q hq => hps q (List.mem_cons_of_mem _ hq)
    rw [walkWith] at h
    split at h
    · exact ih hdir hps' h
    case isFalse hidle =>
      split at h
      · exact ih (get?_dropLast hdir) hps' h
      case isFalse hup =>
        split at h
        · cases h
        · have hname : IsName p := by
            simp only [Path.isIdle, Bool.or_eq_true, String.isEmpty_iff, beq_iff_eq, not_or] at hidle
            exact ⟨hidle.1, hidle.2, hup, hps p List.mem_cons_self⟩
          have hlast : p ∈ (dir ++ [p]).getLast? := by simp
          have hup' : d.get? (dir ++ [p]).dropLast = some .directory := by simpa using hdir
          simp only at h
          split at h
          case h_1 hnone =>
            split at h
            · cases h
              exact sound_of_get? hnone.symm hlast hname hup'
            · cases h
          case h_2 hd => exact ih hd hps' h
          case h_3 content x hf =>
            split at h
            · cases h
              exact sound_of_get? hf.symm hlast hname hup'
            · cases h
          case h_4 target hl =>
            split at h
            · cases h
              exact sound_of_get? hl.symm hlast hname hup'
            · refine hlink _ _ s ?_ (fun q hq => ?_) h
              · split
                · exact get?_root d
                · exact hdir
              · rcases List.mem_append.1 hq with hq | hq
                · exact Text.sep_notMem_of_mem_cut hq
                · exact hps' q hq

theorem sound_of_walk {d : Disk} {follow : Bool} {links : Nat} {dir : Location} {ps : List String}
    (hdir : d.get? dir = some .directory) (hps : ∀ p ∈ ps, '/' ∉ p.toList) {s : Spot}
    (h : walk d follow links dir ps = .ok s) : s.Sound d := by
  induction links generalizing dir ps s with
  | zero => exact sound_of_walkWith (fun _ _ _ _ _ h => by cases h) hdir hps h
  | succ n ih => exact sound_of_walkWith (fun _ _ _ hdir hps h => ih hdir hps h) hdir hps h

/-- A path leads to an entry of the tree, or to a place where a file can be put. -/
theorem sound_of_find {d : Disk} {follow : Bool} {p : Path} {s : Spot} (h : d.find follow p = .ok s) :
    s.Sound d := by
  rw [find] at h
  split at h
  · cases h
  · split at h
    · cases h
    · split at h
      · cases h
      · split at h
        · exact sound_of_walk (get?_root d) (fun _ => Text.sep_notMem_of_mem_cut) h
        · split at h
          · exact sound_of_walk ‹_› (fun _ => Text.sep_notMem_of_mem_cut) h
          · cases h

/-- What a path leads to, with links followed. -/
def entryAt? (d : Disk) (p : Path) : Option Entry :=
  match d.find true p with
  | .ok spot => spot.entry
  | .error _ => none

/-- Leads to something. -/
def exists? (d : Disk) (p : Path) : Bool :=
  (d.entryAt? p).isSome

def isDirectory (d : Disk) (p : Path) : Bool :=
  d.entryAt? p = some .directory

def isFile (d : Disk) (p : Path) : Bool :=
  (d.entryAt? p).any Entry.isFile

/-- The location that a path leads to, if something lies there. -/
def locate (d : Disk) (p : Path) : Except Fault Location := do
  let spot ← d.find true p
  if spot.entry.isSome then .ok spot.location else .error .notFound

/-- The path without slashes at its end, except that of the root. -/
def bare (p : Path) : Path :=
  match (p.text.toList.reverse.dropWhile (· == '/')).reverse with
  | [] => p
  | cs => ⟨String.ofList cs⟩

end LocaleForge.Disk
