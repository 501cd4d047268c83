import LocaleForge.Disk.Lookup

/-!
The steps of a walk along the pieces of a path, and what it takes for a path to be walked at all. A walk
that leads somewhere is a relation with one rule for each kind of piece and of entry, over which
the facts on walks are proved by induction.
-/

namespace LocaleForge

/-- A piece of a path that can be the name of an entry. -/
structure Path.Proper (piece : String) : Prop where
  notIdle : Path.isIdle piece = false
  notUp : piece ≠ ".."
  short : ¬ Disk.maxName < piece.utf8ByteSize

namespace Disk

variable {d d' : Disk} {follow : Bool} {onLink : Location → List String → Except Fault Spot}
  {dir loc : Location} {p : String} {ps : List String} {s : Spot}

/-! ## One piece -/

theorem walkWith_idle (h : Path.isIdle p = true) :
    walkWith d follow onLink dir (p :: ps) = walkWith d follow onLink dir ps := by
  rw [walkWith, if_pos h]

theorem not_isIdle_up : Path.isIdle ".." = false := by
  decide

theorem walkWith_up :
    walkWith d follow onLink dir (".." :: ps) = walkWith d follow onLink dir.dropLast ps := by
  rw [walkWith, not_isIdle_up]
  rfl

theorem walkWith_proper (h : Path.Proper p) :
    walkWith d follow onLink dir (p :: ps) =
      match d.get? (dir ++ [p]) with
      | none =>
        if ps.all String.isEmpty then .ok ⟨dir ++ [p], none, !ps.isEmpty⟩ else .error .notFound
      | some .directory => walkWith d follow onLink (dir ++ [p]) ps
      | some (.file content x) =>
        if ps.isEmpty then .ok ⟨dir ++ [p], some (.file content x), false⟩ else .error .notDirectory
      | some (.link target) =>
        if ps.isEmpty && !follow then .ok ⟨dir ++ [p], some (.link target), false⟩
        else onLink (if (Path.mk target).isAbsolute then [] else dir) (Text.cut '/' target ++ ps) := by
  rw [walkWith, h.notIdle, if_neg Bool.false_ne_true, if_neg h.notUp]
  exact if_neg h.short

theorem walkWith_directory (h : Path.Proper p) (hd : d.get? (dir ++ [p]) = some .directory) :
    walkWith d follow onLink dir (p :: ps) = walkWith d follow onLink (dir ++ [p]) ps := by
  rw [walkWith_proper h, hd]

theorem walkWith_missing (h : Path.Proper p) (hd : d.get? (dir ++ [p]) = none) :
    walkWith d follow onLink dir (p :: ps) =
      if ps.all String.isEmpty then .ok ⟨dir ++ [p], none, !ps.isEmpty⟩ else .error .notFound := by
  rw [walkWith_proper h, hd]

theorem walkWith_file (h : Path.Proper p) {content : ByteArray} {x : Bool}
    (hd : d.get? (dir ++ [p]) = some (.file content x)) :
    walkWith d follow onLink dir (p :: ps) =
      if ps.isEmpty then .ok ⟨dir ++ [p], some (.file content x), false⟩ else .error .notDirectory := by
  rw [walkWith_proper h, hd]

theorem walkWith_link (h : Path.Proper p) {target : String}
    (hd : d.get? (dir ++ [p]) = some (.link target)) :
    walkWith d follow onLink dir (p :: ps) =
      if ps.isEmpty && !follow then .ok ⟨dir ++ [p], some (.link target), false⟩
      else onLink (if (Path.mk target).isAbsolute then [] else dir) (Text.cut '/' target ++ ps) := by
  rw [walkWith_proper h, hd]

/-! ## Walks that lead somewhere -/

/-- Walks along the pieces of a path from a directory, by way of so many links at most. -/
inductive Walks (d : Disk) (follow : Bool) : Nat → Location → List String → Spot → Prop
  | here (n : Nat) (dir : Location) : Walks d follow n dir [] ⟨dir, d.get? dir, false⟩
  | idle {n dir p ps s} (hp : Path.isIdle p = true) (h : Walks d follow n dir ps s) :
      Walks d follow n dir (p :: ps) s
  | up {n dir ps s} (h : Walks d follow n dir.dropLast ps s) : Walks d follow n dir (".." :: ps) s
  | down {n dir p ps s} (hp : Path.Proper p) (hg : d.get? (dir ++ [p]) = some .directory)
      (h : Walks d follow n (dir ++ [p]) ps s) : Walks d follow n dir (p :: ps) s
  | missing {n dir p ps} (hp : Path.Proper p) (hg : d.get? (dir ++ [p]) = none)
      (hps : ps.all String.isEmpty = true) :
      Walks d follow n dir (p :: ps) ⟨dir ++ [p], none, !ps.isEmpty⟩
  | file {n dir p ps content x} (hp : Path.Proper p)
      (hg : d.get? (dir ++ [p]) = some (.file content x)) (hps : ps.isEmpty = true) :
      Walks d follow n dir (p :: ps) ⟨dir ++ [p], some (.file content x), false⟩
  | stop {n dir p ps target} (hp : Path.Proper p) (hg : d.get? (dir ++ [p]) = some (.link target))
      (hps : (ps.isEmpty && !follow) = true) :
      Walks d follow n dir (p :: ps) ⟨dir ++ [p], some (.link target), false⟩
  | link {n dir p ps s target} (hp : Path.Proper p)
      (hg : d.get? (dir ++ [p]) = some (.link target)) (hps : (ps.isEmpty && !follow) = false)
      (h : Walks d follow n (if (Path.mk target).isAbsolute then [] else dir)
        (Text.cut '/' target ++ ps) s) :
      Walks d follow (n + 1) dir (p :: ps) s

variable {n : Nat}

theorem walks_of_walkWith
    (hlink : ∀ {dir p ps s target}, Path.Proper p → d.get? (dir ++ [p]) = some (.link target) →
      (ps.isEmpty && !follow) = false →
      onLink (if (Path.mk target).isAbsolute then [] else dir) (Text.cut '/' target ++ ps) = .ok s →
      d.Walks follow n dir (p :: ps) s)
    (h : walkWith d follow onLink dir ps = .ok s) : d.Walks follow n dir ps s := by
  induction ps generalizing dir with
  | nil =>
    cases h
    exact .here n dir
  | cons p ps ih =>
    by_cases hidle : Path.isIdle p = true
    · rw [walkWith_idle hidle] at h
      exact .idle hidle (ih h)
    by_cases hup : p = ".."
    · subst hup
      rw [walkWith_up] at h
      exact .up (ih h)
    have hp : Path.Proper p := by
      refine ⟨Bool.eq_false_iff.2 hidle, hup, fun hlong => ?_⟩
      rw [walkWith, if_neg hidle, if_neg hup, if_pos hlong] at h
      cases h
    rcases hg : d.get? (dir ++ [p]) with _ | ⟨content, x⟩ | _ | target
    · rw [walkWith_missing hp hg] at h
      split at h <;> cases h
      exact .missing hp hg ‹_›
    · rw [walkWith_file hp hg] at h
      split at h <;> cases h
      exact .file hp hg ‹_›
    · rw [walkWith_directory hp hg] at h
      exact .down hp hg (ih h)
    · rw [walkWith_link hp hg] at h
      split at h
      case isTrue hps =>
        cases h
        exact .stop hp hg hps
      case isFalse hps => exact hlink hp hg (Bool.eq_false_iff.2 hps) h

theorem walk_nil : walk d follow n dir [] = .ok ⟨dir, d.get? dir, false⟩ := by
  cases n <;> rfl

theorem walk_idle (hp : Path.isIdle p = true) :
    walk d follow n dir (p :: ps) = walk d follow n dir ps := by
  cases n <;> exact walkWith_idle hp

theorem walk_up : walk d follow n dir (".." :: ps) = walk d follow n dir.dropLast ps := by
  cases n <;> exact walkWith_up

theorem walk_directory (hp : Path.Proper p) (hg : d.get? (dir ++ [p]) = some .directory) :
    walk d follow n dir (p :: ps) = walk d follow n (dir ++ [p]) ps := by
  cases n <;> exact walkWith_directory hp hg

theorem Walks.walk_eq (h : d.Walks follow n dir ps s) : walk d follow n dir ps = .ok s := by
  induction h with
  | here => exact walk_nil
  | idle hp _ ih => exact (walk_idle hp).trans ih
  | up _ ih => exact walk_up.trans ih
  | down hp hg _ ih => exact (walk_directory hp hg).trans ih
  | @missing n _ _ _ hp hg hps => cases n <;> exact (walkWith_missing hp hg).trans (if_pos hps)
  | @file n _ _ _ _ _ hp hg hps => cases n <;> exact (walkWith_file hp hg).trans (if_pos hps)
  | @stop n _ _ _ _ hp hg hps => cases n <;> exact (walkWith_link hp hg).trans (if_pos hps)
  | link hp hg hps _ ih =>
    exact (walkWith_link hp hg).trans ((if_neg (Bool.eq_false_iff.1 hps)).trans ih)

theorem walk_eq_ok_iff : walk d follow n dir ps = .ok s ↔ d.Walks follow n dir ps s := by
  refine ⟨fun h => ?_, Walks.walk_eq⟩
  induction n generalizing dir ps s with
  | zero => exact walks_of_walkWith (fun _ _ _ h => by cases h) h
  | succ n ih => exact walks_of_walkWith (fun hp hg hps h => .link hp hg hps (ih h)) h

/-! ## Whole paths -/

/-- The directory in which the walk along a path begins. -/
def origin (d : Disk) (p : Path) : Location :=
  if p.isAbsolute then [] else d.workDir

/-- The text can be given as a path, and its walk can begin. -/
structure Opens (d : Disk) (p : Path) : Prop where
  noNul : p.text.toList.contains '\x00' = false
  notEmpty : p.text.isEmpty = false
  short : ¬ maxPath < p.text.utf8ByteSize
  origin : d.get? (d.origin p) = some .directory

theorem Opens.find {p : Path} (h : d.Opens p) :
    d.find follow p = walk d follow maxLinks (d.origin p) (Text.cut '/' p.text) := by
  rw [LocaleForge.Disk.find, h.noNul, h.notEmpty, if_neg Bool.false_ne_true,
    if_neg Bool.false_ne_true, if_neg h.short]
  have ho := h.origin
  rw [LocaleForge.Disk.origin] at ho ⊢
  split
  case isTrue => rfl
  case isFalse ha =>
    rw [if_neg ha] at ho
    rw [if_pos ho]

theorem opens_of_find {p : Path} (h : d.find follow p = .ok s) : d.Opens p := by
  rw [find] at h
  split at h
  case isTrue => cases h
  case isFalse hnul =>
    split at h
    case isTrue => cases h
    case isFalse hempty =>
      split at h
      case isTrue => cases h
      case isFalse hlong =>
        refine ⟨Bool.eq_false_iff.2 hnul, Bool.eq_false_iff.2 hempty, hlong, ?_⟩
        rw [origin]
        split at h
        case isTrue ha => rw [if_pos ha, get?_root]
        case isFalse ha =>
          rw [if_neg ha]
          split at h
          case isTrue hd => exact hd
          case isFalse => cases h

theorem find_eq_ok_iff {p : Path} :
    d.find follow p = .ok s ↔
      d.Opens p ∧ d.Walks follow maxLinks (d.origin p) (Text.cut '/' p.text) s := by
  constructor
  · intro h
    have ho := opens_of_find h
    exact ⟨ho, walk_eq_ok_iff.1 (ho.find.symm.trans h)⟩
  · rintro ⟨ho, hw⟩
    exact ho.find.trans hw.walk_eq

/-! ## Larger trees -/

end Disk

/-- The same entry, or another content of a file. -/
def Entry.Like (e e' : Entry) : Prop :=
  e' = e ∨ e.isFile ∧ e'.isFile

theorem Entry.Like.rfl {e : Entry} : e.Like e :=
  .inl (Eq.refl e)

theorem Entry.Like.trans {e e' e'' : Entry} (h : e.Like e') (h' : e'.Like e'') : e.Like e'' := by
  rcases h with rfl | ⟨hf, hf'⟩
  · exact h'
  · rcases h' with rfl | ⟨-, hf''⟩
    · exact .inr ⟨hf, hf'⟩
    · exact .inr ⟨hf, hf''⟩

theorem Entry.Like.eq_of_not_isFile {e e' : Entry} (h : e.Like e') (hf : e.isFile = false) :
    e' = e := by
  rcases h with h | ⟨h, -⟩
  · exact h
  · rw [hf] at h
    cases h

theorem Entry.Like.of_file {e : Entry} {content : ByteArray} {x : Bool}
    (h : (Entry.file content x).Like e) : ∃ content' x', e = .file content' x' := by
  rcases h with rfl | ⟨-, h⟩
  · exact ⟨content, x, Eq.refl _⟩
  · cases e with
    | file content' x' => exact ⟨content', x', Eq.refl _⟩
    | directory => cases h
    | link target => cases h

namespace Disk

variable {d d' : Disk} {follow : Bool} {n : Nat} {dir loc : Location} {ps : List String} {e : Entry}
  {b : Bool}

/-- Where something lies in the first tree, the like lies in the second one. -/
structure Keeps (d d' : Disk) : Prop where
  workDir : d'.workDir = d.workDir
  entry : ∀ {loc e}, d.get? loc = some e → ∃ e', d'.get? loc = some e' ∧ e.Like e'

theorem Keeps.refl (d : Disk) : d.Keeps d :=
  ⟨rfl, fun h => ⟨_, h, .rfl⟩⟩

theorem Keeps.trans {d'' : Disk} (h : d.Keeps d') (h' : d'.Keeps d'') : d.Keeps d'' where
  workDir := h'.workDir.trans h.workDir
  entry {loc e} hd := by
    obtain ⟨e', he', hl⟩ := h.entry hd
    obtain ⟨e'', he'', hl'⟩ := h'.entry he'
    exact ⟨e'', he'', hl.trans hl'⟩

theorem Keeps.get? (h : d.Keeps d') (hd : d.get? loc = some e) (he : e.isFile = false) :
    d'.get? loc = some e := by
  obtain ⟨e', he', hl⟩ := h.entry hd
  rw [he', hl.eq_of_not_isFile he]

theorem Keeps.walks (h : d.Keeps d') {s : Spot} (hw : d.Walks follow n dir ps s)
    (he : s.entry = some e) :
    ∃ e', e.Like e' ∧ d'.Walks follow n dir ps ⟨s.location, some e', s.slashed⟩ := by
  induction hw with
  | here n dir =>
    obtain ⟨e', he', hl⟩ := h.entry he
    exact ⟨e', hl, he' ▸ .here n dir⟩
  | idle hp _ ih =>
    obtain ⟨e', hl, hw⟩ := ih he
    exact ⟨e', hl, .idle hp hw⟩
  | up _ ih =>
    obtain ⟨e', hl, hw⟩ := ih he
    exact ⟨e', hl, .up hw⟩
  | down hp hg _ ih =>
    obtain ⟨e', hl, hw⟩ := ih he
    exact ⟨e', hl, .down hp (h.get? hg rfl) hw⟩
  | missing => cases he
  | file hp hg hps =>
    cases he
    obtain ⟨e', he', hl⟩ := h.entry hg
    obtain ⟨content', x', rfl⟩ := hl.of_file
    exact ⟨_, hl, .file hp he' hps⟩
  | stop hp hg hps =>
    cases he
    exact ⟨_, .rfl, .stop hp (h.get? hg rfl) hps⟩
  | link hp hg hps _ ih =>
    obtain ⟨e', hl, hw⟩ := ih he
    exact ⟨e', hl, .link hp (h.get? hg rfl) hps hw⟩

theorem Keeps.opens (h : d.Keeps d') {p : Path} (ho : d.Opens p) : d'.Opens p where
  noNul := ho.noNul
  notEmpty := ho.notEmpty
  short := ho.short
  origin := by
    have := ho.origin
    rw [LocaleForge.Disk.origin] at this ⊢
    rw [h.workDir]
    exact h.get? this rfl

/-- What a path leads to in a tree, it leads to in a larger one. -/
theorem Keeps.find (h : d.Keeps d') {p : Path} (hf : d.find follow p = .ok ⟨loc, some e, b⟩) :
    ∃ e', e.Like e' ∧ d'.find follow p = .ok ⟨loc, some e', b⟩ := by
  obtain ⟨ho, hw⟩ := find_eq_ok_iff.1 hf
  obtain ⟨e', hl, hw'⟩ := h.walks hw rfl
  rw [LocaleForge.Disk.origin, ← h.workDir] at hw'
  exact ⟨e', hl, find_eq_ok_iff.2 ⟨h.opens ho, hw'⟩⟩

end Disk

end LocaleForge
