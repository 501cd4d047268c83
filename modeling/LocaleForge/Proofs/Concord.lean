import LocaleForge.Proofs.Inputs
import LocaleForge.Proofs.Steering

/-!
Trees without links that agree but for files at certain places. Paths that keep clear of the places lead
to the same in both, and an operation on such a path has the same result and keeps the agreement.
-/

namespace LocaleForge

theorem Entry.directory_ne_link (target : String) : directory ≠ link target := by
  intro h
  cases h

theorem Entry.file_ne_link (content : ByteArray) (x : Bool) (target : String) :
    file content x ≠ link target := by
  intro h
  cases h

namespace Disk

theorem headWith_eq_ends {d : Disk} (h : d.LinkFree) {onLink : Location → List String → Option Location}
    {dir : Location} {ps : List String} :
    headWith d onLink dir ps = some (Path.ends dir (Path.names ps)) := by
  induction ps generalizing dir with
  | nil => rfl
  | cons p ps ih =>
    cases hidle : Path.isIdle p with
    | true => rw [headWith_idle hidle, Path.names_idle hidle, ih]
    | false =>
      rw [Path.names_cons hidle, Path.ends]
      by_cases hup : p = ".."
      · rw [hup, headWith_up, if_pos rfl, ih]
      · rw [headWith_down hidle hup (h _), if_neg hup, ih]

/-- Without links a path heads to where its names lead. -/
theorem LinkFree.heading?_eq_ends {d : Disk} (h : d.LinkFree) (p : Path) :
    d.heading? p = some (Path.ends (p.start d.workDir) (Path.names (Text.cut '/' p.text))) := by
  rw [heading?]
  exact headWith_eq_ends h

theorem LinkFree.ends_of_find {d : Disk} (h : d.LinkFree) {p : Path} {s : Spot}
    (hf : d.find true p = .ok s) :
    s.location = Path.ends (p.start d.workDir) (Path.names (Text.cut '/' p.text)) := by
  have hheads := (Grown.refl d fun _ => False).heading?_of_find hf
  rw [h.heading?_eq_ends] at hheads
  exact (Option.some.inj hheads).symm

/-- No link lies in the trees, and they agree but for files at some of the places. -/
structure AgreesOff (workDir : Location) (places : Location → Prop) (X Y : Disk) : Prop where
  left : X.workDir = workDir
  right : Y.workDir = workDir
  leftFree : X.LinkFree
  rightFree : Y.LinkFree
  entry : ∀ l, X.get? l = Y.get? l ∨
    places l ∧ X.get? l ≠ some .directory ∧ Y.get? l ≠ some .directory

namespace AgreesOff

variable {workDir dir loc : Location} {places : Location → Prop} {X Y : Disk} {p q : Path}
  {ps : List String} {e : Entry}

theorem get?_eq (h : AgreesOff workDir places X Y) (hl : ¬ places loc) : X.get? loc = Y.get? loc :=
  (h.entry loc).resolve_right fun hp => hl hp.1

theorem directory_iff (h : AgreesOff workDir places X Y) :
    X.get? loc = some .directory ↔ Y.get? loc = some .directory := by
  rcases h.entry loc with he | ⟨-, hx, hy⟩
  · rw [he]
  · exact ⟨fun hx' => absurd hx' hx, fun hy' => absurd hy' hy⟩

/-! ## Where paths lead -/

theorem walkWith_eq (h : AgreesOff workDir places X Y) {follow : Bool}
    {onLink onLink' : Location → List String → Except Fault Spot}
    (hdir : X.get? dir = some .directory) (hps : ∀ l ∈ Path.passes dir (Path.names ps), ¬ places l) :
    walkWith X follow onLink dir ps = walkWith Y follow onLink' dir ps := by
  induction ps generalizing dir with
  | nil => rw [walkWith, walkWith, hdir, h.directory_iff.1 hdir]
  | cons p ps ih =>
    cases hidle : Path.isIdle p with
    | true =>
      rw [Path.names_idle hidle] at hps
      rw [walkWith_idle hidle, walkWith_idle hidle]
      exact ih hdir hps
    | false =>
      rw [Path.names_cons hidle, Path.passes] at hps
      by_cases hup : p = ".."
      · rw [if_pos hup] at hps
        subst hup
        rw [walkWith_up, walkWith_up]
        exact ih (get?_dropLast hdir) hps
      · rw [if_neg hup] at hps
        obtain ⟨hp, hrest⟩ := List.forall_mem_cons.1 hps
        by_cases hlong : maxName < p.utf8ByteSize
        · rw [walkWith, walkWith, hidle, if_neg Bool.false_ne_true, if_neg Bool.false_ne_true, if_neg hup,
            if_neg hup, if_pos hlong, if_pos hlong]
        · have hproper : Path.Proper p := ⟨hidle, hup, hlong⟩
          rw [walkWith_proper hproper, walkWith_proper hproper, ← h.get?_eq hp]
          rcases hg : X.get? (dir ++ [p]) with _ | ⟨content, x⟩ | _ | target
          · rfl
          · rfl
          · exact ih hg hrest
          · exact absurd hg (h.leftFree _ target)

theorem find_eq (h : AgreesOff workDir places X Y) (hp : p.Steers workDir places) (follow : Bool) :
    X.find follow p = Y.find follow p := by
  have hwalk : ∀ {dir}, X.get? dir = some .directory → p.start workDir = dir →
      walk X follow maxLinks dir (Text.cut '/' p.text) = walk Y follow maxLinks dir (Text.cut '/' p.text) := by
    rintro dir hdir rfl
    exact h.walkWith_eq hdir hp
  have hwork : X.get? workDir = some .directory ↔ Y.get? workDir = some .directory := h.directory_iff
  rw [find, find, h.left, h.right]
  split
  · rfl
  · split
    · rfl
    · split
      · rfl
      · split
        case isTrue ha => exact hwalk (get?_root X) (if_pos ha)
        case isFalse ha =>
          split
          case isTrue hd =>
            rw [if_pos (hwork.1 hd)]
            exact hwalk hd (if_neg ha)
          case isFalse hd => rw [if_neg fun hd' => hd (hwork.2 hd')]

theorem entryAt?_eq (h : AgreesOff workDir places X Y) (hp : p.Steers workDir places) :
    X.entryAt? p = Y.entryAt? p := by
  rw [entryAt?, entryAt?, h.find_eq hp]

theorem exists?_eq (h : AgreesOff workDir places X Y) (hp : p.Steers workDir places) :
    X.exists? p = Y.exists? p := by
  rw [exists?, exists?, h.entryAt?_eq hp]

theorem readText_eq (h : AgreesOff workDir places X Y) (hp : p.Steers workDir places) :
    X.readText p = Y.readText p := by
  rw [readText, readText, readBytes, readBytes, h.find_eq hp]

/-! ## Looking for files -/

theorem filesBelow_eq (h : AgreesOff workDir places X Y)
    (hbelow : ∀ l, isBelow loc l = true → ¬ places l) (accept : String → Bool) :
    (X.filesBelow loc).filter accept = (Y.filesBelow loc).filter accept := by
  refine filter_filesBelow_congr fun rel hne _ _ content x => ?_
  have hl : isBelow loc (loc ++ rel) = true :=
    isBelow_iff.2 ⟨List.prefix_append loc rel, by simpa using hne⟩
  rw [h.get?_eq (hbelow _ hl)]

theorem expand_eq (h : AgreesOff workDir places X Y) (hp : p.Clear workDir places) (pattern : String) :
    X.expand p pattern = Y.expand p pattern := by
  rw [expand, expand, h.find_eq hp.steers]
  split
  case h_2 => rfl
  case h_1 loc b hf =>
    have hends := h.rightFree.ends_of_find hf
    rw [h.right] at hends
    cases Glob.parse pattern with
    | error e => rfl
    | ok tokens =>
      refine congrArg Except.ok (h.filesBelow_eq (fun l hl => hp.below l ?_) _)
      rwa [← hends]

/-! ## Changes of one entry -/

theorem set (h : AgreesOff workDir places X Y) (he : X.get? loc = Y.get? loc)
    (hfree : ∀ target, e ≠ .link target) : AgreesOff workDir places (X.set loc e) (Y.set loc e) := by
  have hfits : X.Fits loc e ↔ Y.Fits loc e := by
    rw [Fits, Fits, h.directory_iff, he]
  have hlinks : ∀ {d : Disk}, d.LinkFree → (d.set loc e).LinkFree := by
    intro d hd l target hg
    by_cases hf : d.Fits loc e
    · rw [get?_set hf] at hg
      split at hg
      · exact hfree target (Option.some.inj hg)
      · exact hd l target hg
    · rw [Disk.set, dif_neg hf] at hg
      exact hd l target hg
  refine ⟨(workDir_set X loc e).trans h.left, (workDir_set Y loc e).trans h.right, hlinks h.leftFree,
    hlinks h.rightFree, fun l => ?_⟩
  by_cases hf : X.Fits loc e
  · rw [get?_set hf, get?_set (hfits.1 hf)]
    split
    · exact .inl rfl
    · exact h.entry l
  · rw [Disk.set, dif_neg hf, Disk.set, dif_neg fun hf' => hf (hfits.2 hf')]
    exact h.entry l

theorem eraseBelow (h : AgreesOff workDir places X Y) (loc : Location) :
    AgreesOff workDir places (X.eraseBelow loc) (Y.eraseBelow loc) where
  left := h.left
  right := h.right
  leftFree := h.leftFree.of_keeps (eraseBelow_keeps X loc)
  rightFree := h.rightFree.of_keeps (eraseBelow_keeps Y loc)
  entry l := by
    rw [get?_eraseBelow, get?_eraseBelow]
    split
    · exact .inl rfl
    · exact h.entry l

theorem erase (h : AgreesOff workDir places X Y) (loc : Location) :
    AgreesOff workDir places (X.erase loc) (Y.erase loc) where
  left := h.left
  right := h.right
  leftFree := h.leftFree.of_keeps (erase_keeps X loc)
  rightFree := h.rightFree.of_keeps (erase_keeps Y loc)
  entry l := by
    by_cases hl : l = []
    · simp [hl]
    · rw [get?_erase hl, get?_erase hl]
      split
      · exact .inl rfl
      · exact h.entry l

/-! ## Operations -/

/-- Both operations fail in the same way, or both give trees that agree again. -/
def Alike (workDir : Location) (places : Location → Prop) : Except Fault Disk → Except Fault Disk → Prop
  | .ok X, .ok Y => AgreesOff workDir places X Y
  | .error e, .error e' => e = e'
  | _, _ => False

/-- Both operations have the same result and leave trees that agree again. -/
def Both {ε α : Type} (workDir : Location) (places : Location → Prop) (r r' : Except ε α × Disk) : Prop :=
  r.1 = r'.1 ∧ AgreesOff workDir places r.2 r'.2

theorem Alike.cases {r r' : Except Fault Disk} (h : Alike workDir places r r') :
    (∃ e, r = .error e ∧ r' = .error e) ∨
      ∃ X Y, r = .ok X ∧ r' = .ok Y ∧ AgreesOff workDir places X Y := by
  cases r with
  | error e =>
    cases r' with
    | error e' => exact .inl ⟨e, rfl, congrArg Except.error h.symm⟩
    | ok Y => exact h.elim
  | ok X =>
    cases r' with
    | error e' => exact h.elim
    | ok Y => exact .inr ⟨X, Y, rfl, rfl, h⟩

/-- What lies where a path leads is the same in both trees. -/
theorem get?_eq_of_find (h : AgreesOff workDir places X Y) (hp : p.Steers workDir places) {follow : Bool}
    {s : Spot} (hf : Y.find follow p = .ok s) : X.get? s.location = Y.get? s.location := by
  have hX := (sound_of_find ((h.find_eq hp follow).trans hf)).entry_eq
  exact hX.symm.trans (sound_of_find hf).entry_eq

theorem createDirectory (h : AgreesOff workDir places X Y) (hp : p.Steers workDir places) :
    Alike workDir places (X.createDirectory p) (Y.createDirectory p) := by
  rw [Disk.createDirectory, Disk.createDirectory, h.find_eq hp.bare]
  cases hf : Y.find false (bare p) with
  | error e => rfl
  | ok s =>
    simp only [bind, Except.bind]
    cases s.entry with
    | some e => rfl
    | none => exact h.set (h.get?_eq_of_find hp.bare hf) Entry.directory_ne_link

theorem createUpTo (n : Nat) (h : AgreesOff workDir places X Y) (hp : p.Steers workDir places) :
    Both workDir places (createUpTo n X p) (createUpTo n Y p) := by
  induction n generalizing X Y p with
  | zero => exact ⟨rfl, h⟩
  | succ n ih =>
    have hdirectory : ∀ {X Y : Disk}, AgreesOff workDir places X Y → X.isDirectory p = Y.isDirectory p := by
      intro X Y h
      rw [isDirectory, isDirectory, h.entryAt?_eq hp]
    rw [Disk.createUpTo, Disk.createUpTo]
    split
    · exact ⟨rfl, h⟩
    · rcases (h.createDirectory hp).cases with ⟨e, hx, hy⟩ | ⟨X', Y', hx, hy, h'⟩
      · rw [hx, hy]
        cases e
        case notFound =>
          cases hparent : p.parent? with
          | none => exact ⟨rfl, h⟩
          | some parent =>
            obtain ⟨hr, hd⟩ := ih h (hp.parent hparent)
            simp only
            rcases hcx : Disk.createUpTo n X parent with ⟨r, X'⟩
            rcases hcy : Disk.createUpTo n Y parent with ⟨r', Y'⟩
            rw [hcx, hcy] at hr hd
            simp only at hr hd
            subst hr
            cases r with
            | error e => exact ⟨rfl, hd⟩
            | ok u =>
              -- The directory is made now that the one above it is there.
              simp only
              rcases (hd.createDirectory hp).cases with ⟨e, hx, hy⟩ | ⟨X'', Y'', hx, hy, h''⟩
              · rw [hx, hy]
                exact ⟨by simp only [hdirectory hd], hd⟩
              · rw [hx, hy]
                exact ⟨rfl, h''⟩
        all_goals exact ⟨by simp only [hdirectory h], h⟩
      · rw [hx, hy]
        exact ⟨rfl, h'⟩

theorem makeRoom (h : AgreesOff workDir places X Y) (hp : p.Steers workDir places) :
    Both workDir places (Storage.makeRoom p X) (Storage.makeRoom p Y) := by
  rw [Storage.makeRoom, Storage.makeRoom]
  cases hparent : p.parent? with
  | none => exact ⟨rfl, h⟩
  | some parent =>
    obtain ⟨hr, hd⟩ := h.createUpTo (parent.text.length + 1) (hp.parent hparent)
    exact ⟨congrArg (·.mapError (Failure.ofDisk (.creating parent))) hr, hd⟩

theorem writable_eq (h : AgreesOff workDir places X Y) (hp : p.Steers workDir places) :
    X.writable p = Y.writable p := by
  rw [writable, writable, h.find_eq hp.frontOf, h.find_eq hp]

theorem writeBytes (h : AgreesOff workDir places X Y) (hp : p.Steers workDir places)
    (content : ByteArray) : Alike workDir places (X.writeBytes p content) (Y.writeBytes p content) := by
  rw [Disk.writeBytes, Disk.writeBytes, h.writable_eq hp]
  cases hw : Y.writable p with
  | error e => rfl
  | ok s =>
    have hsame := h.get?_eq_of_find hp (find_of_writable hw).1
    simp only [bind, Except.bind]
    split
    · exact h.set hsame (Entry.file_ne_link _ _)
    · exact h.set hsame (Entry.file_ne_link _ _)

theorem copy (h : AgreesOff workDir places X Y) (hp : p.Steers workDir places)
    (hq : q.Steers workDir places) : Alike workDir places (X.copy p q) (Y.copy p q) := by
  rw [Disk.copy, Disk.copy, h.find_eq hp, h.writable_eq hq]
  cases Y.find true p with
  | error e => rfl
  | ok s =>
    simp only [bind, Except.bind]
    split
    case h_1 => rfl
    case h_2 content x _ =>
      cases hw : Y.writable q with
      | error e => rfl
      | ok t =>
        have hsame := h.get?_eq_of_find hq (find_of_writable hw).1
        simp only
        split
        · exact h.set hsame (Entry.file_ne_link _ _)
        · exact h.set hsame (Entry.file_ne_link _ _)
    case h_3 => rfl

theorem removeEmptied (h : AgreesOff workDir places X Y) (hp : p.Steers workDir places)
    (loc : Location) : Both workDir places (X.removeEmptied p loc) (Y.removeEmptied p loc) := by
  rw [Disk.removeEmptied, Disk.removeEmptied, h.find_eq hp.frontOf, h.find_eq hp.bare]
  split
  case h_5 =>
    split
    · exact ⟨rfl, h⟩
    · exact ⟨rfl, h.erase loc⟩
  all_goals exact ⟨rfl, h⟩

theorem removeTree (h : AgreesOff workDir places X Y) (hp : p.Steers workDir places) :
    Both workDir places (X.removeTree p) (Y.removeTree p) := by
  rw [Disk.removeTree, Disk.removeTree, h.find_eq hp]
  split
  case h_1 => exact ⟨rfl, h⟩
  case h_2 s _ =>
    split
    · exact ⟨rfl, h⟩
    · exact ⟨rfl, h.erase _⟩
    · exact ⟨rfl, h⟩
    · exact (h.eraseBelow _).removeEmptied hp _

/-! ## Calls to the file store -/

theorem place (h : AgreesOff workDir places X Y) (hp : p.Steers workDir places) (a : Activity)
    {change : Disk → Except Fault Disk}
    (hchange : ∀ {X Y}, AgreesOff workDir places X Y → Alike workDir places (change X) (change Y)) :
    Both workDir places (Storage.place p a change X) (Storage.place p a change Y) := by
  rw [Storage.place, Storage.place]
  obtain ⟨hr, hd⟩ := h.makeRoom hp
  rcases hx : Storage.makeRoom p X with ⟨r, X'⟩
  rcases hy : Storage.makeRoom p Y with ⟨r', Y'⟩
  rw [hx, hy] at hr hd
  simp only at hr hd
  subst hr
  cases r with
  | error f => exact ⟨rfl, hd⟩
  | ok u =>
    simp only
    rcases (hchange hd).cases with ⟨e, hx, hy⟩ | ⟨X'', Y'', hx, hy, h'⟩
    · rw [hx, hy]
      exact ⟨rfl, hd⟩
    · rw [hx, hy]
      exact ⟨rfl, h'⟩

theorem write (h : AgreesOff workDir places X Y) (hp : p.Steers workDir places) (text : String) :
    Both workDir places (Storage.disk.write p text X) (Storage.disk.write p text Y) :=
  h.place hp _ fun h => h.writeBytes hp _

theorem copyFile (h : AgreesOff workDir places X Y) (hp : p.Steers workDir places)
    (hq : q.Steers workDir places) :
    Both workDir places (Storage.disk.copy p q X) (Storage.disk.copy p q Y) :=
  h.place hq _ fun h => h.copy hp hq

theorem remove (h : AgreesOff workDir places X Y) (hp : p.Steers workDir places) :
    Both workDir places (Storage.disk.remove p X) (Storage.disk.remove p Y) := by
  simp only [Storage.disk, h.exists?_eq hp]
  split
  · obtain ⟨hr, hd⟩ := h.removeTree hp
    exact ⟨by simp only [hr], hd⟩
  · exact ⟨rfl, h⟩

end AgreesOff

/-- Trees that differ in one file agree but for its place. -/
theorem agreesOff_set {d : Disk} {places : Location → Prop} {loc : Location} {e : Entry} (hd : d.LinkFree)
    (hp : places loc) (hdir : d.get? loc ≠ some .directory) (he : e.isFile = true) :
    AgreesOff (d.set loc e).workDir places (d.set loc e) d := by
  by_cases hf : d.Fits loc e
  · refine ⟨rfl, (workDir_set d loc e).symm, fun l target hg => ?_, hd, fun l => ?_⟩
    · rw [get?_set hf] at hg
      split at hg
      · cases hg
        cases he
      · exact hd l target hg
    · rw [get?_set hf]
      split
      case isTrue hl =>
        subst hl
        refine .inr ⟨hp, fun hg => ?_, hdir⟩
        cases hg
        cases he
      case isFalse => exact .inl rfl
  · rw [set, dif_neg hf]
    exact ⟨rfl, rfl, hd, hd, fun _ => .inl rfl⟩

end Disk

end LocaleForge
