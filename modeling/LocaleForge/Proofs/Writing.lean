import LocaleForge.Build.Context
import LocaleForge.Proofs.Growth
import LocaleForge.Proofs.Success

/-!
Writing and copying files. Both make the directories above the target and then put one file, which
the path leads to from then on.
-/

namespace LocaleForge.Disk

variable {d d' X Y mid : Disk} {region : Location → Prop} {p : Path} {loc dir : Location}
  {ps : List String} {s : Spot} {content : ByteArray}

/-- The content of the file at a location. -/
def content? (d : Disk) (loc : Location) : Option ByteArray :=
  match d.get? loc with
  | some (.file content _) => some content
  | _ => none

theorem get?_of_content? (h : d.content? loc = some content) :
    ∃ x, d.get? loc = some (.file content x) := by
  rw [content?] at h
  split at h
  case h_1 c x hg =>
    cases h
    exact ⟨x, hg⟩
  case h_2 => cases h

/-- A text is read where a path leads to a file that holds it. -/
theorem readText_eq_ok_iff {text : String} : d.readText p = .ok text ↔ ∃ loc content x b,
    d.find true p = .ok ⟨loc, some (.file content x), b⟩ ∧ Text.decode? content = some text := by
  rw [readText, readBytes]
  constructor
  · intro h
    cases hf : d.find true p with
    | error e =>
      rw [hf] at h
      cases h
    | ok s =>
      obtain ⟨loc, e, b⟩ := s
      rw [hf] at h
      simp only [bind, Except.bind] at h
      split at h
      case h_1 => cases h
      case h_2 content hc =>
        split at hc
        case h_2 =>
          cases hc
          split at h
          case h_1 hd =>
            cases h
            exact ⟨_, _, _, _, rfl, hd⟩
          case h_2 => cases h
        all_goals cases hc
  · rintro ⟨loc, content, x, b, hf, hd⟩
    rw [hf]
    simp only [bind, Except.bind, hd]

theorem readText_of_content? {e : Entry} {b : Bool} {text : String}
    (hf : X.find true p = .ok ⟨loc, some e, b⟩) (hc : X.content? loc = some (Text.encode text)) :
    X.readText p = .ok text := by
  obtain ⟨x, hg⟩ := get?_of_content? hc
  have he := (sound_of_find hf).entry_eq
  rw [hg] at he
  cases he
  exact readText_eq_ok_iff.2 ⟨loc, _, x, b, hf, Text.decode?_encode text⟩

/-! ## The directories above a file -/

theorem workDir_createDirectory {p : Path} (h : d.createDirectory p = .ok d') :
    d'.workDir = d.workDir := by
  rw [createDirectory] at h
  cases hf : d.find false (bare p) with
  | error e =>
    rw [hf] at h
    cases h
  | ok s =>
    rw [hf] at h
    simp only [bind, Except.bind] at h
    split at h
    case h_1 => cases h
    case h_2 =>
      cases h
      exact workDir_set d _ _

theorem workDir_createUpTo (n : Nat) (d : Disk) (p : Path) : (createUpTo n d p).2.workDir = d.workDir := by
  induction n generalizing d p with
  | zero => rfl
  | succ n ih =>
    rw [createUpTo]
    split
    · rfl
    · split
      case h_1 d' h => exact workDir_createDirectory h
      case h_2 =>
        split
        case h_1 => rfl
        case h_2 parent _ =>
          have hp := ih d parent
          split
          case h_1 e d' he => rwa [he] at hp
          case h_2 d' he =>
            rw [he] at hp
            split
            case h_1 d'' h => exact (workDir_createDirectory h).trans hp
            case h_2 => exact hp
      case h_3 => rfl

theorem extends_makeRoom (p : Path) (d : Disk) : d.Extends (Storage.makeRoom p d).2 := by
  rw [Storage.makeRoom]
  split
  · exact .refl d
  · exact extends_createDirectories d _

theorem workDir_makeRoom (p : Path) (d : Disk) : (Storage.makeRoom p d).2.workDir = d.workDir := by
  rw [Storage.makeRoom]
  split
  · rfl
  · exact workDir_createUpTo _ d _

/-! ## The file -/

/-- A link is followed to its end. -/
theorem Walks.entry_ne_link {n : Nat} (hw : d.Walks true n dir ps s)
    (hdir : d.get? dir = some .directory) (target : String) : s.entry ≠ some (.link target) := by
  induction hw with
  | here => simp [hdir]
  | idle _ _ ih => exact ih hdir
  | up _ ih => exact ih (get?_dropLast hdir)
  | down _ hg _ ih => exact ih hg
  | missing => simp
  | file => simp
  | stop _ _ hps => simp at hps
  | link _ _ _ _ ih =>
    refine ih ?_
    split
    · exact get?_root d
    · exact hdir

theorem entry_ne_link_of_find (h : d.find true p = .ok s) (target : String) :
    s.entry ≠ some (.link target) := by
  obtain ⟨ho, hw⟩ := find_eq_ok_iff.1 h
  exact hw.entry_ne_link ho.origin target

/-- The second tree is the first one with a file at one location. -/
structure Puts (d : Disk) (loc : Location) (content : ByteArray) (d' : Disk) : Prop where
  workDir : d'.workDir = d.workDir
  entry : ∃ x, ∀ l, d'.get? l = if l = loc then some (.file content x) else d.get? l

theorem Puts.get?_of_ne (h : d.Puts loc content d') {l : Location} (hl : l ≠ loc) :
    d'.get? l = d.get? l := by
  obtain ⟨x, hx⟩ := h.entry
  rw [hx, if_neg hl]

theorem Puts.get?_self (h : d.Puts loc content d') : ∃ x, d'.get? loc = some (.file content x) := by
  obtain ⟨x, hx⟩ := h.entry
  exact ⟨x, by rw [hx, if_pos rfl]⟩

theorem Puts.content? (h : d.Puts loc content d') (l : Location) :
    d'.content? l = if l = loc then some content else d.content? l := by
  split
  case isTrue hl =>
    obtain ⟨x, hx⟩ := h.get?_self
    rw [hl, LocaleForge.Disk.content?, hx]
  case isFalse hl => rw [LocaleForge.Disk.content?, h.get?_of_ne hl, LocaleForge.Disk.content?]

theorem Puts.walks_of_missing (h : d.Puts loc content d') (hloc : d.get? loc = none) {n : Nat}
    (hw : d.Walks true n dir ps s) (hs : s = ⟨loc, none, false⟩) :
    ∃ e, d'.Walks true n dir ps ⟨loc, some e, false⟩ := by
  obtain ⟨x, hx⟩ := h.get?_self
  have kept : ∀ {l e}, d.get? l = some e → d'.get? l = some e := by
    intro l e he
    rw [h.get?_of_ne ?_, he]
    rintro rfl
    rw [hloc] at he
    cases he
  induction hw with
  | here n dir =>
    obtain ⟨rfl, -, -⟩ := Spot.mk.inj hs
    refine ⟨.file content x, ?_⟩
    rw [← hx]
    exact .here n dir
  | idle hp _ ih => exact (ih hs).imp fun _ => .idle hp
  | up _ ih => exact (ih hs).imp fun _ => .up
  | down hp hg _ ih => exact (ih hs).imp fun _ => .down hp (kept hg)
  | missing hp hg hps =>
    obtain ⟨rfl, -, hempty⟩ := Spot.mk.inj hs
    exact ⟨_, .file hp hx (by simpa using hempty)⟩
  | file => cases hs
  | stop => cases hs
  | link hp hg hps _ ih => exact (ih hs).imp fun _ => .link hp (kept hg) hps

theorem Puts.find_of_missing (h : d.Puts loc content d') (hf : d.find true p = .ok ⟨loc, none, false⟩) :
    ∃ e, d'.find true p = .ok ⟨loc, some e, false⟩ := by
  have hloc : d.get? loc = none := (sound_of_find hf).entry_eq.symm
  obtain ⟨ho, hw⟩ := find_eq_ok_iff.1 hf
  have ho' : d'.Opens p := by
    refine ⟨ho.noNul, ho.notEmpty, ho.short, ?_⟩
    have hd := ho.origin
    rw [origin] at hd ⊢
    rw [h.workDir, h.get?_of_ne, hd]
    rintro he
    rw [he, hloc] at hd
    cases hd
  obtain ⟨e, hw'⟩ := h.walks_of_missing hloc hw rfl
  rw [origin, ← h.workDir] at hw'
  exact ⟨e, find_eq_ok_iff.2 ⟨ho', hw'⟩⟩

/-- A file takes the place of nothing or of a file. -/
theorem Puts.keeps (h : d.Puts s.location content d') (hw : d.writable p = .ok s) : d.Keeps d' := by
  refine ⟨h.workDir, fun {l e} he => ?_⟩
  by_cases hl : l = s.location
  · obtain ⟨x, hx⟩ := h.get?_self
    subst hl
    obtain ⟨hf, hdir⟩ := find_of_writable hw
    have hs := (sound_of_find hf).entry_eq
    rw [he] at hs
    refine ⟨_, hx, .inr ⟨?_, rfl⟩⟩
    cases e with
    | file c x => rfl
    | directory => exact absurd hs hdir
    | link target => exact absurd hs (entry_ne_link_of_find hf target)
  · exact ⟨e, (h.get?_of_ne hl).trans he, .rfl⟩

/-- A file is put where a path leads that can be written to. -/
theorem Puts.find (h : d.Puts s.location content d') (hw : d.writable p = .ok s) :
    ∃ e b, d'.find true p = .ok ⟨s.location, some e, b⟩ := by
  have hk := h.keeps hw
  obtain ⟨hf, -⟩ := find_of_writable hw
  obtain ⟨l, e, slashed⟩ := s
  cases e with
  | none =>
    rw [writable] at hw
    split at hw
    · cases hf' : d.find true (frontOf p) <;> rw [hf'] at hw <;> cases hw
    · rw [hf] at hw
      cases slashed with
      | true => cases hw
      | false =>
        obtain ⟨e, he⟩ := h.find_of_missing hf
        exact ⟨e, false, he⟩
  | some e =>
    obtain ⟨e', -, he'⟩ := hk.find hf
    exact ⟨e', slashed, he'⟩

/-! ## Written files -/

/-- A file is written: the directories above it are made, then it is put where the path leads. -/
structure Wrote (d : Disk) (p : Path) (loc : Location) (content : ByteArray) (d' : Disk) : Prop where
  steps : ∃ mid s, d.Extends mid ∧ mid.workDir = d.workDir ∧ mid.writable p = .ok s ∧
    s.location = loc ∧ mid.Puts loc content d'

theorem puts_set {e : Entry} {x : Bool} (hw : d.writable p = .ok s) (he : e = .file content x) :
    d.Puts s.location content (d.set s.location e) where
  workDir := workDir_set d _ _
  entry := ⟨x, fun l => by rw [get?_set (fits_of_writable hw e), he]⟩

theorem puts_of_writeBytes (h : d.writeBytes p content = .ok d') :
    ∃ s, d.writable p = .ok s ∧ d.Puts s.location content d' := by
  rw [writeBytes] at h
  cases hw : d.writable p with
  | error e =>
    rw [hw] at h
    cases h
  | ok s =>
    rw [hw] at h
    simp only [bind, Except.bind] at h
    split at h <;> cases h <;> exact ⟨s, rfl, puts_set hw rfl⟩

/-- A copy holds what the original holds, unless it takes its place. -/
theorem copied_of_copy {source : Path} (h : d.copy source p = .ok d') :
    ∃ origin original x b s content, d.find true source = .ok ⟨origin, some (.file original x), b⟩ ∧
      d.writable p = .ok s ∧ d.Puts s.location content d' ∧
      (s.location ≠ origin → content = original) := by
  rw [copy] at h
  cases hf : d.find true source with
  | error e =>
    rw [hf] at h
    cases h
  | ok from_ =>
    obtain ⟨origin, e, b⟩ := from_
    rw [hf] at h
    simp only [bind, Except.bind] at h
    split at h
    case h_1 => cases h
    case h_2 original x =>
      cases hw : d.writable p with
      | error e =>
        rw [hw] at h
        cases h
      | ok s =>
        rw [hw] at h
        simp only at h
        split at h
        case isTrue hsame =>
          cases h
          exact ⟨_, _, _, _, _, _, rfl, rfl, puts_set hw rfl, fun hne => absurd hsame hne⟩
        case isFalse =>
          cases h
          exact ⟨_, _, _, _, _, _, rfl, rfl, puts_set hw rfl, fun _ => rfl⟩
    case h_3 => cases h

theorem puts_of_copy {source : Path} (h : d.copy source p = .ok d') :
    ∃ s content, d.writable p = .ok s ∧ d.Puts s.location content d' := by
  obtain ⟨-, -, -, -, s, content, -, hw, hp, -⟩ := copied_of_copy h
  exact ⟨s, content, hw, hp⟩

theorem changes_of_place {a : Activity} {change : Disk → Except Fault Disk} {u : Unit}
    (h : Storage.place p a change d = (.ok u, d')) :
    ∃ mid, d.Extends mid ∧ mid.workDir = d.workDir ∧ change mid = .ok d' := by
  have hext := extends_makeRoom p d
  have hdir := workDir_makeRoom p d
  rw [Storage.place] at h
  rcases hr : Storage.makeRoom p d with ⟨r, mid⟩
  rw [hr] at h hext hdir
  cases r with
  | error e => cases h
  | ok _ =>
    simp only at h
    split at h
    case h_1 hc =>
      cases h
      exact ⟨mid, hext, hdir, hc⟩
    case h_2 => cases h

theorem wrote_of_write {text : String} {u : Unit} (h : Storage.disk.write p text d = (.ok u, d')) :
    ∃ loc, d.Wrote p loc (Text.encode text) d' := by
  obtain ⟨mid, hext, hdir, hc⟩ := changes_of_place h
  obtain ⟨s, hw, hp⟩ := puts_of_writeBytes hc
  exact ⟨s.location, ⟨mid, s, hext, hdir, hw, rfl, hp⟩⟩

theorem wrote_of_copy {source : Path} {u : Unit} (h : Storage.disk.copy source p d = (.ok u, d')) :
    ∃ loc content, d.Wrote p loc content d' := by
  obtain ⟨mid, hext, hdir, hc⟩ := changes_of_place h
  obtain ⟨s, content, hw, hp⟩ := puts_of_copy hc
  exact ⟨s.location, content, ⟨mid, s, hext, hdir, hw, rfl, hp⟩⟩

theorem Grown.extends (h : d.Grown region X) (he : X.Extends Y) (hw : Y.workDir = X.workDir) :
    d.Grown region Y where
  workDir := hw.trans h.workDir
  kept {l e} hd := by
    obtain ⟨e', hx, hl, hr⟩ := h.kept hd
    rcases he l with hy | ⟨hn, -⟩
    · exact ⟨e', hy.trans hx, hl, hr⟩
    · rw [hx] at hn
      cases hn
  added {l e} hy := by
    rcases he l with hy' | ⟨-, hy'⟩
    · exact h.added (hy'.symm.trans hy)
    · rw [hy] at hy'
      cases hy'
      exact .inr (.inl rfl)

/-- A file is written to where its path headed at the start. -/
theorem Wrote.heading? (h : X.Wrote p loc content Y) (hg : d.Grown region X) :
    d.heading? p = some loc := by
  obtain ⟨mid, s, hext, hdir, hw, rfl, -⟩ := h
  exact (hg.extends hext hdir).heading?_of_find (find_of_writable hw).1

theorem Wrote.find (h : X.Wrote p loc content Y) : ∃ e b, Y.find true p = .ok ⟨loc, some e, b⟩ := by
  obtain ⟨mid, s, -, -, hw, rfl, hp⟩ := h
  exact hp.find hw

theorem content?_extends (h : X.Extends Y) (l : Location) : Y.content? l = X.content? l := by
  rcases h l with h | ⟨hn, hd⟩
  · rw [content?, h, content?]
  · rw [content?, hd, content?, hn]

/-- Writing a file changes the content of this file only. -/
theorem Wrote.content? (h : X.Wrote p loc content Y) (l : Location) :
    Y.content? l = if l = loc then some content else X.content? l := by
  obtain ⟨mid, s, hext, -, -, -, hp⟩ := h
  rw [hp.content?, content?_extends hext]

/-- A tree stays grown when a file is written to its region. -/
theorem Grown.wrote (h : d.Grown region X) (hw : X.Wrote p loc content Y) (hr : region loc) :
    d.Grown region Y := by
  obtain ⟨mid, s, hext, hdir, hwrite, rfl, hp⟩ := hw
  have hm := h.extends hext hdir
  have hk := hp.keeps hwrite
  refine ⟨hp.workDir.trans hm.workDir, fun {l e} hd => ?_, fun {l e} hy => ?_⟩
  · obtain ⟨e', hmid, hl, hsame⟩ := hm.kept hd
    obtain ⟨e'', hy, hl'⟩ := hk.entry hmid
    refine ⟨e'', hy, hl.trans hl', fun hout => ?_⟩
    have hne : l ≠ s.location := by
      rintro rfl
      exact hout hr
    rw [hp.get?_of_ne hne, hmid] at hy
    rw [← Option.some.inj hy, hsame hout]
  · by_cases hl : l = s.location
    · obtain ⟨x, hx⟩ := hp.get?_self
      subst hl
      rw [hy] at hx
      cases hx
      exact .inr (.inr ⟨hr, rfl⟩)
    · exact hm.added ((hp.get?_of_ne hl).symm.trans hy)

/-- What a path leads to before a file is written it leads to afterwards. -/
theorem Wrote.keeps (h : X.Wrote p loc content Y) : X.Keeps Y := by
  obtain ⟨mid, s, hext, hdir, hw, rfl, hp⟩ := h
  have hmid : X.Keeps mid := by
    refine ⟨hdir, fun {l e} he => ⟨e, ?_, .rfl⟩⟩
    rcases hext l with hm | ⟨hn, -⟩
    · exact hm.trans he
    · rw [he] at hn
      cases hn
  exact hmid.trans (hp.keeps hw)

end LocaleForge.Disk
