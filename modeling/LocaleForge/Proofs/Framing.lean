import LocaleForge.Proofs.Attempts
import LocaleForge.Proofs.LinkFree

/-!
Trees that change in a region only. Files are written and removed there; elsewhere nothing changes but
that missing directories are made. All links stay as they are, so paths head where they headed at the
start.
-/

namespace LocaleForge.Disk

variable {d X Y : Disk} {region : Location → Prop} {p q : Path} {dir loc : Location}
  {ps rs : List String} {s : Spot}

/-! ## Where paths end -/

/-- Follows the pieces of a path as for its heading, but not a link at its end. -/
def endWith (d : Disk) (onLink : Location → List String → Option Location) :
    Location → List String → Option Location
  | dir, [] => some dir
  | dir, p :: ps =>
    if Path.isIdle p then endWith d onLink dir ps
    else if p = ".." then endWith d onLink dir.dropLast ps
    else
      match d.get? (dir ++ [p]) with
      | some (.link target) =>
        if ps.isEmpty then some (dir ++ [p])
        else onLink (if (Path.mk target).isAbsolute then [] else dir) (Text.cut '/' target ++ ps)
      | _ => endWith d onLink (dir ++ [p]) ps

def endAt (d : Disk) (links : Nat) : Location → List String → Option Location :=
  match links with
  | 0 => endWith d fun _ _ => none
  | n + 1 => endWith d (endAt d n)

/-- Where the path ends once the missing directories on it are made, if a link at its end stays. -/
@[irreducible]
def ending? (d : Disk) (p : Path) : Option Location :=
  d.endAt maxLinks (d.origin p) (Text.cut '/' p.text)

variable {onEnd onHead : Location → List String → Option Location}
  {onLink : Location → List String → Except Fault Spot} {name : String}

theorem endWith_idle (h : Path.isIdle name = true) :
    endWith d onEnd dir (name :: ps) = endWith d onEnd dir ps := by
  rw [endWith, if_pos h]

theorem endWith_up : endWith d onEnd dir (".." :: ps) = endWith d onEnd dir.dropLast ps := by
  rw [endWith, not_isIdle_up]
  rfl

theorem endWith_link (hidle : Path.isIdle name = false) (hup : name ≠ "..") {target : String}
    (h : d.get? (dir ++ [name]) = some (.link target)) :
    endWith d onEnd dir (name :: ps) =
      if ps.isEmpty then some (dir ++ [name])
      else onEnd (if (Path.mk target).isAbsolute then [] else dir) (Text.cut '/' target ++ ps) := by
  rw [endWith, hidle, if_neg Bool.false_ne_true, if_neg hup, h]

theorem endWith_down (hidle : Path.isIdle name = false) (hup : name ≠ "..")
    (h : ∀ target, d.get? (dir ++ [name]) ≠ some (.link target)) :
    endWith d onEnd dir (name :: ps) = endWith d onEnd (dir ++ [name]) ps := by
  rw [endWith, hidle, if_neg Bool.false_ne_true, if_neg hup]
  split
  case h_1 target hg => exact absurd hg (h target)
  case h_2 => rfl

theorem endWith_idles (h : ps.all String.isEmpty = true) : endWith d onEnd dir ps = some dir := by
  induction ps with
  | nil => rfl
  | cons p ps ih =>
    simp only [List.all_cons, Bool.and_eq_true] at h
    rw [endWith_idle (by simp [Path.isIdle, h.1])]
    exact ih h.2

theorem endAt_nil {n : Nat} : d.endAt n dir [] = some dir := by
  cases n <;> rfl

theorem endAt_idle {n : Nat} (h : Path.isIdle name = true) :
    d.endAt n dir (name :: ps) = d.endAt n dir ps := by
  cases n <;> exact endWith_idle h

theorem endAt_idles {n : Nat} (h : ps.all String.isEmpty = true) : d.endAt n dir ps = some dir := by
  cases n <;> exact endWith_idles h

theorem endAt_up {n : Nat} : d.endAt n dir (".." :: ps) = d.endAt n dir.dropLast ps := by
  cases n <;> exact endWith_up

theorem endAt_down {n : Nat} (hp : Path.Proper name)
    (h : ∀ target, d.get? (dir ++ [name]) ≠ some (.link target)) :
    d.endAt n dir (name :: ps) = d.endAt n (dir ++ [name]) ps := by
  cases n <;> exact endWith_down hp.notIdle hp.notUp h

theorem endAt_stop {n : Nat} (hp : Path.Proper name) {target : String}
    (h : d.get? (dir ++ [name]) = some (.link target)) (hps : ps.isEmpty = true) :
    d.endAt n dir (name :: ps) = some (dir ++ [name]) := by
  cases n <;> exact (endWith_link hp.notIdle hp.notUp h).trans (if_pos hps)

theorem endAt_link {n : Nat} (hp : Path.Proper name) {target : String}
    (h : d.get? (dir ++ [name]) = some (.link target)) (hps : ps.isEmpty = false) :
    d.endAt (n + 1) dir (name :: ps) =
      d.endAt n (if (Path.mk target).isAbsolute then [] else dir) (Text.cut '/' target ++ ps) :=
  (endWith_link hp.notIdle hp.notUp h).trans (if_neg (Bool.eq_false_iff.1 hps))

theorem SameLinks.endAt_of_walks (h : d.SameLinks X) {n : Nat} (hw : X.Walks false n dir ps s) :
    d.endAt n dir ps = some s.location := by
  induction hw with
  | here => exact endAt_nil
  | idle hp _ ih => exact (endAt_idle hp).trans ih
  | up _ ih => exact endAt_up.trans ih
  | down hp hg _ ih => exact (endAt_down hp (h.ne_link (by simp [hg]))).trans ih
  | missing hp hg hps => exact (endAt_down hp (h.ne_link (by simp [hg]))).trans (endAt_idles hps)
  | file hp hg hps =>
    rw [List.isEmpty_iff.1 hps]
    exact (endAt_down hp (h.ne_link (by simp [hg]))).trans endAt_nil
  | stop hp hg hps => exact endAt_stop hp (h.link_iff.1 hg) (by simpa using hps)
  | link hp hg hps _ ih => exact (endAt_link hp (h.link_iff.1 hg) (by simpa using hps)).trans ih

/-- A path that is looked up without following a link at its end leads to where it ends. -/
theorem SameLinks.ending?_of_find (h : d.SameLinks X) (hf : X.find false p = .ok s) :
    d.ending? p = some s.location := by
  have hw := (find_eq_ok_iff.1 hf).2
  rw [origin, h.workDir] at hw
  rw [ending?]
  exact h.endAt_of_walks hw

theorem endWith_concat (hname : Path.Simple name)
    (hlink : ∀ dir ps, onEnd dir (ps ++ [name]) = (onHead dir ps).map (· ++ [name])) :
    endWith d onEnd dir (ps ++ [name]) = (headWith d onHead dir ps).map (· ++ [name]) := by
  induction ps generalizing dir with
  | nil =>
    rw [List.nil_append]
    by_cases hg : ∃ target, d.get? (dir ++ [name]) = some (.link target)
    · obtain ⟨target, hg⟩ := hg
      exact endWith_link hname.notIdle hname.notUp hg
    · exact endWith_down hname.notIdle hname.notUp (not_exists.1 hg)
  | cons p ps ih =>
    rw [List.cons_append]
    cases hidle : Path.isIdle p with
    | true => rw [endWith_idle hidle, headWith_idle hidle, ih]
    | false =>
      by_cases hp : p = ".."
      · rw [hp, endWith_up, headWith_up, ih]
      · by_cases hg : ∃ target, d.get? (dir ++ [p]) = some (.link target)
        · obtain ⟨target, hg⟩ := hg
          rw [endWith_link hidle hp hg, headWith_name hidle hp, hg, if_neg (by simp), ← List.append_assoc]
          exact hlink _ _
        · rw [endWith_down hidle hp (not_exists.1 hg), headWith_down hidle hp (not_exists.1 hg), ih]

theorem endAt_concat {n : Nat} (hname : Path.Simple name) :
    d.endAt n dir (ps ++ [name]) = (d.head n dir ps).map (· ++ [name]) := by
  induction n generalizing dir ps with
  | zero => exact endWith_concat hname fun _ _ => rfl
  | succ n ih => exact endWith_concat hname fun _ _ => ih

/-- A name below a path ends where the path heads. -/
theorem ending?_join (hname : Path.Simple name) :
    d.ending? (p.join name) = (d.heading? p).map (· ++ [name]) := by
  obtain ⟨ps, hps, hj⟩ := p.cut_join hname.relative
  rw [ending?, heading?, d.origin_join p hname.relative, hj, hname.cut, endAt_concat hname,
    head_names (Path.names_front hps)]

/-- Where a path ends in no link, it leads there too. -/
theorem Walks.followed {n : Nat} (hw : d.Walks false n dir ps s)
    (hs : ∀ target, s.entry ≠ some (.link target)) : d.Walks true n dir ps s := by
  induction hw with
  | here n dir => exact .here n dir
  | idle hp _ ih => exact .idle hp (ih hs)
  | up _ ih => exact .up (ih hs)
  | down hp hg _ ih => exact .down hp hg (ih hs)
  | missing hp hg hps => exact .missing hp hg hps
  | file hp hg hps => exact .file hp hg hps
  | stop => exact absurd rfl (hs _)
  | link hp hg _ _ ih => exact .link hp hg (by simp) (ih hs)

theorem find_followed (hf : d.find false p = .ok s) (hs : ∀ target, s.entry ≠ some (.link target)) :
    d.find true p = .ok s := by
  obtain ⟨ho, hw⟩ := find_eq_ok_iff.1 hf
  exact find_eq_ok_iff.2 ⟨ho, hw.followed hs⟩

/-! ## Paths below which no link lies -/

/-- No link lies where the path heads, nor below. -/
def Free (d : Disk) (p : Path) : Prop :=
  ∀ loc, d.heading? p = some loc → ∀ l, loc <+: l → ∀ target, d.get? l ≠ some (.link target)

theorem LinkFree.free (h : d.LinkFree) (p : Path) : d.Free p :=
  fun _ _ l _ => h l

theorem headWith_of_append (hlink : ∀ dir ps, (onHead dir (ps ++ rs)).isSome → (onHead dir ps).isSome)
    (h : (headWith d onHead dir (ps ++ rs)).isSome) : (headWith d onHead dir ps).isSome := by
  induction ps generalizing dir with
  | nil => rfl
  | cons p ps ih =>
    rw [List.cons_append] at h
    cases hidle : Path.isIdle p with
    | true =>
      rw [headWith_idle hidle] at h ⊢
      exact ih h
    | false =>
      by_cases hp : p = ".."
      · subst hp
        rw [headWith_up] at h ⊢
        exact ih h
      · rw [headWith_name hidle hp] at h ⊢
        split at h
        case h_1 =>
          rw [← List.append_assoc] at h
          exact hlink _ _ h
        case h_2 => exact ih h

theorem head_of_append {n : Nat} (h : (d.head n dir (ps ++ rs)).isSome) : (d.head n dir ps).isSome := by
  induction n generalizing dir ps with
  | zero => exact headWith_of_append (fun _ _ h => by cases h) h
  | succ n ih => exact headWith_of_append (fun _ _ h => ih h) h

/-- A path heads somewhere if what is joined to it does. -/
theorem heading?_of_join {rel : String} (hrel : Path.Plain rel) (h : d.heading? (p.join rel) = some loc) :
    ∃ l, d.heading? p = some l := by
  obtain ⟨ps, hp, hj⟩ := p.cut_join hrel.relative
  rw [heading?, d.origin_join p hrel.relative, hj] at h
  rw [heading?, head_names (Path.names_front hp)]
  exact Option.isSome_iff_exists.1 (head_of_append (Option.isSome_of_mem h))

theorem Free.heading?_join (h : d.Free p) {rel : String} (hrel : Path.Plain rel)
    (hl : d.heading? (p.join rel) = some loc) :
    ∃ l, d.heading? p = some l ∧ loc = l ++ Path.names (Text.cut '/' rel) := by
  obtain ⟨l, hp⟩ := heading?_of_join hrel hl
  rw [LocaleForge.Disk.heading?_join hp (fun l' hl' _ => h l hp l' hl') hrel] at hl
  exact ⟨l, hp, (Option.some.inj hl).symm⟩

theorem Free.join (h : d.Free p) {rel : String} (hrel : Path.Plain rel) : d.Free (p.join rel) := by
  intro loc hloc l hl
  obtain ⟨l', hp, rfl⟩ := h.heading?_join hrel hloc
  exact h l' hp l ((List.prefix_append _ _).trans hl)

/-! ## Changes in a region -/

/-- The second tree is the first one with other files in a region and with more directories. The links
are the same, so paths head where they headed at the start. -/
structure Framed (d : Disk) (region : Location → Prop) (X : Disk) : Prop where
  sameLinks : d.SameLinks X
  outside : ∀ {l}, ¬ region l → X.get? l = d.get? l ∨ d.get? l = none ∧ X.get? l = some .directory

theorem Framed.refl (d : Disk) (region : Location → Prop) : d.Framed region d :=
  ⟨⟨rfl, .rfl⟩, fun _ => .inl rfl⟩

theorem Extends.sameLinks (he : X.Extends Y) (hw : Y.workDir = X.workDir) : X.SameLinks Y where
  workDir := hw
  link_iff {l target} := by
    rcases he l with hy | ⟨hx, hy⟩
    · rw [hy]
    · rw [hx, hy]
      exact ⟨nofun, nofun⟩

theorem SameLinks.trans (h : d.SameLinks X) (h' : X.SameLinks Y) : d.SameLinks Y :=
  ⟨h'.workDir.trans h.workDir, h'.link_iff.trans h.link_iff⟩

theorem Puts.sameLinks {content : ByteArray} (h : X.Puts s.location content Y)
    (hw : X.writable p = .ok s) : X.SameLinks Y where
  workDir := h.workDir
  link_iff {l target} := by
    by_cases hl : l = s.location
    · obtain ⟨x, hx⟩ := h.get?_self
      have hf := (find_of_writable hw).1
      rw [hl, hx, ← (sound_of_find hf).entry_eq]
      exact ⟨nofun, fun he => absurd he (entry_ne_link_of_find hf target)⟩
    · rw [h.get?_of_ne hl]

theorem Framed.extends (h : d.Framed region X) (he : X.Extends Y) (hw : Y.workDir = X.workDir) :
    d.Framed region Y := by
  refine ⟨h.sameLinks.trans (he.sameLinks hw), fun {l} hl => ?_⟩
  rcases he l with hy | ⟨hx, hy⟩
  · rw [hy]
    exact h.outside hl
  · rcases h.outside hl with hx' | ⟨-, hx'⟩
    · exact .inr ⟨hx'.symm.trans hx, hy⟩
    · rw [hx'] at hx
      cases hx

/-- Files are written to the region. -/
theorem Framed.touched (h : d.Framed region X) (hp : ∀ l, d.heading? p = some l → region l)
    (ht : X.Touched p Y) : d.Framed region Y := by
  rcases ht.cases with ⟨hext, hdir⟩ | ⟨loc, content, mid, s, hext, hdir, hw, rfl, hputs⟩
  · exact h.extends hext hdir
  · have hmid := h.extends hext hdir
    have hin := hp _ (hmid.sameLinks.heading?_of_find (find_of_writable hw).1)
    refine ⟨hmid.sameLinks.trans (hputs.sameLinks hw), fun {l} hl => ?_⟩
    have hne : l ≠ s.location := by
      rintro rfl
      exact hl hin
    rw [hputs.get?_of_ne hne]
    exact hmid.outside hl

/-! ## Cleaning -/

theorem get?_erase_cases (d : Disk) (base l : Location) :
    (d.erase base).get? l = d.get? l ∨ base <+: l ∧ (d.erase base).get? l = none := by
  by_cases hl : l = []
  · rw [hl, get?_root, get?_root]
    exact .inl rfl
  · rw [get?_erase hl]
    split
    case isTrue hp => exact .inr ⟨List.isPrefixOf_iff_prefix.1 hp, rfl⟩
    case isFalse => exact .inl rfl

theorem get?_eraseBelow_cases (d : Disk) (base l : Location) :
    (d.eraseBelow base).get? l = d.get? l ∨ base <+: l ∧ (d.eraseBelow base).get? l = none := by
  rw [get?_eraseBelow]
  split
  case isTrue hb => exact .inr ⟨(isBelow_iff.1 hb).1, rfl⟩
  case isFalse => exact .inl rfl

/-- Removing a tree takes away at most what lies where the path leads, and all that is below. -/
theorem get?_removeTree_cases (d : Disk) (p : Path) (l : Location) :
    (d.removeTree p).2.get? l = d.get? l ∨
      ∃ s, d.find false p = .ok s ∧ s.location <+: l ∧ (d.removeTree p).2.get? l = none := by
  rw [removeTree]
  split
  case h_1 => exact .inl rfl
  case h_2 s hs =>
    -- Only what lies there and below is ever erased.
    have erased : ∀ {X : Disk}, X.get? l = d.get? l ∨ s.location <+: l ∧ X.get? l = none →
        X.get? l = d.get? l ∨ ∃ s', d.find false p = .ok s' ∧ s'.location <+: l ∧ X.get? l = none :=
      Or.imp_right fun h => ⟨s, hs, h⟩
    split
    · exact .inl rfl
    · exact erased (get?_erase_cases d _ l)
    · exact .inl rfl
    · rcases removeEmptied_eq (d.eraseBelow s.location) p s.location with he | he
      · rw [he]
        exact erased (get?_eraseBelow_cases d _ l)
      · rw [he, erase_eraseBelow]
        exact erased (get?_erase_cases d _ l)

/-- A file stays when a path is cleared that leads neither to it nor above it. -/
theorem get?_file_cleared (hk : X.Keeps d) {l : Location} {content : ByteArray} {x : Bool}
    (hp : ∀ loc e b, d.find false p = .ok ⟨loc, some e, b⟩ → (∀ target, e ≠ .link target) → ¬ loc <+: l) :
    (X.cleared p).get? l = some (.file content x) ↔ X.get? l = some (.file content x) := by
  rw [LocaleForge.Disk.cleared]
  split
  case isFalse => rfl
  case isTrue =>
    rcases get?_removeTree_cases X p l with hx | ⟨⟨loc, e, b⟩, hs, hl, hx⟩
    · rw [hx]
    · rw [hx]
      refine ⟨fun hnone => absurd hnone (by simp), fun hfile => ?_⟩
      -- What is removed is a directory above the file, or the file.
      have he : ∃ e', e = some e' ∧ ∀ target, e' ≠ .link target := by
        have heq : e = X.get? loc := (sound_of_find hs).entry_eq
        by_cases hsame : l = loc
        · exact ⟨.file content x, heq.trans (hsame ▸ hfile), by simp⟩
        · exact ⟨.directory, heq.trans (get?_of_isBelow (isBelow_iff.2 ⟨hl, hsame⟩) hfile), by simp⟩
      obtain ⟨e', rfl, hlink⟩ := he
      obtain ⟨e'', hlike, hs'⟩ := hk.find hs
      refine absurd hl (hp loc e'' b hs' fun target htarget => ?_)
      rcases hlike with hsame | ⟨-, hfile'⟩
      · exact hlink target (hsame.symm.trans htarget)
      · rw [htarget] at hfile'
        cases hfile'

/-- What lies in the region is removed, where no link is. -/
theorem Framed.cleared (h : d.Framed region X)
    (hp : ∀ loc, d.ending? p = some loc → ∀ l, loc <+: l →
      region l ∧ ∀ target, d.get? l ≠ some (.link target)) : d.Framed region (X.cleared p) := by
  have hcases : ∀ l, (X.cleared p).get? l = X.get? l ∨
      (region l ∧ ∀ target, d.get? l ≠ some (.link target)) ∧ (X.cleared p).get? l = none := by
    intro l
    rw [LocaleForge.Disk.cleared]
    split
    case isFalse => exact .inl rfl
    case isTrue =>
      rcases get?_removeTree_cases X p l with hx | ⟨s, hs, hl, hx⟩
      · exact .inl hx
      · exact .inr ⟨hp _ (h.sameLinks.ending?_of_find hs) l hl, hx⟩
  refine ⟨⟨(cleared_keeps X p).workDir.symm.trans h.sameLinks.workDir, fun {l target} => ?_⟩,
    fun {l} hl => ?_⟩
  · rcases hcases l with hx | ⟨⟨-, hfree⟩, hx⟩
    · rw [hx]
      exact h.sameLinks.link_iff
    · rw [hx]
      exact ⟨fun hx => absurd hx (by simp), fun hd => absurd hd (hfree target)⟩
  · rcases hcases l with hx | ⟨⟨hin, -⟩, -⟩
    · rw [hx]
      exact h.outside hl
    · exact absurd hin hl

end LocaleForge.Disk
