import LocaleForge.Config.Discovery
import LocaleForge.Proofs.Attempts
import LocaleForge.Proofs.Directories

/-!
Absolute paths, and the canonical ones among them. A path has one if it leads somewhere and no location on
the way has an absolute path that is too long.
-/

namespace LocaleForge

theorem Text.mem_join_iff {sep c : Char} {ss : List String} (h : c ≠ sep) :
    c ∈ (join sep ss).toList ↔ ∃ s ∈ ss, c ∈ s.toList := by
  rw [join, String.toList_ofList]
  induction ss with
  | nil => simp [glue]
  | cons s ss ih =>
    cases ss with
    | nil => simp [glue]
    | cons t ss =>
      rw [List.map_cons, glue_cons sep _ (by simp), List.mem_append, List.mem_cons, ih]
      simp [h]

namespace Path

variable {loc : Location} {name : String}

/-! ## Absolute paths -/

theorem isAbsolute_ofLocation (loc : Location) : (ofLocation loc).isAbsolute = true := by
  simp [ofLocation, isAbsolute]

theorem cut_ofLocation (hne : loc ≠ []) (h : ∀ n ∈ loc, '/' ∉ n.toList) :
    Text.cut '/' (ofLocation loc).text = "" :: loc := by
  have hcut := cut_append_slash "" (Text.join '/' loc)
  rw [String.empty_append, Text.cut_join hne h] at hcut
  exact hcut

theorem pieces_ofLocation (hne : loc ≠ []) (h : ∀ n ∈ loc, IsName n) : (ofLocation loc).pieces = loc := by
  rw [pieces, if_pos (isAbsolute_ofLocation loc), cut_ofLocation hne fun n hn => (h n hn).2.2.2,
    List.tail_cons]

theorem ofLocation_concat (hne : loc ≠ []) (name : String) :
    (ofLocation (loc ++ [name])).text = (ofLocation loc).text ++ "/" ++ name := by
  apply String.toList_injective
  simp [ofLocation, Text.toList_join_concat hne]

theorem exists_ofLocation_concat (loc : Location) (name : String) :
    ∃ front, (ofLocation (loc ++ [name])).text = front ++ name := by
  by_cases hne : loc = []
  · exact ⟨"/", by simp [hne, ofLocation, Text.join, Text.glue]⟩
  · exact ⟨_, ofLocation_concat hne name⟩

theorem isEmpty_ofLocation (loc : Location) : (ofLocation loc).text.isEmpty = false := by
  refine Bool.eq_false_iff.2 fun he => ?_
  simpa [ofLocation] using congrArg String.toList (String.isEmpty_iff.1 he)

/-- The path to an entry of a directory. -/
theorem ofLocation_join (h : ∀ n ∈ loc, IsName n) (hname : Simple name) :
    (ofLocation loc).join name = ofLocation (loc ++ [name]) := by
  have hrel : ¬ (Path.mk name).isAbsolute = true := Bool.eq_false_iff.1 hname.relative
  cases loc using List.reverseRecOn with
  | nil =>
    have hroot : ofLocation [] = ⟨"/"⟩ := rfl
    rw [join, if_neg hrel, hroot, if_pos (by decide)]
    simp [ofLocation, Text.join, Text.glue]
  | append_singleton loc last =>
    have hlast := simple_of_isName (h last (by simp))
    obtain ⟨front, hfront⟩ := exists_ofLocation_concat loc last
    have hslash : (ofLocation (loc ++ [last])).text.toList.getLast? ≠ some '/' := by
      rw [hfront]
      exact hlast.getLast?_append front
    rw [join, if_neg hrel, if_neg (by simp [isEmpty_ofLocation, hslash]), ← ofLocation_concat (by simp)]

end Path

namespace Disk

variable {d : Disk} {base loc dir : Location} {ns rs : List String} {ps : List String} {s : Spot} {n : Nat}
  {piece : String} {p : Path} {e : Entry} {b : Bool}

theorem origin_ofLocation (d : Disk) (loc : Location) : d.origin (.ofLocation loc) = [] :=
  if_pos (Path.isAbsolute_ofLocation loc)

theorem opens_ofLocation_iff : d.Opens (.ofLocation loc) ↔
    (Path.ofLocation loc).text.utf8ByteSize ≤ maxPath ∧ ∀ name ∈ loc, '\x00' ∉ name.toList := by
  have hnul : (Path.ofLocation loc).text.toList.contains '\x00' = false ↔
      ∀ name ∈ loc, '\x00' ∉ name.toList := by
    rw [Path.ofLocation, ← Bool.not_eq_true, List.contains_iff_mem, String.toList_append, List.mem_append,
      Text.mem_join_iff (by decide)]
    simp
  rw [← hnul]
  constructor
  · intro ho
    exact ⟨Nat.le_of_not_lt ho.short, ho.noNul⟩
  · rintro ⟨hshort, hnul⟩
    exact ⟨hnul, Path.isEmpty_ofLocation loc, Nat.not_lt.2 hshort, by rw [origin_ofLocation, get?_root]⟩

theorem directory_of_prefix (hdir : d.get? loc = some .directory) (h : base <+: loc) :
    d.get? base = some .directory := by
  by_cases he : loc = base
  · exact he ▸ hdir
  · exact get?_of_isBelow (isBelow_iff.2 ⟨h, he⟩) hdir

/-- A walk down a tree leads through directories, if none of their names is too long. -/
theorem walks_down_iff (hdir : d.get? (base ++ ns) = some .directory) :
    d.Walks true n base (ns ++ rs) s ↔
      (∀ name ∈ ns, name.utf8ByteSize ≤ maxName) ∧ d.Walks true n (base ++ ns) rs s := by
  induction ns generalizing base with
  | nil => simp
  | cons name ns ih =>
    have hname := Path.simple_of_isName (isName_of_get? hdir (by simp : name ∈ base ++ name :: ns))
    have hfirst : d.get? (base ++ [name]) = some .directory := directory_of_prefix hdir (by simp)
    have hrest := @ih (base ++ [name]) (by simpa using hdir)
    rw [List.append_assoc, List.singleton_append] at hrest
    rw [List.cons_append, List.forall_mem_cons, and_assoc, ← hrest]
    constructor
    · intro hw
      cases hw with
      | idle hp => exact absurd hp (Bool.eq_false_iff.1 hname.notIdle)
      | up => exact absurd rfl hname.notUp
      | down hp _ h => exact ⟨Nat.le_of_not_lt hp.short, h⟩
      | missing _ hg => cases hfirst.symm.trans hg
      | file _ hg => cases hfirst.symm.trans hg
      | stop _ hg => cases hfirst.symm.trans hg
      | link _ hg => cases hfirst.symm.trans hg
    · rintro ⟨hshort, hw⟩
      exact .down ⟨hname.notIdle, hname.notUp, Nat.not_lt.2 hshort⟩ hfirst hw

/-! ## Canonical paths -/

/-- The absolute path of a location is short enough to be looked up. -/
def Shallow (loc : Location) : Prop :=
  (Path.ofLocation loc).text.utf8ByteSize ≤ maxPath

instance : DecidablePred Shallow := fun loc =>
  inferInstanceAs (Decidable ((Path.ofLocation loc).text.utf8ByteSize ≤ maxPath))

/-- The locations that a walk looks up. -/
def passedWith (d : Disk) (onLink : Location → List String → List Location) :
    Location → List String → List Location
  | _, [] => []
  | dir, p :: ps =>
    if Path.isIdle p then passedWith d onLink dir ps
    else if p = ".." then passedWith d onLink dir.dropLast ps
    else (dir ++ [p]) :: match d.get? (dir ++ [p]) with
      | some .directory => passedWith d onLink (dir ++ [p]) ps
      | some (.link target) =>
        onLink (if (Path.mk target).isAbsolute then [] else dir) (Text.cut '/' target ++ ps)
      | _ => []

def passedFrom (d : Disk) (links : Nat) : Location → List String → List Location :=
  match links with
  | 0 => passedWith d fun _ _ => []
  | n + 1 => passedWith d (passedFrom d n)

theorem canonicalFrom_idle (hp : Path.isIdle piece = true) :
    d.canonicalFrom n dir (piece :: ps) = d.canonicalFrom n dir ps := by
  cases n <;> exact if_pos hp

theorem passedFrom_idle (hp : Path.isIdle piece = true) :
    d.passedFrom n dir (piece :: ps) = d.passedFrom n dir ps := by
  cases n <;> exact if_pos hp

theorem canonicalFrom_up : d.canonicalFrom n dir (".." :: ps) = d.canonicalFrom n dir.dropLast ps := by
  cases n <;> rfl

theorem passedFrom_up : d.passedFrom n dir (".." :: ps) = d.passedFrom n dir.dropLast ps := by
  cases n <;> rfl

theorem canonicalWith_proper {onLink : Location → List String → Except Fault Location} (hp : Path.Proper piece) :
    canonicalWith d onLink dir (piece :: ps) = if Shallow (dir ++ [piece]) then
        match d.get? (dir ++ [piece]) with
        | none => .error .notFound
        | some .directory => canonicalWith d onLink (dir ++ [piece]) ps
        | some (.file ..) => if ps.isEmpty then .ok (dir ++ [piece]) else .error .notDirectory
        | some (.link target) =>
          onLink (if (Path.mk target).isAbsolute then [] else dir) (Text.cut '/' target ++ ps)
      else .error .nameTooLong := by
  rw [canonicalWith, if_neg (Bool.eq_false_iff.1 hp.notIdle), if_neg hp.notUp, if_neg hp.short]
  by_cases hshallow : Shallow (dir ++ [piece])
  · rw [if_neg (Nat.not_lt.2 hshallow)]
    exact (if_pos hshallow).symm
  · rw [if_pos (Nat.lt_of_not_le hshallow), if_neg hshallow]

theorem passedWith_proper {onLink : Location → List String → List Location} (hp : Path.Proper piece) :
    passedWith d onLink dir (piece :: ps) = (dir ++ [piece]) :: match d.get? (dir ++ [piece]) with
      | some .directory => passedWith d onLink (dir ++ [piece]) ps
      | some (.link target) =>
        onLink (if (Path.mk target).isAbsolute then [] else dir) (Text.cut '/' target ++ ps)
      | _ => [] := by
  rw [passedWith, if_neg (Bool.eq_false_iff.1 hp.notIdle), if_neg hp.notUp]

theorem canonicalFrom_directory (hp : Path.Proper piece) (hg : d.get? (dir ++ [piece]) = some .directory) :
    d.canonicalFrom n dir (piece :: ps) =
      if Shallow (dir ++ [piece]) then d.canonicalFrom n (dir ++ [piece]) ps else .error .nameTooLong := by
  cases n <;> exact (canonicalWith_proper hp).trans (by rw [hg]; rfl)

theorem passedFrom_directory (hp : Path.Proper piece) (hg : d.get? (dir ++ [piece]) = some .directory) :
    d.passedFrom n dir (piece :: ps) = (dir ++ [piece]) :: d.passedFrom n (dir ++ [piece]) ps := by
  cases n <;> exact (passedWith_proper hp).trans (by rw [hg]; rfl)

theorem if_shallow_cons {α : Type} (loc : Location) (locs : List Location) (x y : α) :
    (if ∀ l ∈ loc :: locs, Shallow l then x else y) =
      if Shallow loc then if ∀ l ∈ locs, Shallow l then x else y else y := by
  by_cases hloc : Shallow loc <;> simp [hloc]

/-- Where a walk leads somewhere, its end is the canonical location if all that it looks up is shallow. -/
theorem Walks.canonicalFrom_eq (h : d.Walks true n dir ps s) (hs : s.entry.isSome = true) :
    d.canonicalFrom n dir ps =
      if ∀ l ∈ d.passedFrom n dir ps, Shallow l then .ok s.location else .error .nameTooLong := by
  -- Each step of the walk looks up at most one location, before those of the walk that is left.
  induction h with
  | here n dir => cases n <;> rfl
  | idle hp _ ih => rw [canonicalFrom_idle hp, passedFrom_idle hp, ih hs]
  | up _ ih => rw [canonicalFrom_up, passedFrom_up, ih hs]
  | down hp hg _ ih => rw [canonicalFrom_directory hp hg, passedFrom_directory hp hg, if_shallow_cons, ih hs]
  | missing => cases hs
  | @file n dir p ps _ _ hp hg hps =>
    have hpassed : d.passedFrom n dir (p :: ps) = [dir ++ [p]] := by
      cases n <;> exact (passedWith_proper hp).trans (by rw [hg])
    have hcanonical : d.canonicalFrom n dir (p :: ps) =
        if Shallow (dir ++ [p]) then .ok (dir ++ [p]) else .error .nameTooLong := by
      cases n <;> exact (canonicalWith_proper hp).trans (by rw [hg]; simp only [if_pos hps])
    rw [hpassed, hcanonical, if_shallow_cons]
    simp
  | stop _ _ hempty => simp at hempty
  | @link n dir p ps _ target hp hg _ _ ih =>
    have hpassed : d.passedFrom (n + 1) dir (p :: ps) = (dir ++ [p]) ::
        d.passedFrom n (if (Path.mk target).isAbsolute then [] else dir) (Text.cut '/' target ++ ps) :=
      (passedWith_proper hp).trans (by rw [hg])
    have hcanonical : d.canonicalFrom (n + 1) dir (p :: ps) = if Shallow (dir ++ [p]) then
        d.canonicalFrom n (if (Path.mk target).isAbsolute then [] else dir) (Text.cut '/' target ++ ps)
        else .error .nameTooLong :=
      (canonicalWith_proper hp).trans (by rw [hg])
    rw [hpassed, hcanonical, if_shallow_cons, ih hs]

/-- What has a canonical location leads there. -/
theorem walks_of_canonicalWith {onLink : Location → List String → Except Fault Location}
    (hlink : ∀ {dir p ps loc target}, d.get? dir = some .directory → Path.Proper p →
      d.get? (dir ++ [p]) = some (.link target) →
      onLink (if (Path.mk target).isAbsolute then [] else dir) (Text.cut '/' target ++ ps) = .ok loc →
      ∃ e b, d.Walks true n dir (p :: ps) ⟨loc, some e, b⟩)
    (hdir : d.get? dir = some .directory) (h : canonicalWith d onLink dir ps = .ok loc) :
    ∃ e b, d.Walks true n dir ps ⟨loc, some e, b⟩ := by
  induction ps generalizing dir with
  | nil =>
    cases h
    exact ⟨.directory, false, hdir ▸ .here n _⟩
  | cons p ps ih =>
    by_cases hidle : Path.isIdle p = true
    · rw [canonicalWith, if_pos hidle] at h
      obtain ⟨e, b, hw⟩ := ih hdir h
      exact ⟨e, b, .idle hidle hw⟩
    by_cases hup : p = ".."
    · rw [canonicalWith, if_neg hidle, if_pos hup] at h
      obtain ⟨e, b, hw⟩ := ih (get?_dropLast hdir) h
      exact ⟨e, b, hup ▸ .up hw⟩
    have hp : Path.Proper p := by
      refine ⟨Bool.eq_false_iff.2 hidle, hup, fun hlong => ?_⟩
      rw [canonicalWith, if_neg hidle, if_neg hup, if_pos hlong] at h
      cases h
    rw [canonicalWith_proper hp] at h
    split at h
    case isFalse => cases h
    case isTrue =>
      rcases hg : d.get? (dir ++ [p]) with _ | ⟨content, x⟩ | _ | target
      · rw [hg] at h
        cases h
      · simp only [hg] at h
        split at h
        case isTrue hps =>
          cases h
          exact ⟨_, _, .file hp hg hps⟩
        case isFalse => cases h
      · rw [hg] at h
        obtain ⟨e, b, hw⟩ := ih hg h
        exact ⟨e, b, .down hp hg hw⟩
      · rw [hg] at h
        exact hlink hdir hp hg h

theorem walks_of_canonicalFrom (hdir : d.get? dir = some .directory) (h : d.canonicalFrom n dir ps = .ok loc) :
    ∃ e b, d.Walks true n dir ps ⟨loc, some e, b⟩ := by
  induction n generalizing dir ps loc with
  | zero => exact walks_of_canonicalWith (fun _ _ _ h => by cases h) hdir h
  | succ n ih =>
    refine walks_of_canonicalWith (fun {dir _ _ _ target} hdir hp hg h => ?_) hdir h
    have hbase : d.get? (if (Path.mk target).isAbsolute then [] else dir) = some .directory := by
      split
      · exact get?_root d
      · exact hdir
    obtain ⟨e, b, hw⟩ := ih hbase h
    exact ⟨e, b, .link hp hg (by simp) hw⟩

/-! ## Whole paths -/

/-- A path leads to an entry; its text may have any length. -/
structure Leads (d : Disk) (p : Path) (loc : Location) (e : Entry) : Prop where
  noNul : p.text.toList.contains '\x00' = false
  notEmpty : p.text.isEmpty = false
  origin : d.get? (d.origin p) = some .directory
  walks : ∃ b, d.Walks true maxLinks (d.origin p) (Text.cut '/' p.text) ⟨loc, some e, b⟩

/-- The locations that are looked up on the way along a path. -/
def passed (d : Disk) (p : Path) : List Location :=
  d.passedFrom maxLinks (d.origin p) (Text.cut '/' p.text)

theorem leads_of_find (h : d.find true p = .ok ⟨loc, some e, b⟩) : d.Leads p loc e := by
  obtain ⟨hopens, hw⟩ := find_eq_ok_iff.1 h
  exact ⟨hopens.noNul, hopens.notEmpty, hopens.origin, b, hw⟩

theorem Leads.find (h : d.Leads p loc e) (hshort : p.text.utf8ByteSize ≤ maxPath) :
    ∃ b, d.find true p = .ok ⟨loc, some e, b⟩ := by
  obtain ⟨b, hw⟩ := h.walks
  exact ⟨b, find_eq_ok_iff.2 ⟨⟨h.noNul, h.notEmpty, Nat.not_lt.2 hshort, h.origin⟩, hw⟩⟩

theorem Leads.get? (h : d.Leads p loc e) : d.get? loc = some e := by
  obtain ⟨b, hw⟩ := h.walks
  exact (sound_of_walk h.origin (fun _ => Text.sep_notMem_of_mem_cut) hw.walk_eq).entry_eq.symm

theorem canonical_eq_canonicalFrom (hnul : p.text.toList.contains '\x00' = false)
    (hempty : p.text.isEmpty = false) : d.canonical p = if d.get? (d.origin p) = some .directory then
      d.canonicalFrom maxLinks (d.origin p) (Text.cut '/' p.text) else .error .notFound := by
  rw [canonical, hnul, hempty, if_neg Bool.false_ne_true, if_neg Bool.false_ne_true]
  by_cases ha : p.isAbsolute = true
  · rw [if_pos ha, origin, if_pos ha, if_pos (get?_root d)]
  · rw [if_neg ha, origin, if_neg ha]

/-- A path that leads somewhere has a canonical location if all that is looked up is shallow. -/
theorem Leads.canonical_eq (h : d.Leads p loc e) :
    d.canonical p = if ∀ l ∈ d.passed p, Shallow l then .ok loc else .error .nameTooLong := by
  obtain ⟨b, hw⟩ := h.walks
  rw [canonical_eq_canonicalFrom h.noNul h.notEmpty, if_pos h.origin]
  exact hw.canonicalFrom_eq rfl

/-- Only a path that leads somewhere has a canonical location. -/
theorem leads_of_canonical (h : d.canonical p = .ok loc) : ∃ e, d.Leads p loc e := by
  have hnul : p.text.toList.contains '\x00' = false := by
    refine Bool.eq_false_iff.2 fun hnul => ?_
    rw [canonical, if_pos hnul] at h
    cases h
  have hempty : p.text.isEmpty = false := by
    refine Bool.eq_false_iff.2 fun hempty => ?_
    rw [canonical, hnul, if_neg Bool.false_ne_true, if_pos hempty] at h
    cases h
  rw [canonical_eq_canonicalFrom hnul hempty] at h
  split at h
  case isTrue horigin =>
    obtain ⟨e, b, hw⟩ := walks_of_canonicalFrom horigin h
    exact ⟨e, hnul, hempty, horigin, b, hw⟩
  case isFalse => cases h

/-! ## From the working directory -/

/-- A directory in the working directory is found by its name. -/
theorem find_name (hdir : d.get? d.workDir = some .directory) (hname : Path.Simple piece)
    (hnul : '\x00' ∉ piece.toList) (hshort : piece.utf8ByteSize ≤ maxName)
    (hget : d.get? (d.workDir ++ [piece]) = some .directory) :
    d.find true ⟨piece⟩ = .ok ⟨d.workDir ++ [piece], some .directory, false⟩ := by
  have horigin : d.origin ⟨piece⟩ = d.workDir := if_neg (Bool.eq_false_iff.1 hname.relative)
  have hopens : d.Opens ⟨piece⟩ := by
    refine ⟨by simpa using hnul, ?_, Nat.not_lt.2 (hshort.trans (by decide)), by rw [horigin, hdir]⟩
    simpa using hname.ne_nil
  rw [hopens.find, horigin, hname.cut, walk_directory ⟨hname.notIdle, hname.notUp, Nat.not_lt.2 hshort⟩ hget,
    walk_nil, hget]

theorem mem_passed_name (hname : Path.Simple piece) (hshort : piece.utf8ByteSize ≤ maxName)
    (hget : d.get? (d.workDir ++ [piece]) = some .directory) : d.workDir ++ [piece] ∈ d.passed ⟨piece⟩ := by
  have horigin : d.origin ⟨piece⟩ = d.workDir := if_neg (Bool.eq_false_iff.1 hname.relative)
  rw [passed, horigin, hname.cut,
    passedFrom_directory ⟨hname.notIdle, hname.notUp, Nat.not_lt.2 hshort⟩ hget]
  exact List.mem_cons_self

theorem find_here (hdir : d.get? d.workDir = some .directory) :
    d.find true ⟨"."⟩ = .ok ⟨d.workDir, some .directory, false⟩ := by
  have horigin : d.origin ⟨"."⟩ = d.workDir := if_neg (by decide)
  have hopens : d.Opens ⟨"."⟩ := ⟨by decide, by decide, by decide, by rw [horigin, hdir]⟩
  rw [hopens.find, horigin]
  exact (walk_idle (by decide)).trans (walk_nil.trans (by rw [hdir]))

theorem passed_here : d.passed ⟨"."⟩ = [] :=
  passedFrom_idle (by decide)

end Disk

end LocaleForge
