import LocaleForge.Proofs.Discovery

/-!
The root of a project and its configuration do not depend on how the configuration file is named: whether it is
found from a directory inside the project, or given by a path that is absolute or relative.
-/

namespace LocaleForge

namespace Path

variable {p q : Path}

/-- Absolute paths that name the same things have the same steps. -/
theorem components_eq_of_names (hp : p.isAbsolute = true) (hq : q.isAbsolute = true)
    (h : names (Text.cut '/' p.text) = names (Text.cut '/' q.text)) : p.components = q.components := by
  have hsteps : ∀ r : Path, r.isAbsolute = true →
      r.components = .root :: (names (Text.cut '/' r.text)).map step := by
    intro r hr
    rw [components, if_pos hr, ← names_pieces]
    rfl
  rw [hsteps p hp, hsteps q hq, h]

theorem join_of_isAbsolute (p : Path) {rest : String} (h : (Path.mk rest).isAbsolute = true) :
    p.join rest = ⟨rest⟩ := by
  rw [join, if_pos h]

/-- A path below an absolute one is absolute, however it is written. -/
theorem isAbsolute_join_of_left (hp : p.isAbsolute = true) (rest : String) : (p.join rest).isAbsolute = true := by
  cases h : (Path.mk rest).isAbsolute with
  | true => rwa [join_of_isAbsolute p h]
  | false => rwa [p.isAbsolute_join h]

end Path

namespace Disk

variable {d : Disk} {cwd p : Path} {dir : Location} {ps rs : List String} {s t : Spot} {follow b : Bool}
  {n m : Nat}

/-! ## Walks one after the other -/

theorem Walks.mono (h : d.Walks follow n dir ps s) (hnm : n ≤ m) : d.Walks follow m dir ps s := by
  induction h generalizing m with
  | here => exact .here _ _
  | idle hp _ ih => exact .idle hp (ih hnm)
  | up _ ih => exact .up (ih hnm)
  | down hp hg _ ih => exact .down hp hg (ih hnm)
  | missing hp hg hps => exact .missing hp hg hps
  | file hp hg hps => exact .file hp hg hps
  | stop hp hg hps => exact .stop hp hg hps
  | link hp hg hps _ ih =>
    cases m with
    | zero => exact absurd hnm (Nat.not_succ_le_zero _)
    | succ m => exact .link hp hg hps (ih (Nat.le_of_succ_le_succ hnm))

/-- A walk from where a walk to a directory ends goes on after it; the links of both count. -/
theorem Walks.append (h : d.Walks true n dir ps s) (hs : s.entry = some .directory)
    (h' : d.Walks true m s.location rs t) : d.Walks true (n + m) dir (ps ++ rs) t := by
  induction h with
  | here n dir => exact h'.mono (Nat.le_add_left m n)
  | idle hp _ ih => exact .idle hp (ih hs h')
  | up _ ih => exact .up (ih hs h')
  | down hp hg _ ih => exact .down hp hg (ih hs h')
  | missing => cases hs
  | file => cases hs
  | stop => cases hs
  | @link n dir p ps s target hp hg _ _ ih =>
    rw [Nat.add_right_comm]
    refine .link hp hg (by simp) ?_
    have hlink := ih hs h'
    rwa [List.append_assoc] at hlink

/-- With another number of links a walk ends at the same place, or has too many of them. -/
theorem Walks.walk_cases (h : d.Walks follow n dir ps s) (m : Nat) :
    walk d follow m dir ps = .ok s ∨ walk d follow m dir ps = .error .tooManyLinks := by
  induction h generalizing m with
  | here => exact .inl walk_nil
  | idle hp _ ih => rw [walk_idle hp]; exact ih m
  | up _ ih => rw [walk_up]; exact ih m
  | down hp hg _ ih => rw [walk_directory hp hg]; exact ih m
  | missing hp hg hps => exact .inl (Walks.missing hp hg hps).walk_eq
  | file hp hg hps => exact .inl (Walks.file hp hg hps).walk_eq
  | stop hp hg hps => exact .inl (Walks.stop hp hg hps).walk_eq
  | link hp hg hps _ ih =>
    cases m with
    | zero => exact .inr ((walkWith_link hp hg).trans (if_neg (Bool.eq_false_iff.1 hps)))
    | succ m =>
      rw [walk, walkWith_link hp hg, if_neg (Bool.eq_false_iff.1 hps)]
      exact ih m

theorem Opens.join (h : d.Opens cwd) (h' : d.Opens p) (hrel : p.isAbsolute = false)
    (hshort : (cwd.join p.text).text.utf8ByteSize ≤ maxPath) : d.Opens (cwd.join p.text) := by
  obtain ⟨sep, hsep, htext⟩ := cwd.exists_text_join hrel
  have hnul := h.noNul
  have hnul' := h'.noNul
  rw [List.contains_eq_mem, decide_eq_false_iff_not] at hnul hnul'
  refine ⟨?_, ?_, Nat.not_lt.2 hshort, ?_⟩
  · simp [htext, hnul, hnul', hsep]
  · have hempty := h.notEmpty
    simp only [htext, String.isEmpty_eq_false_iff, ne_eq, String.append_eq_empty_iff] at hempty ⊢
    tauto
  · rw [d.origin_join cwd hrel]
    exact h.origin

/-- A relative path leads to the same place from the path of the working directory, unless this path gets too
long or leads through too many links. -/
theorem find_join_cases (hcwd : d.find true cwd = .ok ⟨d.workDir, some .directory, b⟩)
    (hrel : p.isAbsolute = false) (hp : d.find true p = .ok s)
    (hshort : (cwd.join p.text).text.utf8ByteSize ≤ maxPath) :
    d.find true (cwd.join p.text) = .ok s ∨ d.find true (cwd.join p.text) = .error .tooManyLinks := by
  obtain ⟨hopens, hw⟩ := find_eq_ok_iff.1 hcwd
  obtain ⟨hopens', hw'⟩ := find_eq_ok_iff.1 hp
  have hjoined := hopens.join hopens' hrel hshort
  obtain ⟨ps, hps, hjoin⟩ := cwd.cut_join hrel
  -- Joining drops a slash at the end of the first path, which does not change where it leads.
  have hfront : d.Walks true maxLinks (d.origin cwd) ps ⟨d.workDir, some .directory, b⟩ :=
    hw.of_names rfl (Path.names_front hps).symm
  rw [origin, hrel, if_neg Bool.false_ne_true] at hw'
  rw [hjoined.find, d.origin_join cwd hrel, hjoin]
  exact (hfront.append rfl hw').walk_cases maxLinks

/-- The working directory does not matter to absolute paths. -/
theorem find_within (loc : Location) (h : p.isAbsolute = true) :
    (d.within loc).find follow p = d.find follow p := by
  have hstep : ∀ onLink, walkWith (d.within loc) follow onLink = walkWith d follow onLink := by
    intro onLink
    funext dir ps
    induction ps generalizing dir with
    | nil => rfl
    | cons p ps ih => simp only [walkWith, get?_within, ih]
  have hwalk : ∀ n, walk (d.within loc) follow n = walk d follow n := by
    intro n
    induction n with
    | zero => exact hstep _
    | succ n ih => rw [walk, walk, ih, hstep]
  rw [find, find, hwalk, if_pos h, if_pos h]

/-- A directory is found by its absolute path. -/
theorem find_ofLocation {loc : Location} (hdir : d.get? loc = some .directory) (hne : loc ≠ [])
    (hshort : (Path.ofLocation loc).text.utf8ByteSize ≤ maxPath)
    (hsizes : ∀ name ∈ loc, name.utf8ByteSize ≤ maxName) (hnul : ∀ name ∈ loc, '\x00' ∉ name.toList) :
    d.find true (.ofLocation loc) = .ok ⟨loc, some .directory, false⟩ := by
  have hopens : d.Opens (.ofLocation loc) := opens_ofLocation_iff.2 ⟨hshort, hnul⟩
  have hend : d.Walks true maxLinks ([] ++ loc) [] ⟨loc, some .directory, false⟩ := hdir ▸ Walks.here maxLinks loc
  have hdown := (walks_down_iff hdir).2 ⟨hsizes, hend⟩
  rw [List.append_nil] at hdown
  rw [hopens.find, origin_ofLocation, Path.cut_ofLocation hne fun n hn => (isName_of_get? hdir hn).2.2.2,
    walk_idle rfl]
  exact hdown.walk_eq

end Disk

namespace Config

open LocaleForge.Path (names)

variable {d : Disk} {cwd cwd' file p base : Path} {dir : Location} {c : Config} {b : Bool}

/-! ## The root for a given file -/

theorem isAbsolute_rootFor (hcwd : cwd.isAbsolute = true) (file : Path) : (rootFor cwd file).isAbsolute = true := by
  rw [rootFor]
  split
  · split
    · exact hcwd
    · exact Path.isAbsolute_join_of_left hcwd _
  · exact hcwd

/-- The root for a file is the path above it, as an absolute path. -/
theorem rootFor_of_isAbsolute {parent : Path} (hfile : file.isAbsolute = true) (hparent : file.parent? = some parent) :
    rootFor cwd file = parent := by
  have habs : parent.isAbsolute = true := (Path.names_parent hparent).1.trans hfile
  have hne : ¬ parent.text.isEmpty = true := by
    intro hempty
    rw [Path.isAbsolute, String.isEmpty_iff.1 hempty] at habs
    cases habs
  simp only [rootFor, hparent]
  rw [if_neg hne, Path.join_of_isAbsolute cwd habs]

theorem names_rootFor_of_relative (hfile : file.isAbsolute = false)
    (hnames : names (Text.cut '/' file.text) ≠ []) : names (Text.cut '/' (rootFor cwd file).text) =
      names (Text.cut '/' cwd.text) ++ (names (Text.cut '/' file.text)).dropLast := by
  obtain ⟨parent, hparent⟩ := Path.exists_parent hnames
  obtain ⟨habs, hup⟩ := Path.names_parent hparent
  simp only [rootFor, hparent]
  split
  case isTrue hempty =>
    have hnone : names (Text.cut '/' parent.text) = [] := by
      rw [String.isEmpty_iff.1 hempty]
      rfl
    rw [← hup, hnone, List.append_nil]
  case isFalse => rw [cwd.names_join (habs.trans hfile), hup]

theorem load_eq_ok_iff : load d file = .ok c ↔ ∃ text, d.readText file = .ok text ∧ parse text = .ok c := by
  rw [load]
  cases d.readText file with
  | error => simp [Except.mapError, bind, Except.bind]
  | ok text => cases hparse : parse text <;> simp [hparse, Except.mapError, bind, Except.bind]

theorem find_of_load (h : load d file = .ok c) :
    ∃ loc content x b, d.find true file = .ok ⟨loc, some (.file content x), b⟩ := by
  obtain ⟨text, htext, -⟩ := load_eq_ok_iff.1 h
  obtain ⟨loc, content, x, b, hf, -⟩ := Disk.readText_eq_ok_iff.1 htext
  exact ⟨loc, content, x, b, hf⟩

/-- A path to a file names something. -/
theorem names_ne_nil_of_load (h : load d file = .ok c) : names (Text.cut '/' file.text) ≠ [] := by
  intro hnone
  obtain ⟨loc, content, x, b, hf⟩ := find_of_load h
  obtain ⟨hopens, hw⟩ := Disk.find_eq_ok_iff.1 hf
  -- A path that names nothing leads to the directory that it begins in.
  have hstay : d.Walks true Disk.maxLinks (d.origin file) (Text.cut '/' file.text)
      ⟨d.origin file, d.get? (d.origin file), false⟩ :=
    (Disk.Walks.here _ _).of_names hopens.origin hnone
  have hsame := hw.walk_eq.symm.trans hstay.walk_eq
  rw [hopens.origin] at hsame
  cases hsame

/-- Paths that lead to the same place give the same configuration. -/
theorem load_of_find (hf : d.find true file = d.find true p) (h : load d p = .ok c) : load d file = .ok c := by
  have hread : d.readText file = d.readText p := by
    rw [Disk.readText, Disk.readText, Disk.readBytes, Disk.readBytes, hf]
  rw [load_eq_ok_iff] at h ⊢
  rwa [hread]

/-- The steps of the root for a relative path to a file are those of the root for the joined path. -/
theorem components_rootFor_join (hcwd : cwd.isAbsolute = true) (hp : p.isAbsolute = false)
    (hnames : names (Text.cut '/' p.text) ≠ []) :
    (rootFor cwd' (cwd.join p.text)).components = (rootFor cwd p).components := by
  have habs : (cwd.join p.text).isAbsolute = true := Path.isAbsolute_join_of_left hcwd _
  have hjoin := cwd.names_join hp
  obtain ⟨parent, hparent⟩ := Path.exists_parent (p := cwd.join p.text) (by simp [hjoin, hnames])
  obtain ⟨hup, hnames'⟩ := Path.names_parent hparent
  rw [rootFor_of_isAbsolute habs hparent]
  refine Path.components_eq_of_names (hup.trans habs) (isAbsolute_rootFor hcwd p) ?_
  rw [hnames', hjoin, List.dropLast_append_of_ne_nil hnames, names_rootFor_of_relative hp hnames]

theorem resolve_some : resolve d (some file) cwd = (load d file).map (rootFor cwd file, ·) := by
  simp only [resolve, bind, Except.bind, Except.map]
  cases load d file <;> rfl

theorem resolve_some_eq_ok_iff :
    resolve d (some file) cwd = .ok (base, c) ↔ rootFor cwd file = base ∧ load d file = .ok c := by
  rw [resolve_some]
  cases load d file <;> simp [Except.map]

theorem resolve_found_eq_ok_iff (h : discover d cwd = .ok (some dir)) :
    resolve d none cwd = .ok (base, c) ↔ Path.ofLocation dir = base ∧ load d (fileIn dir) = .ok c := by
  rw [resolve_of_discover h]
  cases load d (fileIn dir) <;> simp [Except.map]

theorem isAbsolute_of_resolve (hcwd : cwd.isAbsolute = true) {explicit : Option Path}
    (h : resolve d explicit cwd = .ok (base, c)) : base.isAbsolute = true := by
  cases explicit with
  | some file => exact (resolve_some_eq_ok_iff.1 h).1 ▸ isAbsolute_rootFor hcwd file
  | none =>
    cases hfound : discover d cwd with
    | error => simp [resolve, hfound, bind, Except.bind] at h
    | ok found =>
      cases found with
      | none =>
        simp only [resolve, hfound, bind, Except.bind] at h
        cases h
        exact hcwd
      | some dir => exact ((resolve_found_eq_ok_iff hfound).1 h).1 ▸ Path.isAbsolute_ofLocation dir

theorem load_within (loc : Location) (h : file.isAbsolute = true) : load (d.within loc) file = load d file := by
  simp only [load, Disk.readText, Disk.readBytes, Disk.find_within loc h]

/-! ## A file that is found -/

theorem parent?_fileIn (h : ∀ n ∈ dir, IsName n) : (fileIn dir).parent? = some (Path.ofLocation dir) := by
  cases dir using List.reverseRecOn with
  | nil => decide
  | append_singleton front last =>
    have hlast := Path.simple_of_isName (h last (by simp))
    exact Path.parent?_join (Path.pieces_ofLocation (by simp) h) hlast.notIdle simple_fileName

theorem resolve_found (h : discover d cwd = .ok (some dir)) (loc : Location) (cwd' : Path) :
    resolve (d.within loc) (some (fileIn dir)) cwd' = resolve d none cwd := by
  have hnames : ∀ n ∈ dir, IsName n := by
    obtain ⟨l, e, hl, habove⟩ := exists_of_discover h
    exact fun n hn => Disk.isName_of_get? hl (habove.subset hn)
  have habs : (fileIn dir).isAbsolute = true := Path.isAbsolute_join_of_left (Path.isAbsolute_ofLocation dir) _
  rw [resolve_some, load_within loc habs, rootFor_of_isAbsolute habs (parent?_fileIn hnames),
    resolve_of_discover h]

/-! ## A file that is given by a relative path -/

theorem resolve_join (hcwd : cwd.isAbsolute = true) (hp : p.isAbsolute = false)
    (hdir : d.find true cwd = .ok ⟨d.workDir, some .directory, b⟩)
    (h : resolve d (some p) cwd = .ok (base, c))
    (hshort : (cwd.join p.text).text.utf8ByteSize ≤ Disk.maxPath)
    (hlinks : d.find true (cwd.join p.text) ≠ .error .tooManyLinks) (loc : Location) (cwd' : Path) :
    ∃ base', resolve (d.within loc) (some (cwd.join p.text)) cwd' = .ok (base', c) ∧
      base'.components = base.components := by
  obtain ⟨rfl, hload⟩ := resolve_some_eq_ok_iff.1 h
  obtain ⟨l, content, x, slashed, hf⟩ := find_of_load hload
  have hjoin := (Disk.find_join_cases hdir hp hf hshort).resolve_right hlinks
  have habs : (cwd.join p.text).isAbsolute = true := Path.isAbsolute_join_of_left hcwd _
  have hload' : load (d.within loc) (cwd.join p.text) = .ok c := by
    rw [load_within loc habs]
    exact load_of_find (hjoin.trans hf.symm) hload
  exact ⟨_, resolve_some_eq_ok_iff.2 ⟨rfl, hload'⟩,
    components_rootFor_join hcwd hp (names_ne_nil_of_load hload)⟩

/-- However a configuration file is named, it gives the same project, the root of which is an absolute path:
whether it is found from `cwd`, or given by its absolute path, or by one that is relative to `cwd`. -/
theorem resolve_agrees (d : Disk) (cwd : Path) (hcwd : cwd.isAbsolute = true) :
    (∀ explicit base c, resolve d explicit cwd = .ok (base, c) → base.isAbsolute = true) ∧
    (∀ dir, discover d cwd = .ok (some dir) → ∀ loc cwd',
      resolve (d.within loc) (some (fileIn dir)) cwd' = resolve d none cwd) ∧
    ∀ b p base c, d.find true cwd = .ok ⟨d.workDir, some .directory, b⟩ → p.isAbsolute = false →
      resolve d (some p) cwd = .ok (base, c) → (cwd.join p.text).text.utf8ByteSize ≤ Disk.maxPath →
      d.find true (cwd.join p.text) ≠ .error .tooManyLinks → ∀ loc cwd',
        ∃ base', resolve (d.within loc) (some (cwd.join p.text)) cwd' = .ok (base', c) ∧
          base'.components = base.components :=
  ⟨fun _ _ _ h => isAbsolute_of_resolve hcwd h, fun _ h loc cwd' => resolve_found h loc cwd',
    fun _ _ _ _ hdir hp h hshort hlinks loc cwd' => resolve_join hcwd hp hdir h hshort hlinks loc cwd'⟩

theorem resolve_agrees_small : ∃ base c,
    resolve (Disk.project.within ["p"]) (some ⟨"../transpile.toml"⟩) ⟨"/p"⟩ = .ok (base, c) ∧
      base.isAbsolute = true ∧
      (∃ base', resolve (Disk.project.within []) (some ⟨"/p/../transpile.toml"⟩) ⟨"/"⟩ = .ok (base', c) ∧
        base'.components = base.components) ∧
      resolve (Disk.project.within []) (some ⟨"/transpile.toml"⟩) ⟨"/"⟩ =
        resolve (Disk.project.within ["p"]) none ⟨"/p"⟩ := by
  obtain ⟨habsolute, hfound, hjoined⟩ := resolve_agrees (Disk.project.within ["p"]) ⟨"/p"⟩ (by decide)
  have hstarts : Starts (Disk.project.within ["p"]) ⟨"/p"⟩ ["p"] :=
    starts_of_canonical (Build.eq_ok_of_toOption (by decide +kernel)) (by decide +kernel)
  obtain ⟨b, hdir⟩ := hstarts.1.find (by decide)
  have hsome : (resolve (Disk.project.within ["p"]) (some ⟨"../transpile.toml"⟩) ⟨"/p"⟩).toOption.isSome = true := by
    decide +kernel
  obtain ⟨⟨base, c⟩, hresolve⟩ := Option.isSome_iff_exists.1 hsome
  have hresolve := Build.eq_ok_of_toOption hresolve
  have hdiscover : discover (Disk.project.within ["p"]) ⟨"/p"⟩ = .ok (some []) :=
    Build.eq_ok_of_toOption (by decide +kernel)
  have hexists : (Disk.project.within ["p"]).exists? ⟨"/p/../transpile.toml"⟩ = true := by decide +kernel
  have hlinks : (Disk.project.within ["p"]).find true ⟨"/p/../transpile.toml"⟩ ≠ .error .tooManyLinks := by
    obtain ⟨loc, e, slashed, hf⟩ := Disk.exists?_eq_true_iff.1 hexists
    rw [hf]
    nofun
  exact ⟨base, c, hresolve, habsolute _ _ _ hresolve,
    hjoined b ⟨"../transpile.toml"⟩ base c hdir (by decide) hresolve (by decide) hlinks [] ⟨"/"⟩,
    hfound [] hdiscover [] ⟨"/"⟩⟩

end Config

/-! ## Long ways -/

/-- A project in the root directory, with a link to this directory. -/
def Disk.looped : Disk :=
  project.set ["l"] (.link ".")

namespace Config

open Disk (depth deep looped)

/-- The path of the root directory, going round by a link to it. -/
def round (n : Nat) : Path :=
  .ofLocation (List.replicate n "l")

/-- A relative path to the configuration file in the root directory, going round as well. -/
def fileRound (n : Nat) : Path :=
  ⟨Text.join '/' (List.replicate n "l" ++ [fileName])⟩

/-- From the working directory a relative path gives a configuration that the same path behind an absolute path of
this directory does not give. -/
structure Disagrees (d : Disk) (cwd p : Path) : Prop where
  absolute : cwd.isAbsolute = true
  relative : p.isAbsolute = false
  leads : ∃ b, d.find true cwd = .ok ⟨d.workDir, some .directory, b⟩
  resolves : ∃ r, resolve d (some p) cwd = .ok r
  fails : ∀ cwd' r, resolve d (some (cwd.join p.text)) cwd' ≠ .ok r

/-- Two ways that lead through few enough links may lead through too many together. -/
theorem disagrees_of_links : Disagrees looped (round 21) (fileRound 21) := by
  have hsome : (resolve looped (some (fileRound 21)) (round 21)).toOption.isSome = true := by decide +kernel
  have hnone : (looped.find true ((round 21).join (fileRound 21).text)).toOption.isSome = false := by
    decide +kernel
  have hstarts : Starts looped (round 21) looped.workDir :=
    starts_of_canonical (Build.eq_ok_of_toOption (by decide +kernel)) (by decide +kernel)
  obtain ⟨r, hr⟩ := Option.isSome_iff_exists.1 hsome
  refine ⟨by decide, by decide, hstarts.1.find (by decide +kernel), ⟨r, Build.eq_ok_of_toOption hr⟩, fun cwd r h => ?_⟩
  obtain ⟨loc, content, x, b, hf⟩ := find_of_load (resolve_some_eq_ok_iff.1 h).2
  rw [hf] at hnone
  cases hnone

/-- Two paths that are short enough may be too long together. -/
theorem disagrees_of_length : Disagrees deep (.ofLocation deep.workDir) ⟨fileName⟩ := by
  have hwork : deep.workDir = depth 273 := rfl
  have hdir : deep.get? deep.workDir = some .directory := directory_deep (Disk.depth_front 273)
  have hfind : deep.find true (.ofLocation deep.workDir) = .ok ⟨deep.workDir, some .directory, false⟩ := by
    rw [hwork] at hdir ⊢
    refine Disk.find_ofLocation hdir (Disk.depth_ne_nil 272) ?_ ?_ ?_
    · rw [Disk.size_depth 272]
      decide
    · exact fun name hname => List.eq_of_mem_replicate hname ▸ by decide
    · exact fun name hname => List.eq_of_mem_replicate hname ▸ by decide
  have hfile : deep.find true ⟨fileName⟩ = .ok ⟨deep.workDir ++ [fileName], some (.file .empty false), false⟩ := by
    have hopens : deep.Opens ⟨fileName⟩ := ⟨by decide, by decide, by decide, hdir⟩
    have hget : deep.get? (deep.workDir ++ [fileName]) = some (.file .empty false) := by
      rw [Disk.get?_deep, hwork, if_pos rfl]
    refine Disk.find_eq_ok_iff.2 ⟨hopens, ?_⟩
    rw [simple_fileName.cut]
    exact .file ⟨by decide, by decide, by decide⟩ hget rfl
  have hparse : (parse "").toOption.isSome = true := by decide +kernel
  obtain ⟨c, hc⟩ := Option.isSome_iff_exists.1 hparse
  have hload : load deep ⟨fileName⟩ = .ok c :=
    load_eq_ok_iff.2 ⟨"", Disk.readText_eq_ok_iff.2 ⟨_, _, _, _, hfile, by decide⟩, Build.eq_ok_of_toOption hc⟩
  refine ⟨Path.isAbsolute_ofLocation _, by decide, ⟨false, hfind⟩, ⟨_, resolve_some_eq_ok_iff.2 ⟨rfl, hload⟩⟩, ?_⟩
  intro cwd r h
  obtain ⟨loc, content, x, b, hf⟩ := find_of_load (resolve_some_eq_ok_iff.1 h).2
  exact (Disk.opens_of_find hf).short long_fileIn_depth

/-- Behind the path of its directory a path may lead through too many links, or be too long. -/
theorem resolve_disagrees : Disagrees looped (round 21) (fileRound 21) ∧
    Disagrees deep (.ofLocation deep.workDir) ⟨fileName⟩ :=
  ⟨disagrees_of_links, disagrees_of_length⟩

end Config

end LocaleForge
