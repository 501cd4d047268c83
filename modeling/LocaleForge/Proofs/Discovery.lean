import LocaleForge.Proofs.Canonical

/-!
Finding the configuration of a project: of the directories on the way up from the place that a path leads to,
the nearest one that holds a configuration file is found, if a path to this file can be looked up.
-/

namespace LocaleForge

namespace Disk

variable {d : Disk} {dir : Location} {name : String} {s : Spot} {n : Nat} {content : ByteArray} {x : Bool}

/-- A walk to a file of a directory ends there, or goes on along a link. -/
theorem Walks.of_single (hp : Path.Proper name) (hw : d.Walks true (n + 1) dir [name] s)
    (hs : s.entry = some (.file content x)) : d.get? (dir ++ [name]) = some (.file content x) ∨
      ∃ target, d.get? (dir ++ [name]) = some (.link target) ∧
        d.Walks true n (if (Path.mk target).isAbsolute then [] else dir) (Text.cut '/' target) s := by
  cases hw with
  | idle hidle => exact absurd hidle (Bool.eq_false_iff.1 hp.notIdle)
  | up => exact absurd rfl hp.notUp
  | down _ hg h =>
    have hend := h.walk_eq
    rw [walk_nil, hg] at hend
    cases hend
    cases hs
  | missing => cases hs
  | file _ hg =>
    cases hs
    exact .inl hg
  | stop => cases hs
  | link _ hg _ h =>
    rw [List.append_nil] at h
    exact .inr ⟨_, hg, h⟩

end Disk

namespace Config

variable {d : Disk} {loc dir dir' : Location} {start : Path} {name : String} {e : Entry} {b : Bool}

theorem simple_fileName : Path.Simple fileName :=
  ⟨by decide, by decide, by decide⟩

theorem isName_fileName : IsName fileName := by
  decide

theorem fileIn_eq (h : ∀ n ∈ dir, IsName n) : fileIn dir = Path.ofLocation (dir ++ [fileName]) :=
  Path.ofLocation_join h simple_fileName

/-! ## The file in a directory -/

/-- A directory holds a configuration file: a regular file of its name, or a link of its name that leads to a
regular file. -/
def Holds (d : Disk) (dir : Location) : Prop :=
  (∃ content x, d.get? (dir ++ [fileName]) = some (.file content x)) ∨
    ∃ target, d.get? (dir ++ [fileName]) = some (.link target) ∧ ∃ loc content x b,
      d.Walks true (Disk.maxLinks - 1) (if (Path.mk target).isAbsolute then [] else dir)
        (Text.cut '/' target) ⟨loc, some (.file content x), b⟩

/-- The path to the configuration file in a directory can be looked up. -/
structure InReach (dir : Location) : Prop where
  short : (fileIn dir).text.utf8ByteSize ≤ Disk.maxPath
  names : ∀ name ∈ dir, name.utf8ByteSize ≤ Disk.maxName
  noNul : ∀ name ∈ dir, '\x00' ∉ name.toList

/-- A directory offers its configuration file: it holds one, and the path to it can be looked up. -/
def Offers (d : Disk) (dir : Location) : Prop :=
  InReach dir ∧ Holds d dir

theorem opens_fileIn_iff (h : ∀ n ∈ dir, IsName n) : d.Opens (fileIn dir) ↔
    (fileIn dir).text.utf8ByteSize ≤ Disk.maxPath ∧ ∀ name ∈ dir, '\x00' ∉ name.toList := by
  have hfile : '\x00' ∉ fileName.toList := by decide
  rw [fileIn_eq h, Disk.opens_ofLocation_iff]
  simp [or_imp, forall_and, hfile]

/-- A walk to a file goes on from a directory to the configuration file itself, or along a link. -/
theorem walks_fileName_iff : (∃ loc content x b, d.Walks true Disk.maxLinks dir [fileName]
    ⟨loc, some (.file content x), b⟩) ↔ Holds d dir := by
  have hproper : Path.Proper fileName := ⟨by decide, by decide, by decide⟩
  constructor
  · rintro ⟨loc, content, x, b, hw⟩
    have hlinks : Disk.maxLinks = Disk.maxLinks - 1 + 1 := rfl
    rw [hlinks] at hw
    rcases hw.of_single hproper rfl with hg | ⟨target, hg, hw⟩
    · exact .inl ⟨content, x, hg⟩
    · exact .inr ⟨target, hg, loc, content, x, b, hw⟩
  · rintro (⟨content, x, hg⟩ | ⟨target, hg, loc, content, x, b, hw⟩)
    · exact ⟨_, content, x, false, .file hproper hg rfl⟩
    · refine ⟨loc, content, x, b, .link hproper hg rfl ?_⟩
      rwa [List.append_nil]

theorem isFile_fileIn_iff (hdir : d.get? dir = some .directory) :
    d.isFile (fileIn dir) = true ↔ Offers d dir := by
  have hnames : ∀ n ∈ dir, IsName n := fun n hn => Disk.isName_of_get? hdir hn
  have hall : ∀ n ∈ dir ++ [fileName], IsName n := by
    simpa [or_imp, forall_and, isName_fileName] using hnames
  have hcut : Text.cut '/' (fileIn dir).text = "" :: (dir ++ [fileName]) := by
    rw [fileIn_eq hnames, Path.cut_ofLocation (by simp) fun n hn => (hall n hn).2.2.2]
  have horigin : d.origin (fileIn dir) = [] := by
    rw [fileIn_eq hnames, Disk.origin_ofLocation]
  -- From the root the walk goes down to the directory, where no link is on the way.
  have hwalk : ∀ s, d.Walks true Disk.maxLinks (d.origin (fileIn dir)) (Text.cut '/' (fileIn dir).text) s ↔
      (∀ name ∈ dir, name.utf8ByteSize ≤ Disk.maxName) ∧ d.Walks true Disk.maxLinks dir [fileName] s := by
    intro s
    rw [hcut, horigin, ← Disk.walk_eq_ok_iff, Disk.walk_idle rfl, Disk.walk_eq_ok_iff,
      Disk.walks_down_iff (by simpa using hdir), List.nil_append]
  rw [Disk.isFile_iff, Offers, ← walks_fileName_iff]
  constructor
  · rintro ⟨loc, content, x, b, hf⟩
    obtain ⟨hopens, hw⟩ := Disk.find_eq_ok_iff.1 hf
    obtain ⟨hshort, hnul⟩ := (opens_fileIn_iff hnames).1 hopens
    obtain ⟨hsizes, hw⟩ := (hwalk _).1 hw
    exact ⟨⟨hshort, hsizes, hnul⟩, loc, content, x, b, hw⟩
  · rintro ⟨hreach, loc, content, x, b, hw⟩
    refine ⟨loc, content, x, b, Disk.find_eq_ok_iff.2 ⟨?_, (hwalk _).2 ⟨hreach.names, hw⟩⟩⟩
    exact (opens_fileIn_iff hnames).2 ⟨hreach.short, hreach.noNul⟩

/-! ## The way up -/

theorem nearest?_nil : nearest? d [] = if d.isFile (fileIn []) then some [] else none := by
  rw [nearest?, List.reverse_nil, nearestUp]

theorem nearest?_concat : nearest? d (loc ++ [name]) =
    if d.isFile (fileIn (loc ++ [name])) then some (loc ++ [name]) else nearest? d loc := by
  rw [nearest?, List.reverse_concat, nearestUp, List.reverse_cons, List.reverse_reverse]
  rfl

/-- Each directory on the way up is looked at, the nearest one first. -/
theorem nearest?_eq_some_iff : nearest? d loc = some dir ↔ dir <+: loc ∧ d.isFile (fileIn dir) = true ∧
    ∀ dir', dir' <+: loc → d.isFile (fileIn dir') = true → dir' <+: dir := by
  -- The way up from a directory is that from the directory above, with the directory itself put before.
  induction loc using List.reverseRecOn with
  | nil =>
    rw [nearest?_nil]
    split
    case isTrue hfile =>
      rw [Option.some.injEq]
      constructor
      · rintro rfl
        exact ⟨List.prefix_rfl, hfile, fun dir' h _ => h⟩
      · rintro ⟨hfront, -, -⟩
        exact (List.prefix_nil.1 hfront).symm
    case isFalse hfile =>
      refine iff_of_false nofun ?_
      rintro ⟨hfront, hdir, -⟩
      exact hfile (List.prefix_nil.1 hfront ▸ hdir)
  | append_singleton loc name ih =>
    rw [nearest?_concat]
    split
    case isTrue hfile =>
      rw [Option.some.injEq]
      constructor
      · rintro rfl
        exact ⟨List.prefix_rfl, hfile, fun dir' h _ => h⟩
      · rintro ⟨hfront, -, hmax⟩
        exact (hmax _ List.prefix_rfl hfile).eq_of_length_le hfront.length_le
    case isFalse hfile =>
      rw [ih]
      simp only [List.prefix_concat_iff]
      constructor
      · rintro ⟨hfront, hdir, hmax⟩
        refine ⟨.inr hfront, hdir, fun dir' h h' => ?_⟩
        rcases h with rfl | h
        · exact absurd h' hfile
        · exact hmax dir' h h'
      · rintro ⟨hfront, hdir, hmax⟩
        refine ⟨hfront.resolve_left ?_, hdir, fun dir' h => hmax dir' (.inr h)⟩
        rintro rfl
        exact hfile hdir

theorem nearest?_eq_none_iff : nearest? d loc = none ↔ ∀ dir, dir <+: loc → d.isFile (fileIn dir) = false := by
  induction loc using List.reverseRecOn with
  | nil =>
    rw [nearest?_nil]
    simp only [List.prefix_nil, forall_eq]
    split
    case isTrue hfile => simp [hfile]
    case isFalse hfile => simpa using hfile
  | append_singleton loc name ih =>
    rw [nearest?_concat]
    split
    case isTrue hfile =>
      refine iff_of_false nofun fun h => ?_
      rw [h _ List.prefix_rfl] at hfile
      cases hfile
    case isFalse hfile =>
      rw [ih]
      simp only [List.prefix_concat_iff]
      constructor
      · rintro h dir (rfl | hfront)
        · exact Bool.eq_false_iff.2 hfile
        · exact h dir hfront
      · exact fun h dir hfront => h dir (.inr hfront)

/-- The nearest directory at or above a location that offers its configuration file. -/
structure Nearest (d : Disk) (loc dir : Location) : Prop where
  above : dir <+: loc
  offers : Offers d dir
  nearest : ∀ dir', dir' <+: loc → Offers d dir' → dir' <+: dir

theorem nearest_iff (hdir : d.get? loc = some .directory) : nearest? d loc = some dir ↔ Nearest d loc dir := by
  have hfile : ∀ dir', dir' <+: loc → (d.isFile (fileIn dir') = true ↔ Offers d dir') := fun dir' h =>
    isFile_fileIn_iff (Disk.directory_of_prefix hdir h)
  rw [nearest?_eq_some_iff]
  constructor
  · rintro ⟨habove, hdir, hmax⟩
    exact ⟨habove, (hfile _ habove).1 hdir, fun dir' h h' => hmax dir' h ((hfile _ h).2 h')⟩
  · rintro ⟨habove, hoffers, hmax⟩
    exact ⟨habove, (hfile _ habove).2 hoffers, fun dir' h h' => hmax dir' h ((hfile _ h).1 h')⟩

theorem none_nearest_iff (hdir : d.get? loc = some .directory) :
    nearest? d loc = none ↔ ∀ dir, dir <+: loc → ¬ Offers d dir := by
  rw [nearest?_eq_none_iff]
  refine forall_congr' fun dir => imp_congr_right fun h => ?_
  rw [← isFile_fileIn_iff (Disk.directory_of_prefix hdir h), Bool.not_eq_true]

/-- Of two nearest directories each lies at or above the other. -/
theorem Nearest.unique (h : Nearest d loc dir) (h' : Nearest d loc dir') : dir = dir' :=
  (h'.nearest dir h.above h.offers).eq_of_length_le (h.nearest dir' h'.above h'.offers).length_le

/-! ## Whole discoveries -/

theorem discover_eq (h : d.canonical start = .ok loc) : discover d start = .ok (nearest? d loc) := by
  rw [discover, h]
  rfl

theorem discover_failed {fault : Disk.Fault} (h : d.canonical start = .error fault) :
    discover d start = .error (.ofDisk (.canonicalizing start) fault) := by
  rw [discover, h]
  rfl

theorem discover_missing (h : ∀ loc e, ¬ d.Leads start loc e) :
    ∃ fault, discover d start = .error (.ofDisk (.canonicalizing start) fault) := by
  cases hcanonical : d.canonical start with
  | error fault => exact ⟨fault, discover_failed hcanonical⟩
  | ok loc =>
    obtain ⟨e, hleads⟩ := Disk.leads_of_canonical hcanonical
    exact absurd hleads (h loc e)

/-- The directory that is found lies on the way up. -/
theorem exists_of_discover (h : discover d start = .ok (some dir)) :
    ∃ loc e, d.get? loc = some e ∧ dir <+: loc := by
  cases hcanonical : d.canonical start with
  | error fault =>
    rw [discover_failed hcanonical] at h
    cases h
  | ok loc =>
    obtain ⟨e, hleads⟩ := Disk.leads_of_canonical hcanonical
    rw [discover_eq hcanonical] at h
    exact ⟨loc, e, hleads.get?, (nearest?_eq_some_iff.1 (Except.ok.inj h)).1⟩

/-- A path leads to a directory, and the absolute paths on the way are short enough to be looked up. -/
def Starts (d : Disk) (start : Path) (loc : Location) : Prop :=
  d.Leads start loc .directory ∧ ∀ l ∈ d.passed start, Disk.Shallow l

theorem Starts.canonical_eq (h : Starts d start loc) : d.canonical start = .ok loc := by
  rw [h.1.canonical_eq, if_pos h.2]

theorem starts_of_canonical (h : d.canonical start = .ok loc) (hdir : d.get? loc = some .directory) :
    Starts d start loc := by
  obtain ⟨e, hleads⟩ := Disk.leads_of_canonical h
  obtain rfl := Option.some.inj (hleads.get?.symm.trans hdir)
  rw [hleads.canonical_eq] at h
  split at h
  case isTrue hshallow => exact ⟨hleads, hshallow⟩
  case isFalse => cases h

theorem resolve_of_discover (h : discover d start = .ok (some dir)) :
    resolve d none start = (load d (fileIn dir)).map (Path.ofLocation dir, ·) := by
  simp only [resolve, h, bind, Except.bind, Except.map]
  cases load d (fileIn dir) <;> rfl

/-- From an existing directory the nearest configuration file at or above it is found, and nothing just if
there is none; from a missing path nothing is found but an error told. The project depends on the file that
is found only. -/
theorem discover_nearest (d : Disk) (start : Path) :
    ((∀ loc e, ¬ d.Leads start loc e) → ∃ fault, discover d start = .error (.ofDisk (.canonicalizing start) fault)) ∧
    (∀ loc, Starts d start loc → ∃ found, discover d start = .ok found ∧
      (∀ dir, found = some dir ↔ Nearest d loc dir) ∧
      (found = none ↔ ∀ dir, dir <+: loc → ¬ Offers d dir)) ∧
    ∀ start' loc loc' dir, Starts d start loc → Starts d start' loc' → Nearest d loc dir →
      Nearest d loc' dir → resolve d none start = (load d (fileIn dir)).map (Path.ofLocation dir, ·) ∧
        resolve d none start' = resolve d none start := by
  have hresolve : ∀ p l dir, Starts d p l → Nearest d l dir →
      resolve d none p = (load d (fileIn dir)).map (Path.ofLocation dir, ·) := by
    intro p l dir hp hnearest
    apply resolve_of_discover
    rw [discover_eq hp.canonical_eq, (nearest_iff hp.1.get?).2 hnearest]
  refine ⟨discover_missing, fun loc h => ?_, fun start' loc loc' dir h h' hn hn' => ?_⟩
  · exact ⟨_, discover_eq h.canonical_eq, fun dir => nearest_iff h.1.get?, none_nearest_iff h.1.get?⟩
  · exact ⟨hresolve _ _ _ h hn, (hresolve _ _ _ h' hn').trans (hresolve _ _ _ h hn).symm⟩

end Config

/-- A project in the root directory, with a directory that has a directory of the name of a configuration
file. -/
def Disk.project : Disk :=
  ((empty.set ["p"] .directory).set ["p", Config.fileName] .directory).set [Config.fileName]
    (.file (Text.encode "[project]\nname = \"moment\"\n") false)

namespace Config

theorem discover_nearest_small : (∀ loc e, ¬ Disk.project.Leads ⟨"/q"⟩ loc e) ∧
    (∃ fault, discover .project ⟨"/q"⟩ = .error (.ofDisk (.canonicalizing ⟨"/q"⟩) fault)) ∧
    discover .project ⟨"/p/transpile.toml"⟩ = .ok (some []) ∧
    resolve .project none ⟨"/p"⟩ = resolve .project none ⟨"/p/transpile.toml"⟩ := by
  obtain ⟨hmissing, -, -⟩ := discover_nearest .project ⟨"/q"⟩
  obtain ⟨-, hfound, hsame⟩ := discover_nearest .project ⟨"/p/transpile.toml"⟩
  have hnone : ∀ loc e, ¬ Disk.project.Leads ⟨"/q"⟩ loc e := by
    intro loc e h
    obtain ⟨b, hf⟩ := h.find (by decide)
    have hexists : Disk.project.exists? ⟨"/q"⟩ = false := by decide +kernel
    rw [Disk.exists?_eq_true_iff.2 ⟨loc, e, b, hf⟩] at hexists
    cases hexists
  have hstart : Starts .project ⟨"/p/transpile.toml"⟩ ["p", fileName] :=
    starts_of_canonical (Build.eq_ok_of_toOption (by decide +kernel)) (by decide +kernel)
  have hstart' : Starts .project ⟨"/p"⟩ ["p"] :=
    starts_of_canonical (Build.eq_ok_of_toOption (by decide +kernel)) (by decide +kernel)
  have hnearest : Nearest .project ["p", fileName] [] := (nearest_iff hstart.1.get?).1 (by decide +kernel)
  have hnearest' : Nearest .project ["p"] [] := (nearest_iff hstart'.1.get?).1 (by decide +kernel)
  obtain ⟨found, hdiscover, hiff, -⟩ := hfound _ hstart
  rw [(hiff []).2 hnearest] at hdiscover
  exact ⟨hnone, hmissing hnone, hdiscover, (hsame _ _ _ _ hstart hstart' hnearest hnearest').2⟩

end Config

/-! ## Deep trees -/

namespace Disk

/-- Directories one in the other; their names are given with the innermost one first. -/
def tower : List String → Disk
  | [] => empty
  | name :: up => (tower up).set (up.reverse ++ [name]) .directory

theorem get?_tower {up : List String} (h : ∀ n ∈ up, IsName n) (l : Location) :
    (tower up).get? l = if l <+: up.reverse then some .directory else none := by
  induction up generalizing l with
  | nil => simp [tower, empty, get?]
  | cons name up ih =>
    obtain ⟨hname, hup⟩ := List.forall_mem_cons.1 h
    have hfits : (tower up).Fits (up.reverse ++ [name]) .directory := by
      refine ⟨⟨name, by simp, hname⟩, ?_, fun _ => rfl⟩
      rw [List.dropLast_concat, ih hup, if_pos List.prefix_rfl]
    rw [tower, get?_set hfits, ih hup, List.reverse_cons]
    simp only [List.prefix_concat_iff]
    split <;> simp_all

/-- The location of directories one in the other, with the slashes fifteen bytes each. -/
def depth (n : Nat) : Location :=
  List.replicate n "directory-name"

/-- Directories one in the other. The one above the innermost is the working directory and holds a
configuration file, to which the absolute path is too long to be looked up. -/
def deep : Disk :=
  ((tower (depth 274)).set (depth 273 ++ [Config.fileName]) (.file .empty false)).within (depth 273)

theorem isName_depth (n : Nat) : ∀ name ∈ depth n, IsName name :=
  fun _ hname => List.eq_of_mem_replicate hname ▸ by decide

theorem depth_concat (n : Nat) : depth (n + 1) = depth n ++ ["directory-name"] :=
  List.replicate_succ'

theorem depth_front (n : Nat) : depth n <+: depth (n + 1) :=
  ⟨_, (depth_concat n).symm⟩

theorem depth_ne_nil (n : Nat) : depth (n + 1) ≠ [] := by
  rw [depth_concat]
  exact List.append_ne_nil_of_right_ne_nil _ (List.cons_ne_nil _ _)

theorem size_depth (n : Nat) : (Path.ofLocation (depth (n + 1))).text.utf8ByteSize = (n + 1) * 15 := by
  induction n with
  | zero => decide
  | succ n ih =>
    have hname : ("/" : String).utf8ByteSize + "directory-name".utf8ByteSize = 15 := by decide
    rw [depth_concat (n + 1), Path.ofLocation_concat (depth_ne_nil n), String.utf8ByteSize_append,
      String.utf8ByteSize_append, ih, Nat.add_assoc, hname, ← Nat.succ_mul]

theorem file_not_in_depth (m n : Nat) : ¬ depth m ++ [Config.fileName] <+: depth n := by
  intro h
  have hmem := h.mem (List.mem_append_right _ (List.mem_singleton_self Config.fileName))
  exact absurd (List.eq_of_mem_replicate hmem) (by decide)

theorem get?_deep (l : Location) : deep.get? l =
    if l = depth 273 ++ [Config.fileName] then some (.file .empty false)
    else if l <+: depth 274 then some .directory else none := by
  have htower := get?_tower (isName_depth 274)
  rw [depth, List.reverse_replicate, ← depth] at htower
  have hfits : (tower (depth 274)).Fits (depth 273 ++ [Config.fileName]) (.file .empty false) := by
    refine ⟨⟨Config.fileName, by simp, Config.isName_fileName⟩, ?_, fun hdir => ?_⟩
    · rw [List.dropLast_concat, htower, if_pos (depth_front 273)]
    · rw [htower, if_neg (file_not_in_depth 273 274)] at hdir
      cases hdir
  rw [deep, get?_within, get?_set hfits, htower]

end Disk

namespace Config

open Disk (depth deep)

theorem dir_of_holds_deep (h : Holds deep dir) : dir = depth 273 := by
  by_cases he : dir ++ [fileName] = depth 273 ++ [fileName]
  · exact (List.append_inj' he rfl).1
  · rcases h with ⟨content, x, hg⟩ | ⟨target, hg, -⟩ <;>
      rw [Disk.get?_deep, if_neg he] at hg <;> split at hg <;> cases hg

theorem directory_deep (h : dir <+: depth 274) : deep.get? dir = some .directory := by
  rw [Disk.get?_deep, if_neg, if_pos h]
  rintro rfl
  exact Disk.file_not_in_depth 273 274 h

theorem long_fileIn_depth : Disk.maxPath < (fileIn (depth 273)).text.utf8ByteSize := by
  rw [fileIn_eq (Disk.isName_depth 273), Path.ofLocation_concat (Disk.depth_ne_nil 272),
    String.utf8ByteSize_append, String.utf8ByteSize_append, Disk.size_depth 272]
  decide

/-- Where the path of the directory is too long to be looked up, nothing is found but an error told; where only
the path of the configuration file is, this file is passed over. -/
theorem discover_misses_deep :
    deep.find true ⟨"directory-name"⟩ = .ok ⟨deep.workDir ++ ["directory-name"], some .directory, false⟩ ∧
    discover deep ⟨"directory-name"⟩ = .error (.ofDisk (.canonicalizing ⟨"directory-name"⟩) .nameTooLong) ∧
    deep.find true ⟨"."⟩ = .ok ⟨deep.workDir, some .directory, false⟩ ∧
    deep.get? (deep.workDir ++ [fileName]) = some (.file .empty false) ∧
    discover deep ⟨"."⟩ = .ok none := by
  have hwork : deep.workDir = depth 273 := rfl
  have hdir : deep.get? deep.workDir = some .directory := directory_deep (Disk.depth_front 273)
  have hget : deep.get? (deep.workDir ++ ["directory-name"]) = some .directory := by
    rw [hwork, ← Disk.depth_concat]
    exact directory_deep List.prefix_rfl
  have hname := Path.simple_of_isName (Disk.isName_depth 1 "directory-name" (by decide))
  have hfind := Disk.find_name hdir hname (by decide) (by decide) hget
  have hlong : ¬ Disk.Shallow (deep.workDir ++ ["directory-name"]) := by
    rw [hwork, ← Disk.depth_concat, Disk.Shallow, Disk.size_depth 273]
    decide
  have hstarts : Starts deep ⟨"."⟩ deep.workDir := by
    refine ⟨Disk.leads_of_find (Disk.find_here hdir), ?_⟩
    rw [Disk.passed_here]
    nofun
  refine ⟨hfind, ?_, Disk.find_here hdir, by rw [Disk.get?_deep, hwork, if_pos rfl], ?_⟩
  · refine discover_failed ?_
    rw [(Disk.leads_of_find hfind).canonical_eq, if_neg]
    exact fun hall => hlong (hall _ (Disk.mem_passed_name hname (by decide) hget))
  · rw [discover_eq hstarts.canonical_eq, (none_nearest_iff hdir).2]
    rintro dir - ⟨hreach, hholds⟩
    have hlong := long_fileIn_depth
    rw [← dir_of_holds_deep hholds] at hlong
    exact absurd hreach.short (Nat.not_le.2 hlong)

end Config

end LocaleForge
