import LocaleForge.Proofs.Finding
import LocaleForge.Proofs.LinkFree

/-!
The inputs of a build. While a build writes to other places, the same sources are found all the time,
and the same texts are read from them.
-/

namespace LocaleForge

/-- The relative path is the main entry, or a pattern of the settings matches it. -/
def Settings.Selects (s : Settings) (rel : String) : Prop :=
  rel = s.mainEntry ∨ ∃ pattern ∈ s.localesPattern :: s.testPatterns, ∃ tokens,
    Glob.parse pattern = .ok tokens ∧ Glob.accepts tokens rel = true

namespace Disk

variable {d X : Disk} {whole : Location → Prop} {settings : Settings} {src loc : Location}
  {p : Path} {rel pattern text : String}

/-- The source directory is found if it is there, and neither the selected sources nor the templates
lie in a region. -/
structure Inputs (d : Disk) (settings : Settings) (src : Location) (whole : Location → Prop) :
    Prop where
  linkFree : d.LinkFree
  heads : d.heading? settings.srcDir = some src
  source : d.get? src = some .directory →
    ∃ b, d.find true settings.srcDir = .ok ⟨src, some .directory, b⟩
  selected : ∀ rel, settings.Selects rel → ¬ whole (src ++ Path.names (Text.cut '/' rel))
  templates : ∀ p ∈ [settings.defaultHeader, settings.localeHeader, settings.testHeader],
    ∀ loc, d.heading? p = some loc → ¬ whole loc

/-! ## Matching files -/

theorem lt_of_append_lt {base r r' : Location} (h : base ++ r < base ++ r') : r < r' := by
  induction base with
  | nil => exact h
  | cons x base ih =>
    rw [List.cons_append, List.cons_append, List.cons_lt_cons_iff] at h
    rcases h with h | ⟨-, h⟩
    · exact absurd h (String.lt_irrefl x)
    · exact ih h

theorem sorted_below (d : Disk) (base : Location) : Sorted (d.below base) := by
  have hfilter : Sorted (d.entries.filter (isBelow base ·.1)) :=
    d.isTree.sorted.sublist List.filter_sublist
  rw [below, Sorted, List.pairwise_map]
  refine hfilter.imp_of_mem fun {a b} ha hb hlt => ?_
  obtain ⟨l, e⟩ := a
  obtain ⟨l', e'⟩ := b
  obtain ⟨⟨r, rfl⟩, -⟩ := isBelow_iff.1 (List.mem_filter.1 ha).2
  obtain ⟨⟨r', rfl⟩, -⟩ := isBelow_iff.1 (List.mem_filter.1 hb).2
  simp only [List.drop_left]
  exact lt_of_append_lt hlt

theorem filter_filesBelow (d : Disk) (base : Location) (accept : String → Bool) :
    (d.filesBelow base).filter accept =
      ((d.below base).filter fun x => x.2.isFile && accept (relativePath x.1)).map
        (relativePath ·.1) := by
  rw [filesBelow, List.filter_map, List.filter_filter]
  congr 2
  funext x
  exact Bool.and_comm _ _

/-- Where two trees have the same accepted files, these are listed alike. -/
theorem filter_filesBelow_congr {accept : String → Bool}
    (h : ∀ rel, rel ≠ [] → accept (relativePath rel) = true → (∀ n ∈ rel, IsName n) → ∀ content x,
      X.get? (src ++ rel) = some (.file content x) ↔ d.get? (src ++ rel) = some (.file content x)) :
    (X.filesBelow src).filter accept = (d.filesBelow src).filter accept := by
  rw [filter_filesBelow, filter_filesBelow]
  congr 1
  have sorted : ∀ d : Disk, Sorted ((d.below src).filter fun x =>
      x.2.isFile && accept (relativePath x.1)) := fun d => (sorted_below d src).sublist List.filter_sublist
  refine (sorted X).eq_of_mem_iff (sorted d) fun ⟨rel, e⟩ => ?_
  have hsame : ∀ {d' : Disk}, rel ≠ [] → d'.get? (src ++ rel) = some e → e.isFile = true →
      accept (relativePath rel) = true →
      (X.get? (src ++ rel) = some e ↔ d.get? (src ++ rel) = some e) := by
    intro d' hne hg hfile haccept
    cases e with
    | file content x =>
      exact h rel hne haccept (fun n hn => isName_of_get? hg (List.mem_append_right src hn)) content x
    | directory => cases hfile
    | link target => cases hfile
  simp only [List.mem_filter, mem_below_iff, Bool.and_eq_true]
  constructor
  · rintro ⟨⟨hne, hg⟩, hfile, haccept⟩
    exact ⟨⟨hne, (hsame hne hg hfile haccept).1 hg⟩, hfile, haccept⟩
  · rintro ⟨⟨hne, hg⟩, hfile, haccept⟩
    exact ⟨⟨hne, (hsame hne hg hfile haccept).2 hg⟩, hfile, haccept⟩

/-- What is found below a directory in one tree is found in another one that has the same files there.
If the other tree lacks the directory, nothing is found. -/
theorem expand_of_files {root : Path} {files : List String}
    (heads : ∀ {loc b}, X.find true root = .ok ⟨loc, some .directory, b⟩ → loc = src)
    (heads' : ∀ {loc b}, d.find true root = .ok ⟨loc, some .directory, b⟩ → loc = src)
    (source : d.get? src = some .directory → (∃ b, X.find true root = .ok ⟨src, some .directory, b⟩) ∧
      ∃ b, d.find true root = .ok ⟨src, some .directory, b⟩)
    (same : ∀ tokens, Glob.parse pattern = .ok tokens → ∀ rel, rel ≠ [] →
      Glob.accepts tokens (relativePath rel) = true → (∀ n ∈ rel, IsName n) → ∀ content x,
        X.get? (src ++ rel) = some (.file content x) ↔ d.get? (src ++ rel) = some (.file content x))
    (h : X.expand root pattern = .ok files) : d.expand root pattern = .ok files := by
  by_cases hsrc : d.get? src = some .directory
  · obtain ⟨⟨b, hX⟩, b', hd⟩ := source hsrc
    rw [expand, hX] at h
    rw [expand, hd]
    simp only at h ⊢
    cases ht : Glob.parse pattern with
    | error e =>
      rw [ht] at h
      cases h
    | ok tokens =>
      rw [ht] at h
      cases h
      exact congrArg Except.ok (filter_filesBelow_congr (same tokens ht)).symm
  · have hstart : d.expand root pattern = .ok [] := by
      rw [expand]
      split
      case h_1 loc b hf => exact absurd (heads' hf ▸ (sound_of_find hf).entry_eq.symm) hsrc
      case h_2 => rfl
    rw [hstart]
    rw [expand] at h
    split at h
    case h_1 loc b hf =>
      obtain rfl := heads hf
      cases ht : Glob.parse pattern with
      | error e =>
        rw [ht] at h
        cases h
      | ok tokens =>
        rw [ht] at h
        cases h
        -- A file in the one tree would lie in the other one, below its missing directory.
        refine congrArg Except.ok (List.filter_eq_nil_iff.2 fun file hfile haccept => hsrc ?_).symm
        obtain ⟨rel, e, hget, hisFile, rfl, hcut, hnames⟩ := mem_filesBelow hfile
        have hne : rel ≠ [] := fun hrel => Text.cut_ne_nil _ _ (hcut.trans hrel)
        cases e with
        | file content x =>
          have hd := (same tokens ht rel hne haccept hnames content x).1 hget
          exact get?_of_isBelow (isBelow_iff.2 ⟨List.prefix_append _ rel, by simpa using hne⟩) hd
        | directory => cases hisFile
        | link target => cases hisFile
    case h_2 => exact h

theorem names_of_isName {rel : Location} (h : ∀ n ∈ rel, IsName n) : Path.names rel = rel := by
  refine List.filter_eq_self.2 fun n hn => ?_
  obtain ⟨hne, hdot, -⟩ := h n hn
  simp [Path.isIdle, hne, hdot]

/-- The files that are found for a pattern. -/
def sources (d : Disk) (settings : Settings) (pattern : String) : List String :=
  (d.expand settings.srcDir pattern).toOption.getD []

/-- Above a file outside the region are the directories of the start. -/
theorem Grown.directory_of_file (hg : d.Grown whole X) {rel : Location} {content : ByteArray} {x : Bool}
    (hout : ¬ whole (src ++ rel)) (hne : rel ≠ [])
    (hx : X.get? (src ++ rel) = some (.file content x)) : d.get? src = some .directory := by
  have hd := (hg.get?_file_iff hout).1 hx
  exact get?_of_isBelow (isBelow_iff.2 ⟨List.prefix_append src rel, by simpa using hne⟩) hd

theorem Inputs.not_whole (h : d.Inputs settings src whole)
    (hp : pattern ∈ settings.localesPattern :: settings.testPatterns) {tokens : List Glob.Token}
    (ht : Glob.parse pattern = .ok tokens) {rel : Location} (hne : rel ≠ [])
    (haccept : Glob.accepts tokens (relativePath rel) = true) (hnames : ∀ n ∈ rel, IsName n) :
    ¬ whole (src ++ rel) := by
  have hcut : Text.cut '/' (relativePath rel) = rel :=
    Text.cut_join hne fun n hn => (hnames n hn).2.2.2
  have hout := h.selected (relativePath rel) (.inr ⟨pattern, hp, tokens, ht, haccept⟩)
  rwa [hcut, names_of_isName hnames] at hout

/-- The same files are found for a pattern as at the start. -/
theorem Inputs.sources_eq (h : d.Inputs settings src whole) (hg : d.Grown whole X)
    (hp : pattern ∈ settings.localesPattern :: settings.testPatterns) {files : List String}
    (he : X.expand settings.srcDir pattern = .ok files) : files = d.sources settings pattern := by
  have hd : d.expand settings.srcDir pattern = .ok files := by
    refine expand_of_files (fun hf => ?_) (fun hf => ?_) (fun hsrc => ?_)
      (fun tokens ht rel hne haccept hnames content x =>
        hg.get?_file_iff (h.not_whole hp ht hne haccept hnames)) he
    · exact Option.some.inj ((hg.heading?_of_find hf).symm.trans h.heads)
    · exact Option.some.inj (((Grown.refl d whole).heading?_of_find hf).symm.trans h.heads)
    · obtain ⟨b, hf⟩ := h.source hsrc
      obtain ⟨e, hl, hf'⟩ := hg.keeps.find hf
      obtain rfl := hl.eq_of_not_isFile rfl
      exact ⟨⟨b, hf'⟩, b, hf⟩
  rw [sources, hd]
  rfl

theorem selects_of_mem_sources (hp : pattern ∈ settings.localesPattern :: settings.testPatterns)
    {file : String} (hf : file ∈ d.sources settings pattern) :
    settings.Selects file ∧ Path.Plain file ∧
      file = relativePath (Path.names (Text.cut '/' file)) := by
  rw [sources] at hf
  cases he : d.expand settings.srcDir pattern with
  | error e =>
    rw [he] at hf
    cases hf
  | ok files =>
    rw [he] at hf
    obtain ⟨tokens, rel, htokens, haccepts, hrel, hcut, hnames⟩ := mem_expand he hf
    refine ⟨.inr ⟨pattern, hp, tokens, htokens, haccepts⟩, plain_of_expand he hf, ?_⟩
    rw [hcut, names_of_isName hnames, hrel]

/-! ## Texts -/

/-- A selected source is read as it was at the start. -/
theorem Inputs.readText_iff (h : d.Inputs settings src whole) (hg : d.Grown whole X)
    (hselects : settings.Selects rel) (hrel : Path.Plain rel) :
    X.readText (settings.srcDir.join rel) = .ok text ↔
      d.readText (settings.srcDir.join rel) = .ok text := by
  have hlinks := hg.linkFree h.linkFree
  have hheads := heading?_join h.heads (fun _ _ _ target => h.linkFree _ target) hrel
  have hout := h.selected rel hselects
  rw [readText_eq_ok_iff, readText_eq_ok_iff]
  constructor
  · rintro ⟨loc, content, x, b, hf, hd⟩
    have hloc := hg.heading?_of_find hf
    rw [hheads, Option.some.injEq] at hloc
    subst hloc
    have hxfile := (sound_of_find hf).entry_eq.symm
    have hfile := (hg.get?_file_iff hout).1 hxfile
    -- The source directory is one at the start, since it has a file then.
    have hxdir : X.get? src = some .directory := by
      refine Disk.directory_of_join hrel.relative ?_ hf
      rw [h.linkFree.heading?_eq hlinks hg.workDir]
      exact h.heads
    have hne : Path.names (Text.cut '/' rel) ≠ [] := by
      intro hnil
      simp only [hnil, List.append_nil] at hxfile
      rw [hxdir] at hxfile
      cases hxfile
    obtain ⟨b', hsource⟩ := h.source (hg.directory_of_file hout hne hxfile)
    exact ⟨_, content, x, b, find_join_of_file h.linkFree hg hsource hrel hfile hf, hd⟩
  · rintro ⟨loc, content, x, b, hf, hd⟩
    have hloc := (Grown.refl d whole).heading?_of_find hf
    rw [hheads, Option.some.injEq] at hloc
    subst hloc
    obtain ⟨e, -, hf'⟩ := hg.keeps.find hf
    have hfile := (hg.get?_file_iff hout).2 (sound_of_find hf).entry_eq.symm
    have he := (sound_of_find hf').entry_eq
    rw [hfile] at he
    cases he
    exact ⟨_, content, x, b, hf', hd⟩

theorem Inputs.readText_eq (h : d.Inputs settings src whole) (hg : d.Grown whole X)
    (hselects : settings.Selects rel) (hrel : Path.Plain rel) :
    (X.readText (settings.srcDir.join rel)).toOption =
      (d.readText (settings.srcDir.join rel)).toOption := by
  cases hx : X.readText (settings.srcDir.join rel) with
  | ok text => rw [(h.readText_iff hg hselects hrel).1 hx]
  | error e =>
    cases hd : d.readText (settings.srcDir.join rel) with
    | ok text =>
      rw [(h.readText_iff hg hselects hrel).2 hd] at hx
      cases hx
    | error e' => rfl

end Disk

end LocaleForge
