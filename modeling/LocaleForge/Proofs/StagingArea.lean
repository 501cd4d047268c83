import LocaleForge.Proofs.CustomRun
import LocaleForge.Proofs.JobEnds
import LocaleForge.Proofs.Locations
import LocaleForge.Proofs.Patterns
import LocaleForge.Proofs.Requests

/-!
What preparing the staging area does: nothing where one is found. Elsewhere each script below the directory
of the sources is copied to the same place below the staging area, and outside of it only directories
are made that its path leads through.
-/

namespace LocaleForge

namespace Path

variable {p : Path} {ns : List String}

theorem prefix_dropLast {ns ms : List String} (h : ns <+: ms) (hne : ns ≠ ms) : ns <+: ms.dropLast := by
  obtain ⟨rest, rfl⟩ := h
  cases rest using List.reverseRecOn with
  | nil => simp at hne
  | append_singleton rest last =>
    rw [← List.append_assoc, List.dropLast_concat]
    exact List.prefix_append ns rest

/-- Each front of what a path names is named by a path above it. -/
theorem exists_above (h : ns <+: names (Text.cut '/' p.text)) (hne : ns ≠ names (Text.cut '/' p.text)) :
    ∃ q : Path, q.Above p ∧ q.isAbsolute = p.isAbsolute ∧ names (Text.cut '/' q.text) = ns := by
  induction hn : (names (Text.cut '/' p.text)).length generalizing p with
  | zero =>
    rw [List.length_eq_zero_iff.1 hn] at h hne
    exact absurd (List.prefix_nil.1 h) hne
  | succ n ih =>
    obtain ⟨q, hq⟩ := exists_parent (p := p) (List.ne_nil_of_length_eq_add_one hn)
    obtain ⟨ha, hnames⟩ := names_parent hq
    have hfront := prefix_dropLast h hne
    rw [← hnames] at hfront
    by_cases he : ns = names (Text.cut '/' q.text)
    · exact ⟨q, .parent hq, ha, he.symm⟩
    · obtain ⟨r, hr, har, hnr⟩ := ih hfront he (by rw [hnames, List.length_dropLast, hn, Nat.add_sub_cancel])
      exact ⟨r, .further hq hr, har.trans ha, hnr⟩

end Path

namespace Disk

variable {d X Y Z : Disk} {p root : Path} {src tmp rel l loc origin : Location} {rels : List Location}
  {content : ByteArray} {b : Bool}

/-- A directory on the way to a file below a path is on the way to the path, or lies where it heads. -/
theorem LinkFree.onWay_join (h : d.LinkFree) (hp : d.heading? p = some tmp) (hrel : Inside rel)
    (hway : d.OnWay (p.join (relativePath rel)) l) : tmp <+: l ∨ d.OnWay p l := by
  obtain ⟨q, hq, hne, hheads⟩ := hway
  obtain ⟨ha, hfront⟩ := hq.names
  obtain ⟨ps, hps, hjoin⟩ := p.cut_join hrel.plain.relative
  rw [p.isAbsolute_join hrel.plain.relative] at ha
  rw [hjoin, Path.names_append, hrel.names, ← Path.names_front hps] at hfront
  have hall := hfront.trans (List.dropLast_prefix _)
  by_cases hin : Path.names (Text.cut '/' p.text) <+: Path.names (Text.cut '/' q.text)
  · left
    obtain ⟨more, hmore⟩ := hin
    rw [← hmore, List.prefix_append_right_inj] at hall
    have hup : ".." ∉ more := fun hmem => (hrel.named _ (hall.subset hmem)).2.2.1 rfl
    have hnames : Path.names (Text.cut '/' q.text) = Path.names (Text.cut '/' p.text ++ more) := by
      rw [Path.names_append, ← hmore, names_of_isName fun n hn => hrel.named n (hall.subset hn)]
    rw [heading?] at hp hheads
    rw [head_names hnames, origin, ha, ← origin, head_append (fun l _ _ => h l) hup hp,
      Option.some.injEq] at hheads
    exact hheads ▸ List.prefix_append tmp _
  · right
    have hshort := (List.prefix_or_prefix_of_prefix hall (List.prefix_append _ rel)).resolve_right hin
    obtain ⟨r, hr, har, hnr⟩ := Path.exists_above hshort fun he => hin (he ▸ List.prefix_rfl)
    exact ⟨r, hr, hnr ▸ hne, (heading?_of_names (har.trans ha.symm) hnr).trans hheads⟩

/-! ## Scripts -/

/-- The last name on the way ends as those of scripts do. -/
def IsScript (rel : Location) : Bool :=
  rel.getLast?.any fun name => ".js".toList.isSuffixOf name.toList

/-- The regular files below the directory that a path leads to whose names end as those of scripts do,
relative to it. -/
def scripts (d : Disk) (root : Path) : List Location :=
  match d.find true root with
  | .ok ⟨loc, some .directory, _⟩ =>
    ((d.below loc).filter fun x => x.2.isFile && IsScript x.1).map Prod.fst
  | _ => []

theorem suffix_relativePath (dirs : Location) (name : String) :
    name.toList <:+ (relativePath (dirs ++ [name])).toList := by
  by_cases hdirs : dirs = []
  · simp [hdirs, relativePath, Text.join, Text.glue]
  · rw [relativePath, Text.toList_join_concat hdirs]
    exact (List.suffix_cons '/' _).trans (List.suffix_append _ _)

theorem suffix_of_relativePath {dirs : Location} {name : String} {back : List Char} (hback : '/' ∉ back)
    (h : back <:+ (relativePath (dirs ++ [name])).toList) : back <:+ name.toList := by
  by_cases hdirs : dirs = []
  · simpa [hdirs, relativePath, Text.join, Text.glue] using h
  · rw [relativePath, Text.toList_join_concat hdirs] at h
    exact Glob.suffix_behind _ hback h

theorem isScript_iff (h : rel ≠ []) : IsScript rel = true ↔ ".js".toList <:+ (relativePath rel).toList := by
  cases rel using List.reverseRecOn with
  | nil => exact absurd rfl h
  | append_singleton dirs name =>
    rw [IsScript, List.getLast?_concat, Option.any_some, List.isSuffixOf_iff_suffix]
    exact ⟨fun hname => hname.trans (suffix_relativePath dirs name), suffix_of_relativePath (by decide)⟩

/-- Hidden files in hidden directories count as others do. -/
example : IsScript [".h", ".js"] = true ∧ IsScript [".h", "a.jsx"] = false := by
  decide

theorem mem_scripts_iff (hf : d.find true root = .ok ⟨loc, some .directory, b⟩) :
    rel ∈ d.scripts root ↔ rel ≠ [] ∧ (d.content? (loc ++ rel)).isSome = true ∧ IsScript rel = true := by
  simp only [scripts, hf]
  rw [List.mem_map, isSome_content?_iff]
  constructor
  · rintro ⟨⟨rel, e⟩, hx, rfl⟩
    obtain ⟨hbelow, hkind⟩ := List.mem_filter.1 hx
    obtain ⟨hne, hg⟩ := mem_below_iff.1 hbelow
    obtain ⟨hfile, hscript⟩ := Bool.and_eq_true_iff.1 hkind
    exact ⟨hne, ⟨e, hg, hfile⟩, hscript⟩
  · rintro ⟨hne, ⟨e, hg, hfile⟩, hscript⟩
    have hkind : (e.isFile && IsScript rel) = true := Bool.and_eq_true_iff.2 ⟨hfile, hscript⟩
    exact ⟨(rel, e), List.mem_filter.2 ⟨mem_below_iff.2 ⟨hne, hg⟩, hkind⟩, rfl⟩

theorem sorted_scripts (d : Disk) (root : Path) : (d.scripts root).Pairwise (· < ·) := by
  rw [scripts]
  split
  case h_2 => exact .nil
  case h_1 loc b hf =>
    rw [List.pairwise_map]
    exact (sorted_below d loc).sublist List.filter_sublist

theorem nodup_scripts (d : Disk) (root : Path) : (d.scripts root).Nodup := by
  refine (sorted_scripts d root).imp fun hlt he => ?_
  rw [he] at hlt
  exact List.lt_irrefl _ hlt

/-- The scripts are what is copied. -/
theorem expand_stagedPattern (d : Disk) (root : Path) :
    d.expand root Context.stagedPattern = .ok ((d.scripts root).map relativePath) := by
  rw [expand]
  split
  case h_2 hnone =>
    rw [scripts]
    split
    case h_1 loc b hf => exact absurd hf (hnone loc b)
    case h_2 => rfl
  case h_1 loc b hf =>
    simp only [scripts, hf]
    rw [Glob.parse_stagedPattern]
    change Except.ok ((d.filesBelow loc).filter (Glob.accepts _)) = _
    have hsame : ∀ x ∈ d.below loc, (x.2.isFile && Glob.accepts
        (.deep :: .many :: ".js".toList.map .literal) (relativePath x.1)) = (x.2.isFile && IsScript x.1) := by
      rintro ⟨rel, e⟩ hx
      rw [Bool.eq_iff_iff, Bool.and_eq_true, Bool.and_eq_true, isScript_iff (mem_below_iff.1 hx).1,
        Glob.accepts_stagedPattern_iff Glob.parse_stagedPattern]
    rw [filter_filesBelow, List.filter_congr hsame, List.map_map]
    rfl

theorem inside_of_mem_scripts (h : rel ∈ d.scripts root) : Inside rel := by
  rw [scripts] at h
  split at h
  case h_2 => cases h
  case h_1 loc b hf =>
    obtain ⟨⟨rel, e⟩, hx, rfl⟩ := List.mem_map.1 h
    obtain ⟨hne, hg⟩ := mem_below_iff.1 (List.mem_of_mem_filter hx)
    exact inside_of_get? hg hne

theorem find_of_mem_scripts (heads : d.heading? root = some src) (h : rel ∈ d.scripts root) :
    ∃ b, d.find true root = .ok ⟨src, some .directory, b⟩ := by
  rw [scripts] at h
  split at h
  case h_2 => cases h
  case h_1 loc b hf =>
    obtain rfl := Option.some.inj (heads.symm.trans ((Grown.refl d fun _ => False).heading?_of_find hf))
    exact ⟨b, hf⟩

theorem isSome_content?_of_mem_scripts (heads : d.heading? root = some src) (h : rel ∈ d.scripts root) :
    (d.content? (src ++ rel)).isSome = true := by
  obtain ⟨b, hf⟩ := find_of_mem_scripts heads h
  exact ((mem_scripts_iff hf).1 h).2.1

/-! ## Copies -/

/-- A copy goes from where its source headed at the start to where its target headed. -/
theorem Grown.wrote_of_copied {region : Location → Prop} (hg : Z.Grown region d) {source : Path} {u : Unit}
    (h : Storage.disk.copy source p d = (.ok u, Y)) (hheads : Z.heading? source = some origin)
    (hp : Z.heading? p = some loc) (hne : loc ≠ origin) :
    ∃ content, d.Wrote p loc content Y ∧ d.content? origin = some content := by
  obtain ⟨mid, hext, hdir, hc⟩ := changes_of_place h
  obtain ⟨origin', original, x, b, s, content, hf, hw, hputs, hcontent⟩ := copied_of_copy hc
  have hmid := hg.extends hext hdir
  obtain rfl := Option.some.inj (hheads.symm.trans (hmid.heading?_of_find hf))
  obtain rfl := Option.some.inj (hp.symm.trans (hmid.heading?_of_find (find_of_writable hw).1))
  refine ⟨content, ⟨mid, s, hext, hdir, hw, rfl, hputs⟩, ?_⟩
  rw [hcontent hne, ← content?_extends hext, Disk.content?, ← (sound_of_find hf).entry_eq]

/-- One more copy leaves those that have been made before, and the other files. -/
theorem Wrote.adds_copy (hw : X.Wrote p (tmp ++ rel) content Y) (apart : Apart src tmp)
    (hcontent : X.content? (src ++ rel) = some content)
    (copies : ∀ r ∈ rels, X.content? (tmp ++ r) = d.content? (src ++ r))
    (others : ∀ l, (∀ r ∈ rels, l ≠ tmp ++ r) → X.content? l = d.content? l) :
    (∀ r ∈ rels ++ [rel], Y.content? (tmp ++ r) = d.content? (src ++ r)) ∧
      ∀ l, (∀ r ∈ rels ++ [rel], l ≠ tmp ++ r) → Y.content? l = d.content? l := by
  refine ⟨fun r hr => ?_, fun l hl => ?_⟩
  · rw [hw.content?]
    split
    case isTrue he =>
      have source : ∀ r' ∈ rels, src ++ rel ≠ tmp ++ r' := fun r' _ he' =>
        apart.not_above (List.prefix_append src rel) (he' ▸ List.prefix_append tmp r')
      rw [List.append_cancel_left he, ← hcontent, others _ source]
    case isFalse hne =>
      refine copies r ((List.mem_append.1 hr).resolve_right fun hmem => hne ?_)
      rw [List.mem_singleton.1 hmem]
  · rw [hw.content?, if_neg (hl rel (by simp))]
    exact others l fun r hr => hl r (List.mem_append_left _ hr)

/-- A tree into which files of one directory have been copied to the same places below another one, the
one that a path heads to. -/
structure Copied (d : Disk) (p : Path) (src tmp : Location) (rels : List Location) (Y : Disk) : Prop where
  grown : d.Grown (tmp <+: ·) Y
  copies : ∀ rel ∈ rels, Y.content? (tmp ++ rel) = d.content? (src ++ rel)
  others : ∀ l, (∀ rel ∈ rels, l ≠ tmp ++ rel) → Y.content? l = d.content? l
  outside : ∀ l, ¬ tmp <+: l → Y.get? l = d.get? l ∨ d.MadeFor p Y l

theorem Copied.start (d : Disk) (p : Path) (src tmp : Location) : d.Copied p src tmp [] d where
  grown := .refl d _
  copies _ h := absurd h List.not_mem_nil
  others _ _ := rfl
  outside _ _ := .inl rfl

/-- Outside of the directory a copy at most makes what the path to the directory leads through. -/
theorem Copied.outside_of_touched (hc : d.Copied p src tmp rels Y) (links : d.LinkFree)
    (heads : d.heading? p = some tmp) (hrel : Inside rel)
    (ht : Y.Touched (p.join (relativePath rel)) Z) (hg : Y.Grown (tmp <+: ·) Z) (hl : ¬ tmp <+: l) :
    Z.get? l = d.get? l ∨ d.MadeFor p Z l := by
  cases hy : Y.get? l with
  | some e =>
    -- What lies outside stays as it is.
    obtain ⟨e', hz, -, hsame⟩ := hg.kept hy
    have hkept : Z.get? l = Y.get? l := by rw [hz, hsame hl, hy]
    rcases hc.outside l hl with hd | hmade
    · exact .inl (hkept.trans hd)
    · exact .inr { hmade with made := hkept.trans hmade.made }
  | none =>
    have hd : d.get? l = none := by
      cases hd : d.get? l with
      | none => rfl
      | some e =>
        obtain ⟨e', hy', -, -⟩ := hc.grown.kept hd
        rw [hy] at hy'
        cases hy'
    cases hz : Z.get? l with
    | none => exact .inl hd.symm
    | some e =>
      obtain rfl : e = .directory := by
        rcases hg.added hz with hy' | he | ⟨hin, -⟩
        · rw [hy] at hy'
          cases hy'
        · exact he
        · exact absurd hin hl
      have hway := (links.onWay_join heads hrel (ht.made hc.grown.sameLinks hy hz)).resolve_left hl
      exact .inr ⟨hd, hz, hway, hway.above links⟩

/-- One more file is copied. -/
theorem Copied.more (hc : d.Copied p src tmp rels Y) (links : d.LinkFree)
    (heads : d.heading? p = some tmp) (apart : Apart src tmp) (hrel : Inside rel)
    (ht : Y.Touched (p.join (relativePath rel)) Z)
    (hw : Y.Wrote (p.join (relativePath rel)) (tmp ++ rel) content Z)
    (hcontent : Y.content? (src ++ rel) = some content) : d.Copied p src tmp (rels ++ [rel]) Z := by
  have hg := (Grown.refl Y (tmp <+: ·)).wrote hw (List.prefix_append tmp rel)
  obtain ⟨hcopies, hothers⟩ := hw.adds_copy apart hcontent hc.copies hc.others
  exact ⟨hc.grown.wrote hw (List.prefix_append tmp rel), hcopies, hothers, fun l hl =>
    hc.outside_of_touched links heads hrel ht hg hl⟩

end Disk

namespace Context

open Build

variable {ctx : Context} {s t : BuildState} {n : Nat} {src tmp rel : Location} {X : Disk}

/-- Copies files of the sources to the same places in the staging area. -/
def stage (ctx : Context) (files : List String) : Build Unit :=
  files.forM fun file => ctx.copy (ctx.settings.srcDir.join file) (ctx.settings.tmpDir.join file)

theorem stage_cons (ctx : Context) (file : String) (files : List String) : ctx.stage (file :: files) = (do
    ctx.copy (ctx.settings.srcDir.join file) (ctx.settings.tmpDir.join file)
    ctx.stage files) :=
  rfl

/-- Where no staging area is found, the files of the sources are listed and copied. -/
theorem run_prepareStaging_of_absent (h : ctx.storage.hasEntry ctx.settings.tmpDir s.disk = false) :
    ctx.prepareStaging.run.run s =
      (ctx.expand ctx.settings.srcDir stagedPattern >>= fun files =>
        ctx.stage files >>= fun _ => pure files.length).run.run s := by
  rw [prepareStaging, run_bind, run_hasEntry, h]
  rfl

/-- Where no staging area is found, all scripts are copied. -/
theorem prepareStaging_gives_iff (usual : ctx.storage = .disk)
    (hnone : s.disk.exists? ctx.settings.tmpDir = false) :
    ctx.prepareStaging.Gives s n t ↔ n = (s.disk.scripts ctx.settings.srcDir).length ∧
      (ctx.stage ((s.disk.scripts ctx.settings.srcDir).map Disk.relativePath)).Gives
        { s with log := s.log ++ [.expand ctx.settings.srcDir stagedPattern] } () t := by
  have habsent : ctx.storage.hasEntry ctx.settings.tmpDir s.disk = false := by
    rw [usual]
    exact hnone
  rw [Gives, run_prepareStaging_of_absent habsent]
  have hfiles := (expand_gives_iff usual).2 ⟨s.disk.expand_stagedPattern ctx.settings.srcDir, rfl⟩
  constructor
  · intro h
    obtain ⟨_, _, hfiles', h⟩ := gives_bind_iff.1 h
    obtain ⟨rfl, rfl⟩ := hfiles.unique hfiles'
    obtain ⟨⟨⟩, _, hcopies, h⟩ := gives_bind_iff.1 h
    obtain ⟨rfl, rfl⟩ := gives_pure_iff.1 h
    exact ⟨List.length_map _, hcopies⟩
  · rintro ⟨rfl, hcopies⟩
    refine hfiles.bind (hcopies.bind ?_)
    exact gives_pure_iff.2 ⟨List.length_map _, rfl⟩

theorem prepareStaging_of_idle (usual : ctx.storage = .disk)
    (hnone : s.disk.exists? ctx.settings.tmpDir = false)
    (hscripts : s.disk.scripts ctx.settings.srcDir = []) : ctx.prepareStaging.Gives s 0
      { s with log := s.log ++ [.expand ctx.settings.srcDir stagedPattern] } := by
  rw [prepareStaging_gives_iff usual hnone, hscripts]
  exact ⟨rfl, gives_pure () _⟩

/-! ## One copy after another -/

theorem copy_touched (usual : ctx.storage = .disk) {source p : Path}
    (h : (ctx.copy source p).Gives s () t) : s.disk.Touched p t.disk := by
  simp only [copy, gives_bind_iff, gives_note_iff, gives_alter_iff, usual] at h
  obtain ⟨-, _, rfl, hr, rfl⟩ := h
  exact Disk.touched_of_copy (Prod.ext hr rfl)

theorem copy_content (usual : ctx.storage = .disk) {source p : Path} {origin loc : Location}
    (hheads : s.disk.heading? source = some origin) (hp : s.disk.heading? p = some loc)
    (hne : loc ≠ origin) (h : (ctx.copy source p).Gives s () t) :
    ∃ content, s.disk.Wrote p loc content t.disk ∧ s.disk.content? origin = some content := by
  simp only [copy, gives_bind_iff, gives_note_iff, gives_alter_iff, usual] at h
  obtain ⟨-, _, rfl, hr, rfl⟩ := h
  exact (Disk.Grown.refl s.disk fun _ => False).wrote_of_copied (Prod.ext hr rfl) hheads hp hne

theorem copied_of_stage (usual : ctx.storage = .disk) (links : X.LinkFree)
    (srcHeads : X.heading? ctx.settings.srcDir = some src)
    (tmpHeads : X.heading? ctx.settings.tmpDir = some tmp) (apart : Disk.Apart src tmp)
    {done rels : List Location} (hrels : ∀ rel ∈ rels, Disk.Inside rel)
    (hc : X.Copied ctx.settings.tmpDir src tmp done s.disk)
    (h : (ctx.stage (rels.map Disk.relativePath)).Gives s () t) :
    X.Copied ctx.settings.tmpDir src tmp (done ++ rels) t.disk := by
  induction rels generalizing s done with
  | nil =>
    obtain ⟨-, rfl⟩ := gives_pure_iff.1 h
    rwa [List.append_nil]
  | cons rel rels ih =>
    obtain ⟨⟨⟩, u, hfirst, hrest⟩ := gives_bind_iff.1 h
    have hinside := hrels rel List.mem_cons_self
    -- The paths head to where they headed at the start.
    have hlinks := hc.grown.linkFree links
    have hsame := links.heading?_eq hlinks hc.grown.workDir
    have hheads := Disk.heading?_join ((hsame _).trans srcHeads) (fun l _ _ => hlinks l) hinside.plain
    have hplace := Disk.heading?_join ((hsame _).trans tmpHeads) (fun l _ _ => hlinks l) hinside.plain
    rw [hinside.names] at hheads hplace
    have hne : tmp ++ rel ≠ src ++ rel := fun he =>
      apart.not_above (he ▸ List.prefix_append src rel) (List.prefix_append tmp rel)
    obtain ⟨content, hw, hcontent⟩ := copy_content usual hheads hplace hne hfirst
    have hmore := hc.more links tmpHeads apart hinside (copy_touched usual hfirst) hw hcontent
    have hall := ih (fun r hr => hrels r (List.mem_cons_of_mem _ hr)) hmore hrest
    rwa [List.append_assoc] at hall

theorem keeps_of_stage (usual : ctx.storage = .disk) {files : List String}
    (h : (ctx.stage files).Gives s () t) : s.disk.Keeps t.disk := by
  induction files generalizing s with
  | nil =>
    obtain ⟨-, rfl⟩ := gives_pure_iff.1 h
    exact .refl _
  | cons file files ih =>
    obtain ⟨⟨⟩, u, hfirst, hrest⟩ := gives_bind_iff.1 h
    obtain ⟨⟨loc, content, hw⟩, -⟩ := copy_gives usual hfirst
    exact hw.keeps.trans (ih hrest)

/-- Once a file has been copied, the staging area is found. -/
theorem exists_of_stage (usual : ctx.storage = .disk) (named : ctx.settings.tmpDir.text ≠ "")
    (hrel : Disk.Inside rel) {files : List String}
    (h : (ctx.stage (Disk.relativePath rel :: files)).Gives s () t) :
    t.disk.exists? ctx.settings.tmpDir = true := by
  obtain ⟨⟨⟩, u, hfirst, hrest⟩ := gives_bind_iff.1 h
  obtain ⟨⟨loc, content, hw⟩, -⟩ := copy_gives usual hfirst
  exact (keeps_of_stage usual hrest).exists? (hw.exists?_above hrel.plain.relative named)

/-- Preparing the staging area once more copies nothing. -/
theorem prepareStaging_again (usual : ctx.storage = .disk) (named : ctx.settings.tmpDir.text ≠ "")
    (h : ctx.prepareStaging.Gives s n t) : ∃ u, ctx.prepareStaging.Gives t 0 u ∧ u.disk = t.disk := by
  cases hx : t.disk.exists? ctx.settings.tmpDir with
  | true => exact ⟨t, prepareStaging_of_exists usual hx, rfl⟩
  | false =>
    cases hs : s.disk.exists? ctx.settings.tmpDir with
    | true =>
      obtain ⟨-, rfl⟩ := (prepareStaging_of_exists usual hs).unique h
      cases hx.symm.trans hs
    | false =>
      obtain ⟨-, hcopies⟩ := (prepareStaging_gives_iff usual hs).1 h
      cases hscripts : s.disk.scripts ctx.settings.srcDir with
      | nil =>
        rw [hscripts] at hcopies
        obtain ⟨-, rfl⟩ := gives_pure_iff.1 hcopies
        exact ⟨_, prepareStaging_of_idle usual hx hscripts, rfl⟩
      | cons rel rels =>
        have hinside := Disk.inside_of_mem_scripts (hscripts ▸ List.mem_cons_self)
        rw [hscripts] at hcopies
        rw [exists_of_stage usual named hinside hcopies] at hx
        cases hx

/-! ## What lies where -/

/-- What is left when the staging area has been made: the scripts below the sources have been copied, and
the other files are those that were there. Outside of the staging area only directories have been
made that the path to it leads through. -/
structure Stocks (ctx : Context) (X : Disk) (src tmp : Location) (n : Nat) (Y : Disk) : Prop where
  count : n = (X.scripts ctx.settings.srcDir).length
  copies : ∀ rel ∈ X.scripts ctx.settings.srcDir,
    (X.content? (src ++ rel)).isSome = true ∧ Y.content? (tmp ++ rel) = X.content? (src ++ rel)
  others : ∀ rel, rel ∉ X.scripts ctx.settings.srcDir → Y.content? (tmp ++ rel) = X.content? (tmp ++ rel)
  fresh : X.get? tmp = none →
    ∀ rel, rel ∉ X.scripts ctx.settings.srcDir → Y.content? (tmp ++ rel) = none
  idle : n = 0 → Y = X
  outside : ∀ l, ¬ tmp <+: l → Y.get? l = X.get? l ∨ X.MadeFor ctx.settings.tmpDir Y l

theorem copied_of_prepareStaging (usual : ctx.storage = .disk) (links : s.disk.LinkFree)
    (srcHeads : s.disk.heading? ctx.settings.srcDir = some src)
    (tmpHeads : s.disk.heading? ctx.settings.tmpDir = some tmp) (apart : Disk.Apart src tmp)
    (hnone : s.disk.exists? ctx.settings.tmpDir = false) (h : ctx.prepareStaging.Gives s n t) :
    s.disk.Copied ctx.settings.tmpDir src tmp (s.disk.scripts ctx.settings.srcDir) t.disk := by
  obtain ⟨-, hcopies⟩ := (prepareStaging_gives_iff usual hnone).1 h
  have hc : s.disk.Copied ctx.settings.tmpDir src tmp
      ([] ++ s.disk.scripts ctx.settings.srcDir) t.disk := by
    refine copied_of_stage usual links srcHeads tmpHeads apart ?_ ?_ hcopies
    · exact fun _ => Disk.inside_of_mem_scripts
    · exact .start s.disk ctx.settings.tmpDir src tmp
  rwa [List.nil_append] at hc

theorem stocks_of_prepareStaging (usual : ctx.storage = .disk) (links : s.disk.LinkFree)
    (srcHeads : s.disk.heading? ctx.settings.srcDir = some src)
    (tmpHeads : s.disk.heading? ctx.settings.tmpDir = some tmp) (apart : Disk.Apart src tmp)
    (hnone : s.disk.exists? ctx.settings.tmpDir = false) (h : ctx.prepareStaging.Gives s n t) :
    ctx.Stocks s.disk src tmp n t.disk := by
  obtain ⟨hn, hcopies⟩ := (prepareStaging_gives_iff usual hnone).1 h
  have hc := copied_of_prepareStaging usual links srcHeads tmpHeads apart hnone h
  have others : ∀ rel, rel ∉ s.disk.scripts ctx.settings.srcDir →
      t.disk.content? (tmp ++ rel) = s.disk.content? (tmp ++ rel) := fun rel hrel =>
    hc.others _ fun r hr he => hrel (List.append_cancel_left he ▸ hr)
  refine ⟨hn, fun rel hrel => ⟨?_, hc.copies rel hrel⟩, others, fun hfree rel hrel => ?_, fun hzero => ?_,
    hc.outside⟩
  · exact Disk.isSome_content?_of_mem_scripts srcHeads hrel
  · rw [others rel hrel]
    by_cases hne : rel = []
    · rw [hne, List.append_nil, Disk.content?, hfree]
    · have hbelow := Disk.isBelow_iff.2 ⟨List.prefix_append tmp rel, by simpa using hne⟩
      rw [Disk.content?, Disk.get?_eq_none_of_isBelow hbelow (by simp [hfree])]
  · rw [List.eq_nil_of_length_eq_zero (hn.symm.trans hzero)] at hcopies
    obtain ⟨-, rfl⟩ := gives_pure_iff.1 hcopies
    rfl

/-- Where a staging area is found, preparing it changes nothing. Where none is found in a tree without links
and the sources lie apart from its place, it comes to hold the copies of the scripts among them. In every
tree, preparing it once more copies nothing. -/
theorem prepareStaging_stocks (usual : ctx.storage = .disk) (s : BuildState) :
    (s.disk.exists? ctx.settings.tmpDir = true → ctx.prepareStaging.Gives s 0 s) ∧
    (s.disk.exists? ctx.settings.tmpDir = false → s.disk.LinkFree → ∀ src tmp,
      s.disk.heading? ctx.settings.srcDir = some src → s.disk.heading? ctx.settings.tmpDir = some tmp →
      Disk.Apart src tmp → ∀ n t, ctx.prepareStaging.Gives s n t → ctx.Stocks s.disk src tmp n t.disk) ∧
    (ctx.settings.tmpDir.text ≠ "" → ∀ n t, ctx.prepareStaging.Gives s n t →
      ∃ u, ctx.prepareStaging.Gives t 0 u ∧ u.disk = t.disk) := by
  refine ⟨prepareStaging_of_exists usual, ?_, fun named n t => prepareStaging_again usual named⟩
  intro hnone links src tmp srcHeads tmpHeads apart n t h
  exact stocks_of_prepareStaging usual links srcHeads tmpHeads apart hnone h

theorem prepareStaging_stocks_small :
    let ctx := small .small "b"
    ctx.storage = .disk ∧ Disk.small.exists? ctx.settings.tmpDir = false ∧ Disk.small.LinkFree ∧
      Disk.small.heading? ctx.settings.srcDir = some ["src"] ∧
      Disk.small.heading? ctx.settings.tmpDir = some ["build", "tmp"] ∧
      Disk.Apart ["src"] ["build", "tmp"] ∧ ctx.settings.tmpDir.text ≠ "" ∧
      ∃ t u, ctx.prepareStaging.Gives (.fresh .small) 1 t ∧
        ctx.Stocks .small ["src"] ["build", "tmp"] 1 t.disk ∧
        ctx.prepareStaging.Gives t 0 u ∧ u.disk = t.disk := by
  intro ctx
  have hnone : Disk.small.exists? ctx.settings.tmpDir = false := by decide +kernel
  have srcHeads : Disk.small.heading? ctx.settings.srcDir = some ["src"] := by decide +kernel
  have tmpHeads : Disk.small.heading? ctx.settings.tmpDir = some ["build", "tmp"] := by decide +kernel
  have apart : Disk.Apart ["src"] ["build", "tmp"] := by decide
  have named : ctx.settings.tmpDir.text ≠ "" := by decide
  obtain ⟨t, ht⟩ : ∃ t, ctx.prepareStaging.Gives (.fresh .small) 1 t :=
    ⟨_, gives_of_run (by decide +kernel)⟩
  obtain ⟨-, hmade, hagain⟩ := @prepareStaging_stocks ctx rfl (.fresh .small)
  obtain ⟨u, hu, hdisk⟩ := hagain named 1 t ht
  exact ⟨rfl, hnone, Disk.linkFree_small, srcHeads, tmpHeads, apart, named, t, u, ht,
    hmade hnone Disk.linkFree_small _ _ srcHeads tmpHeads apart 1 t ht, hu, hdisk⟩

end Context

/-! ## Other files in the staging area -/

/-- The small project, with an old script where a staging area could lie. -/
def Disk.leftover : Disk :=
  (small.set ["tmp"] .directory).set ["tmp", "o.js"] (.file (Text.encode "o") false)

namespace Context

open Build

/-- The path to the staging area leads through a directory that may be missing. -/
def pastMissing : Context :=
  small { Settings.small with tmpDir := ⟨"/x/../tmp"⟩ } "b"

/-- The path to the staging area is empty. -/
def unplaced : Context :=
  small { Settings.small with tmpDir := ⟨""⟩ } "b"

/-- Where the path to the staging area leads through a missing directory, an old file is found there beside
the copies. Where it is empty, preparing the staging area once more copies again. -/
theorem prepareStaging_finds_leftover :
    (Disk.leftover.LinkFree ∧ Disk.leftover.heading? pastMissing.settings.srcDir = some ["src"] ∧
      Disk.leftover.heading? pastMissing.settings.tmpDir = some ["tmp"] ∧ Disk.Apart ["src"] ["tmp"] ∧
      Disk.leftover.exists? pastMissing.settings.tmpDir = false ∧
      ["o.js"] ∉ Disk.leftover.scripts pastMissing.settings.srcDir ∧
      ∃ t, pastMissing.prepareStaging.Gives (.fresh .leftover) 1 t ∧
        t.disk.content? (["tmp"] ++ ["o.js"]) = some (Text.encode "o") ∧
        (t.disk.readText (pastMissing.settings.tmpDir.join "o.js")).toOption = some "o") ∧
    ∃ t u, unplaced.prepareStaging.Gives (.fresh .small) 1 t ∧ unplaced.prepareStaging.Gives t 1 u := by
  have links : Disk.leftover.LinkFree := Disk.linkFree_of_entries (by decide +kernel)
  have hcopied : (pastMissing.prepareStaging.run.run (.fresh .leftover)).1.toOption = some 1 := by
    decide +kernel
  have hfirst : (unplaced.prepareStaging.run.run (.fresh .small)).1.toOption = some 1 := by decide +kernel
  have hagain : (unplaced.prepareStaging.run.run
      (unplaced.prepareStaging.run.run (.fresh .small)).2).1.toOption = some 1 := by decide +kernel
  constructor
  · refine ⟨links, by decide +kernel, by decide +kernel, by decide, by decide +kernel, by decide +kernel, ?_⟩
    exact ⟨_, gives_of_run hcopied, by decide +kernel, by decide +kernel⟩
  · exact ⟨_, _, gives_of_run hfirst, gives_of_run hagain⟩

end Context

end LocaleForge
