import LocaleForge.Proofs.Directories
import LocaleForge.Proofs.JoinedTests
import LocaleForge.Proofs.StagingArea

/-!
What joining the built tests does to a tree: nothing where there are none, or where one of them cannot be
read. Otherwise it writes one file, which is never among the tests, so that joining them once more
changes nothing.
-/

namespace LocaleForge

theorem Path.getLast?_join (p : Path) {name : String} (h : Simple name) :
    (p.join name).text.toList.getLast? ≠ some '/' := by
  obtain ⟨front, hfront⟩ := p.exists_join_eq
  rw [hfront h.relative]
  exact h.getLast?_append front

namespace Disk

variable {d X Y : Disk} {p q dir : Path} {base loc l rel : Location} {front : List String}
  {name last text : String} {e : Entry} {b : Bool}

/-- The scripts in the directory of tests below the directory that a path leads to. -/
def tests (d : Disk) (dir : Path) : List Location :=
  (d.scripts dir).filter (isBelow ["test"])

theorem mem_tests_iff : rel ∈ d.tests dir ↔ ∃ base b, d.find true dir = .ok ⟨base, some .directory, b⟩ ∧
    isBelow ["test"] rel = true ∧ (d.content? (base ++ rel)).isSome = true ∧ IsScript rel = true := by
  rw [tests, List.mem_filter]
  constructor
  · rintro ⟨hmem, htest⟩
    have hscript := hmem
    rw [scripts] at hscript
    split at hscript
    case h_2 => cases hscript
    case h_1 base b hf =>
      obtain ⟨-, hc, hjs⟩ := (mem_scripts_iff hf).1 hmem
      exact ⟨base, b, hf, htest, hc, hjs⟩
  · rintro ⟨base, b, hf, htest, hc, hjs⟩
    refine ⟨(mem_scripts_iff hf).2 ⟨?_, hc, hjs⟩, htest⟩
    rintro rfl
    cases htest

theorem inside_of_mem_tests (h : rel ∈ d.tests dir) : Inside rel :=
  inside_of_mem_scripts (List.mem_of_mem_filter h)

/-- The tests are what is found to be joined. -/
theorem expand_builtTests (d : Disk) (dir : Path) :
    d.expand dir Context.builtTests = .ok ((d.tests dir).map relativePath) := by
  rw [expand]
  split
  case h_2 hnone =>
    rw [tests, scripts]
    split
    case h_1 loc b hf => exact absurd hf (hnone loc b)
    case h_2 => rfl
  case h_1 base b hf =>
    rw [Glob.parse_builtTests]
    change Except.ok ((d.filesBelow base).filter (Glob.accepts _)) = _
    have hsame : ∀ x ∈ d.below base, (x.2.isFile && Glob.accepts ("test/".toList.map .literal ++
        .deep :: .many :: ".js".toList.map .literal) (relativePath x.1)) =
        (isBelow ["test"] x.1 && (x.2.isFile && IsScript x.1)) := by
      rintro ⟨rel, e⟩ hx
      obtain ⟨hne, hg⟩ := mem_below_iff.1 hx
      rw [Bool.eq_iff_iff, Bool.and_eq_true, Bool.and_eq_true, Bool.and_eq_true, isScript_iff hne,
        Glob.accepts_builtTests_iff Glob.parse_builtTests, ← (inside_of_get? hg hne).front_iff Pipeline.simple_test]
      exact and_left_comm
    rw [filter_filesBelow, List.filter_congr hsame, tests]
    simp only [scripts, hf]
    rw [List.filter_map, List.filter_filter, List.map_map]
    rfl

/-! ## Writing once more -/

theorem set_same (h : d.Fits loc e) (hg : d.get? loc = some e) : d.set loc e = d := by
  refine ext_get? (workDir_set d loc e) fun l => ?_
  rw [get?_set h]
  split
  case isTrue hl => rw [hl, hg]
  case isFalse => rfl

theorem Opens.bare (h : d.Opens p) : d.Opens (bare p) := by
  have habs := p.names_bare.1
  rw [Disk.bare] at habs ⊢
  split at habs
  case h_1 => exact h
  case h_2 hne =>
    have hfront : (p.text.toList.reverse.dropWhile (· == '/')).reverse <+: p.text.toList :=
      List.rdropWhile_prefix (· == '/') _
    obtain ⟨rest, hrest⟩ := hfront
    have htext : p.text = String.ofList (p.text.toList.reverse.dropWhile (· == '/')).reverse ++
        String.ofList rest := by
      apply String.toList_injective
      simpa using hrest.symm
    exact h.front htext (fun hempty => hne (by simpa using congrArg String.toList hempty)) habs

/-- A directory that is there need not be made. -/
theorem createDirectories_same (links : d.LinkFree) (hp : d.find true p = .ok ⟨loc, some .directory, b⟩) :
    d.createDirectories p = (.ok (), d) := by
  have hopens := opens_of_find hp
  have hbare : d.find false (bare p) = .ok ⟨loc, some .directory, b⟩ := by
    rw [links.find_follow]
    exact find_of_names hp hopens.bare p.names_bare.1 p.names_bare.2
  have hmade : d.createDirectory p = .error .alreadyExists := by
    rw [createDirectory, hbare]
    rfl
  have hdir : d.isDirectory p = true := by
    rw [isDirectory, entryAt?, hp]
    rfl
  rw [createDirectories, createUpTo, hopens.notEmpty, if_neg Bool.false_ne_true, hmade, hdir]
  rfl

/-- Writing to a file below a directory what it holds already changes nothing. -/
theorem write_same (links : d.LinkFree) (hq : q.pieces = front ++ [last]) (hlast : Path.isIdle last = false)
    (hname : Path.Simple name) (hf : d.find true (q.join name) = .ok ⟨loc, some e, b⟩)
    (hc : d.content? loc = some (Text.encode text)) :
    Storage.disk.write (q.join name) text d = (.ok (), d) := by
  obtain ⟨x, hg⟩ := get?_of_content? hc
  have hsound := sound_of_find hf
  have he : e = .file (Text.encode text) x := by
    have hentry := hsound.entry_eq
    rw [hg] at hentry
    exact Option.some.inj hentry
  subst he
  have hne : q.text ≠ "" := by
    intro hempty
    have hpieces : q.pieces = [""] := by
      rw [Path.pieces, Path.isAbsolute, hempty]
      rfl
    rw [hq] at hpieces
    obtain ⟨-, hsame⟩ := List.append_inj' (hpieces.trans (List.nil_append [""]).symm) rfl
    rw [(List.cons.inj hsame).1] at hlast
    cases hlast
  obtain ⟨dir, hdir⟩ := find_of_join hname.relative hne hf
  have hroom : Storage.makeRoom (q.join name) d = (.ok (), d) := by
    rw [Storage.makeRoom, Path.parent?_join hq hlast hname]
    simp only [createDirectories_same links hdir]
    rfl
  have hwritable : d.writable (q.join name) = .ok ⟨loc, some (.file (Text.encode text) x), b⟩ := by
    rw [writable, if_neg (q.getLast?_join hname), hf]
    rfl
  have hbytes : d.writeBytes (q.join name) (Text.encode text) = .ok d := by
    rw [writeBytes, hwritable]
    exact congrArg Except.ok (set_same (hsound.fits (by simp) _) hg)
  simp only [Storage.disk, Storage.place, hroom, hbytes]

/-! ## Joined tests -/

/-- The only directory that may have to be made for the joined tests is the one that they lie in. -/
theorem eq_min_of_onWay (links : d.LinkFree) (hdir : d.find true dir = .ok ⟨base, some .directory, b⟩)
    (hway : d.OnWay (dir.join "min/tests.js") l) (hmissing : d.get? l = none) : l = base ++ ["min"] := by
  have hplain : Path.Plain "min/tests.js" := Pipeline.plain_min Pipeline.simple_tests
  have hnames : Path.names (Text.cut '/' "min/tests.js") = ["min", "tests.js"] :=
    Pipeline.names_min Pipeline.simple_tests
  have hmin := Pipeline.simple_min
  have hminNames : Path.names (Text.cut '/' "min") = ["min"] := by
    rw [hmin.cut, Path.names_cons hmin.notIdle, Path.names_nil]
  obtain ⟨q, hq, -, hheads⟩ := hway
  obtain ⟨ha, hfront⟩ := hq.names
  rw [dir.isAbsolute_join hplain.relative] at ha
  rw [dir.names_join hplain.relative, hnames, List.dropLast_append_of_ne_nil (by simp)] at hfront
  -- The way leads to the directory of the joined tests, or through what is a directory already.
  rcases List.prefix_concat_iff.1 hfront with hwhole | hfront
  · have hmade := heading?_join ((Grown.refl d fun _ => False).heading?_of_find hdir)
      (fun l _ _ => links l) hmin.plain
    have hsame : Path.names (Text.cut '/' q.text) = Path.names (Text.cut '/' (dir.join "min").text) := by
      rw [hwhole, dir.names_join hmin.relative, hminNames]
    rw [heading?_of_names (ha.trans (dir.isAbsolute_join hmin.relative).symm) hsame, hmade, hminNames,
      Option.some.injEq] at hheads
    exact hheads.symm
  · rw [directory_of_front hdir ha hfront hheads] at hmissing
    cases hmissing

/-- A test is another file than the joined tests. -/
theorem ne_joined_of_mem_tests (h : rel ∈ d.tests dir) : base ++ rel ≠ base ++ ["min", "tests.js"] := by
  intro he
  obtain ⟨-, -, -, htest, -⟩ := mem_tests_iff.1 h
  rw [List.append_cancel_left he] at htest
  cases htest

/-- Once the joined tests have been written, the same tests are found. -/
theorem Wrote.expand_builtTests {content : ByteArray}
    (hw : X.Wrote p (base ++ ["min", "tests.js"]) content Y)
    (hdir : X.find true dir = .ok ⟨base, some .directory, b⟩) :
    Y.expand dir Context.builtTests = .ok ((X.tests dir).map relativePath) := by
  have hg := (Grown.refl X (· = base ++ ["min", "tests.js"])).wrote hw rfl
  obtain ⟨e, hlike, hdir'⟩ := hw.keeps.find hdir
  obtain rfl := hlike.eq_of_not_isFile rfl
  rw [← Disk.expand_builtTests, expand, expand, hdir, hdir', Glob.parse_builtTests]
  refine congrArg Except.ok (filter_filesBelow_congr fun rel hne haccept hnames content x => ?_)
  refine hg.get?_file_iff fun he => ?_
  have hfront := ((Glob.accepts_builtTests_iff Glob.parse_builtTests).1 haccept).1
  have htest := ((Inside.mk hne hnames).front_iff Pipeline.simple_test).1 hfront
  rw [List.append_cancel_left he] at htest
  cases htest

/-- And the same texts are read from them. -/
theorem Wrote.readText_test {content : ByteArray} (hw : X.Wrote p (base ++ ["min", "tests.js"]) content Y)
    (links : X.LinkFree) (hdir : X.find true dir = .ok ⟨base, some .directory, b⟩) (hrel : rel ∈ X.tests dir)
    (h : X.readText (dir.join (relativePath rel)) = .ok text) :
    Y.readText (dir.join (relativePath rel)) = .ok text := by
  have hinside := inside_of_mem_tests hrel
  have hself := Grown.refl X fun _ => False
  refine readText_of_keeps hw.keeps (fun {l e b} hf => ?_) h
  have hheads := heading?_join (hself.heading?_of_find hdir) (fun l _ _ => links l) hinside.plain
  rw [hinside.names, hself.heading?_of_find hf, Option.some.injEq] at hheads
  rw [hw.content?, if_neg]
  rw [show l = base ++ rel from hheads]
  exact ne_joined_of_mem_tests hrel

end Disk

namespace Settings

/-- The tests that have been built, by their places below the directory of wrapped bundles. -/
def testsIn (s : Settings) (d : Disk) : List Location :=
  d.tests (s.formatDir .umd)

def testPath (s : Settings) (rel : Location) : Path :=
  (s.formatDir .umd).join (Disk.relativePath rel)

end Settings

namespace Context

open Build

variable {ctx : Context} {s t : BuildState} {dir p : Path} {files texts : List String} {found : Option Path}

theorem run_read (usual : ctx.storage = .disk) (p : Path) (s : BuildState) :
    (ctx.read p).run.run s = ((s.disk.readText p).mapError fun fault => .failed (.ofDisk (.reading p) fault),
      { s with log := s.log ++ [.read p] }) := by
  rw [read, run_bind, run_note]
  simp only [run_query, usual, Storage.disk]
  cases s.disk.readText p <;> rfl

theorem gives_readTexts (usual : ctx.storage = .disk)
    (h : List.Forall₂ (fun file text => s.disk.readText (dir.join file) = .ok text) files texts) :
    (files.mapM fun file => ctx.read (dir.join file)).Gives s texts
      { s with log := s.log ++ files.map fun file => .read (dir.join file) } := by
  induction files generalizing s texts with
  | nil =>
    cases h
    exact gives_mapM_nil_iff.2 ⟨rfl, by rw [List.map_nil, List.append_nil]⟩
  | cons file files ih =>
    cases h with
    | @cons _ text _ texts hread hreads =>
      have hfirst : (ctx.read (dir.join file)).Gives s text
          { s with log := s.log ++ [.read (dir.join file)] } := by
        rw [Gives, run_read usual, hread]
        rfl
      have hrest := @ih { s with log := s.log ++ [.read (dir.join file)] } texts hreads
      refine gives_mapM_cons_iff.2 ⟨text, _, texts, hfirst, ?_, rfl⟩
      rwa [List.append_assoc] at hrest

/-- Reading stops at the first file that cannot be read. -/
theorem run_readTexts_error (usual : ctx.storage = .disk)
    (h : ∃ file ∈ files, ∀ text, s.disk.readText (dir.join file) ≠ .ok text) :
    ∃ front file back fault, files = front ++ file :: back ∧
      (∀ f ∈ front, ∃ text, s.disk.readText (dir.join f) = .ok text) ∧
      s.disk.readText (dir.join file) = .error fault ∧
      (files.mapM fun file => ctx.read (dir.join file)).run.run s =
        (.error (.failed (.ofDisk (.reading (dir.join file)) fault)),
          { s with log := s.log ++ (front ++ [file]).map fun f => .read (dir.join f) }) := by
  induction files generalizing s with
  | nil =>
    obtain ⟨_, hmem, -⟩ := h
    cases hmem
  | cons file files ih =>
    have hfirst := run_read usual (dir.join file) s
    rw [List.mapM_cons]
    cases hread : s.disk.readText (dir.join file) with
    | error fault =>
      rw [hread] at hfirst
      exact ⟨[], file, files, fault, rfl, nofun, hread, run_bind_of_error hfirst⟩
    | ok text =>
      rw [hread] at hfirst
      have hrest : ∃ f ∈ files, ∀ text, s.disk.readText (dir.join f) ≠ .ok text := by
        obtain ⟨f, hmem, hf⟩ := h
        rcases List.mem_cons.1 hmem with rfl | hmem
        · exact absurd hread (hf text)
        · exact ⟨f, hmem, hf⟩
      obtain ⟨front, bad, back, fault, rfl, hfront, hbad, hrun⟩ :=
        @ih { s with log := s.log ++ [.read (dir.join file)] } hrest
      refine ⟨file :: front, bad, back, fault, rfl, ?_, hbad, ?_⟩
      · exact List.forall_mem_cons.2 ⟨⟨text, hread⟩, hfront⟩
      · rw [run_bind_of_ok hfirst, run_bind_of_error hrun]
        simp only [List.append_assoc, List.cons_append, List.nil_append, List.map_cons]

/-- The tests of a tree have been joined in another one: a file that holds their texts in the order in which
they are found lies below their directory, and nothing else is different but that its own directory may have
been made. -/
structure TestsJoined (ctx : Context) (X Y : Disk) (base : Location) (texts : List String) : Prop where
  place : ∃ b, X.find true (ctx.settings.formatDir .umd) = .ok ⟨base, some .directory, b⟩
  reads : List.Forall₂ (fun rel text => X.readText (ctx.settings.testPath rel) = .ok text)
    (ctx.settings.testsIn X) texts
  content : Y.content? (base ++ ["min", "tests.js"]) = some (Text.encode (Text.unlines texts))
  joined : Y.readText ctx.settings.joinedTests = .ok (Text.unlines texts)
  others : ∀ l, l ≠ base ++ ["min", "tests.js"] → Y.get? l = X.get? l ∨
    l = base ++ ["min"] ∧ X.get? l = none ∧ Y.get? l = some .directory

theorem delivered_of_write (usual : ctx.storage = .disk) (links : s.disk.LinkFree) {text : String}
    (h : (ctx.write p text).Gives s () t) : s.disk.Delivered p (Text.encode text) t.disk := by
  simp only [write, gives_bind_iff, gives_note_iff, gives_alter_iff, usual] at h
  obtain ⟨-, _, rfl, hr, rfl⟩ := h
  exact links.delivered_of_write (Prod.ext hr rfl)

theorem heading?_joinedTests {X : Disk} {base : Location} {b : Bool} (links : X.LinkFree)
    (hdir : X.find true (ctx.settings.formatDir .umd) = .ok ⟨base, some .directory, b⟩) :
    X.heading? ctx.settings.joinedTests = some (base ++ ["min", "tests.js"]) := by
  have hplain : Path.Plain "min/tests.js" := Pipeline.plain_min Pipeline.simple_tests
  have hnames : Path.names (Text.cut '/' "min/tests.js") = ["min", "tests.js"] :=
    Pipeline.names_min Pipeline.simple_tests
  have hplace := Disk.heading?_join ((Disk.Grown.refl X fun _ => False).heading?_of_find hdir)
    (fun l _ _ => links l) hplain
  rwa [hnames] at hplace

theorem testsJoined_of_write {X Y : Disk} {base : Location} {b : Bool} (links : X.LinkFree)
    (hdir : X.find true (ctx.settings.formatDir .umd) = .ok ⟨base, some .directory, b⟩)
    (htexts : List.Forall₂ (fun rel text => X.readText (ctx.settings.testPath rel) = .ok text)
      (ctx.settings.testsIn X) texts)
    (hdelivered : X.Delivered ctx.settings.joinedTests (Text.encode (Text.unlines texts)) Y) :
    ctx.TestsJoined X Y base texts := by
  obtain ⟨loc, hheads, hcontent, ⟨e, b', hfind⟩, hothers⟩ := hdelivered
  rw [heading?_joinedTests links hdir, Option.some.injEq] at hheads
  rw [← hheads] at hcontent hfind hothers
  refine ⟨⟨b, hdir⟩, htexts, hcontent, Disk.readText_of_content? hfind hcontent, fun l hl => ?_⟩
  rcases hothers l hl with hsame | hmade
  · exact .inl hsame
  · exact .inr ⟨Disk.eq_min_of_onWay links hdir hmade.onWay hmade.missing, hmade.missing, hmade.made⟩

theorem tests_gives (usual : ctx.storage = .disk) (s : BuildState) :
    (ctx.expand (ctx.settings.formatDir .umd) builtTests).Gives s
      ((ctx.settings.testsIn s.disk).map Disk.relativePath)
      { s with log := s.log ++ [.expand (ctx.settings.formatDir .umd) builtTests] } :=
  (expand_gives_iff usual).2 ⟨s.disk.expand_builtTests _, rfl⟩

/-- Where there are no tests, none are joined. -/
theorem concatTests_idle (usual : ctx.storage = .disk) (h : ctx.settings.testsIn s.disk = []) :
    ctx.concatTests.Gives s none
      { s with log := s.log ++ [.expand (ctx.settings.formatDir .umd) builtTests] } := by
  have hfiles := tests_gives usual s
  rw [h] at hfiles
  exact hfiles.bind (gives_pure none _)

/-- Where there are tests, the path of the joined ones is what joining them gives. -/
theorem concatTests_gives (usual : ctx.storage = .disk) (links : s.disk.LinkFree)
    (hne : ctx.settings.testsIn s.disk ≠ []) (h : ctx.concatTests.Gives s found t) :
    found = some ctx.settings.joinedTests ∧ ∃ base texts, ctx.TestsJoined s.disk t.disk base texts ∧
      s.disk.Wrote ctx.settings.joinedTests (base ++ ["min", "tests.js"])
        (Text.encode (Text.unlines texts)) t.disk := by
  obtain ⟨files, u, hfiles, h⟩ := gives_bind_iff.1 h
  obtain ⟨he, rfl⟩ := expand_gives usual hfiles
  rw [Disk.expand_builtTests, ← Settings.testsIn] at he
  cases he
  obtain ⟨rel, rels, htests⟩ := List.exists_cons_of_ne_nil hne
  obtain ⟨base, b, hdir, -⟩ := Disk.mem_tests_iff.1 (htests ▸ List.mem_cons_self)
  -- With a first test the run goes on to read them all, and then to write.
  rw [htests] at h
  obtain ⟨texts, v, hreads, h⟩ := gives_bind_iff.1 h
  obtain ⟨⟨⟩, w, hwrite, h⟩ := gives_bind_iff.1 h
  obtain ⟨rfl, rfl⟩ := gives_pure_iff.1 h
  obtain ⟨hdisk, htexts⟩ := Bundled.readTexts_gives usual hreads
  rw [← htests, List.forall₂_map_left_iff] at htexts
  have hdelivered := delivered_of_write usual (hdisk ▸ links) hwrite
  obtain ⟨⟨loc, hwrote⟩, -⟩ := write_gives usual hwrite
  simp only [hdisk] at hwrote hdelivered
  have hheads := hwrote.heading? (.refl s.disk fun _ => False)
  rw [← Settings.joinedTests, heading?_joinedTests links hdir, Option.some.injEq] at hheads
  rw [← hheads] at hwrote
  exact ⟨rfl, base, texts, testsJoined_of_write links hdir htexts hdelivered, hwrote⟩

/-- The joined tests hold what would be written to them. -/
theorem TestsJoined.write_same {X Y : Disk} {base : Location} (h : ctx.TestsJoined X Y base texts)
    (links : X.LinkFree) (hw : X.Wrote ctx.settings.joinedTests (base ++ ["min", "tests.js"])
      (Text.encode (Text.unlines texts)) Y) :
    Storage.disk.write ctx.settings.joinedTests (Text.unlines texts) Y = (.ok (), Y) := by
  have hmin := Pipeline.simple_min
  have hjoin : ctx.settings.joinedTests = ((ctx.settings.formatDir .umd).join "min").join "tests.js" :=
    (Path.join_join _ hmin Pipeline.simple_tests.plain).symm
  obtain ⟨front, -, hpieces⟩ := (ctx.settings.formatDir .umd).pieces_join hmin.relative
  rw [hmin.cut] at hpieces
  obtain ⟨e, b, hf⟩ := hw.find
  have hlinks := ((Disk.Grown.refl X fun _ => True).wrote hw trivial).linkFree links
  rw [hjoin] at hf ⊢
  exact Disk.write_same hlinks hpieces hmin.notIdle Pipeline.simple_tests hf h.content

theorem gives_write (usual : ctx.storage = .disk) {text : String} {X : Disk}
    (h : Storage.disk.write p text s.disk = (.ok (), X)) :
    (ctx.write p text).Gives s () { s with disk := X, log := s.log ++ [.write p] } := by
  rw [← usual] at h
  refine (gives_note (.write p) s).bind (gives_alter_iff.2 ?_)
  simp only [h, true_and]

/-- Joining the tests once more gives the same and changes nothing. -/
theorem concatTests_again (usual : ctx.storage = .disk) (links : s.disk.LinkFree)
    (h : ctx.concatTests.Gives s found t) : ∃ u, ctx.concatTests.Gives t found u ∧ u.disk = t.disk := by
  by_cases hne : ctx.settings.testsIn s.disk = []
  · rw [Gives, concatTests_idle usual hne] at h
    cases h
    exact ⟨_, concatTests_idle usual hne, rfl⟩
  · obtain ⟨rfl, base, texts, hjoined, hwrote⟩ := concatTests_gives usual links hne h
    obtain ⟨b, hdir⟩ := hjoined.place
    -- The file that was written is not among the tests, so the same tests are found with the same texts.
    have hfiles := (expand_gives_iff usual).2 ⟨hwrote.expand_builtTests hdir, rfl⟩
    have hreads := ((List.forall₂_and_left _ _).2 ⟨fun _ hrel => hrel, hjoined.reads⟩).imp
      fun rel text hrel => hwrote.readText_test links hdir hrel.1 hrel.2
    have htexts := @gives_readTexts ctx
      { t with log := t.log ++ [.expand (ctx.settings.formatDir .umd) builtTests] } _ _ _ usual
      (List.forall₂_map_left_iff.2 hreads)
    have hwrite := hjoined.write_same links hwrote
    obtain ⟨rel, rels, htests⟩ := List.exists_cons_of_ne_nil hne
    rw [← Settings.testsIn, htests] at hfiles
    rw [htests] at htexts
    refine ⟨_, hfiles.bind (htexts.bind (Gives.bind (gives_write (X := t.disk) usual ?_)
      (gives_pure (some ctx.settings.joinedTests) _))), rfl⟩
    exact hwrite

/-- If some test cannot be read, joining the tests fails for the first such one. Nothing is done but that the
tests up to that one are looked at. -/
theorem concatTests_unreadable (usual : ctx.storage = .disk)
    (h : ∃ rel ∈ ctx.settings.testsIn s.disk, ∀ text, s.disk.readText (ctx.settings.testPath rel) ≠ .ok text) :
    ∃ front rel back fault, ctx.settings.testsIn s.disk = front ++ rel :: back ∧
      (∀ r ∈ front, ∃ text, s.disk.readText (ctx.settings.testPath r) = .ok text) ∧
      s.disk.readText (ctx.settings.testPath rel) = .error fault ∧
      ctx.concatTests.run.run s =
        (.error (.failed (.ofDisk (.reading (ctx.settings.testPath rel)) fault)),
          { s with log := s.log ++ .expand (ctx.settings.formatDir .umd) builtTests ::
            (front ++ [rel]).map fun r => .read (ctx.settings.testPath r) }) := by
  have hfiles := tests_gives usual s
  obtain ⟨bad, hbad, hunread⟩ := h
  obtain ⟨rel', rels, htests⟩ := List.exists_cons_of_ne_nil (List.ne_nil_of_mem hbad)
  obtain ⟨front, file, back, fault, hsplit, hfront, hfile, hrun⟩ := @run_readTexts_error ctx
    { s with log := s.log ++ [.expand (ctx.settings.formatDir .umd) builtTests] }
    (ctx.settings.formatDir .umd) _ usual
    ⟨Disk.relativePath bad, List.mem_map_of_mem hbad, hunread⟩
  obtain ⟨front, tail, hsplit', rfl, htail⟩ := List.map_eq_append_iff.1 hsplit
  obtain ⟨rel, back, rfl, rfl, rfl⟩ := List.map_eq_cons_iff.1 htail
  refine ⟨front, rel, back, fault, hsplit', fun r hr => hfront _ (List.mem_map_of_mem hr), hfile, ?_⟩
  rw [htests] at hfiles hrun
  refine (run_bind_of_ok hfiles).trans ((run_bind_of_error hrun).trans ?_)
  simp only [List.append_assoc, List.cons_append, List.nil_append, List.map_append, List.map_map, List.map_cons,
    List.map_nil]
  rfl

/-- What joining the tests does in a tree without links. The tests are the scripts in the directory of tests
below that of the wrapped bundles. If there are none, nothing is given and nothing changes. If one of them
cannot be read, joining fails for the first such one, and nothing changes. And whenever it gives something,
the joined tests have been written and nothing else, and joining them once more gives the same and changes
nothing. -/
theorem concatTests_joins (usual : ctx.storage = .disk) (links : s.disk.LinkFree) :
    s.disk.expand (ctx.settings.formatDir .umd) builtTests =
      .ok ((ctx.settings.testsIn s.disk).map Disk.relativePath) ∧
    (∀ rel, rel ∈ ctx.settings.testsIn s.disk ↔
      ∃ base b, s.disk.find true (ctx.settings.formatDir .umd) = .ok ⟨base, some .directory, b⟩ ∧
        Disk.isBelow ["test"] rel = true ∧ (s.disk.content? (base ++ rel)).isSome = true ∧
        Disk.IsScript rel = true) ∧
    (ctx.settings.testsIn s.disk = [] → ∃ t, ctx.concatTests.Gives s none t ∧ t.disk = s.disk) ∧
    (∀ found t, ctx.concatTests.Gives s found t →
      (ctx.settings.testsIn s.disk ≠ [] → found = some ctx.settings.joinedTests ∧
        ∃ base texts, ctx.TestsJoined s.disk t.disk base texts) ∧
      ∃ u, ctx.concatTests.Gives t found u ∧ u.disk = t.disk) ∧
    ((∃ rel ∈ ctx.settings.testsIn s.disk, ∀ text,
        s.disk.readText (ctx.settings.testPath rel) ≠ .ok text) →
      ∃ front rel back fault t, ctx.settings.testsIn s.disk = front ++ rel :: back ∧
        (∀ r ∈ front, ∃ text, s.disk.readText (ctx.settings.testPath r) = .ok text) ∧
        s.disk.readText (ctx.settings.testPath rel) = .error fault ∧
        ctx.concatTests.run.run s =
          (.error (.failed (.ofDisk (.reading (ctx.settings.testPath rel)) fault)), t) ∧
        t.disk = s.disk) := by
  refine ⟨s.disk.expand_builtTests _, fun rel => Disk.mem_tests_iff,
    fun hnone => ⟨_, concatTests_idle usual hnone, rfl⟩, fun found t h => ⟨fun hne => ?_, ?_⟩, fun h => ?_⟩
  · obtain ⟨hfound, base, texts, hjoined, -⟩ := concatTests_gives usual links hne h
    exact ⟨hfound, base, texts, hjoined⟩
  · exact concatTests_again usual links h
  · obtain ⟨front, rel, back, fault, hsplit, hfront, hrel, hrun⟩ := concatTests_unreadable usual h
    exact ⟨front, rel, back, fault, _, hsplit, hfront, hrel, hrun, rfl⟩

end Context

/-- The built test of the small project, another one that is no text, and older joined tests. -/
def Disk.withUnreadable : Disk :=
  ((withTests.set ["o", "umd", "test", "c.js"] (.file ⟨#[255]⟩ false)).set ["o", "umd", "min"] .directory).set
    ["o", "umd", "min", "tests.js"] (.file (Text.encode "old") false)

namespace Context

open Build

theorem concatTests_joins_small :
    let ctx := small .withTests "b"
    ctx.storage = .disk ∧ Disk.withTests.LinkFree ∧ Disk.withUnreadable.LinkFree ∧
      ctx.settings.testsIn .withTests = [["test", "b.js"]] ∧
      (∃ t base texts u, ctx.concatTests.Gives (.fresh .withTests) (some ctx.settings.joinedTests) t ∧
        ctx.TestsJoined .withTests t.disk base texts ∧
        ctx.concatTests.Gives t (some ctx.settings.joinedTests) u ∧ u.disk = t.disk) ∧
      ∃ stop t, ctx.concatTests.run.run (.fresh .withUnreadable) = (.error stop, t) ∧
        t.disk = .withUnreadable := by
  intro ctx
  have links : Disk.withTests.LinkFree := Disk.linkFree_of_entries (by decide +kernel)
  have links' : Disk.withUnreadable.LinkFree := Disk.linkFree_of_entries (by decide +kernel)
  have htests : ctx.settings.testsIn .withTests = [["test", "b.js"]] := by decide +kernel
  obtain ⟨t, ht⟩ : ∃ t, ctx.concatTests.Gives (.fresh .withTests) (some ctx.settings.joinedTests) t :=
    ⟨_, gives_of_run (by decide +kernel)⟩
  obtain ⟨-, -, -, hjoins, -⟩ := @concatTests_joins ctx (.fresh .withTests) rfl links
  obtain ⟨hjoined, u, hu, hsame⟩ := hjoins _ t ht
  obtain ⟨-, base, texts, hjoined⟩ := hjoined (htests ▸ List.cons_ne_nil _ _)
  obtain ⟨-, -, -, -, hfails⟩ := @concatTests_joins ctx (.fresh .withUnreadable) rfl links'
  have hunread : ∃ rel ∈ ctx.settings.testsIn Disk.withUnreadable, ∀ text,
      Disk.withUnreadable.readText (ctx.settings.testPath rel) ≠ .ok text := by
    refine ⟨["test", "c.js"], by decide +kernel, fun text hread => ?_⟩
    have hnone : (Disk.withUnreadable.readText (ctx.settings.testPath ["test", "c.js"])).toOption = none := by
      decide +kernel
    rw [hread] at hnone
    cases hnone
  obtain ⟨_, _, _, _, t', -, -, -, hrun, hdisk⟩ := hfails hunread
  exact ⟨rfl, links, links', htests, ⟨t, base, texts, u, ht, hjoined, hu, hsame⟩, _, t', hrun, hdisk⟩

end Context

end LocaleForge
