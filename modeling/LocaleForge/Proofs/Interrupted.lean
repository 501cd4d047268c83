import LocaleForge.Proofs.StagingArea

/-!
Staging areas that are left unfinished. Copying stops at the first failure, and what has been copied by then stays.
Whether there is a staging area is told by its directory alone, so the next run takes what is there as it is, and
copies again only where nothing is.
-/

namespace LocaleForge

/-- A store that works on the tree of files as the usual one does, but in which listing and copying may fail at any
point. What is left by a copy that fails are new directories and perhaps a part of the file. -/
structure Storage.Fallible (st : Storage) : Prop where
  hasEntry : ∀ p d, st.hasEntry p d = d.exists? p
  expand : ∀ root pattern d, st.expand root pattern d = disk.expand root pattern d ∨
    ∃ f, st.expand root pattern d = .error f
  copy : ∀ source target d, st.copy source target d = disk.copy source target d ∨
    ∃ f d', st.copy source target d = (.error f, d') ∧
      (d.Extends d' ∧ d'.workDir = d.workDir ∨ ∃ loc content, d.Wrote target loc content d')

theorem Storage.fallible_disk : disk.Fallible where
  hasEntry _ _ := rfl
  expand _ _ _ := .inl rfl
  copy _ _ _ := .inl rfl

theorem Storage.Fallible.copy_cases {st : Storage} (h : st.Fallible) {source target : Path} {d d' : Disk}
    {r : Except Failure Unit} (hr : st.copy source target d = (r, d')) :
    (r = .ok () ∧ disk.copy source target d = (.ok (), d')) ∨
      ((∃ f, r = .error f) ∧
        (d.Extends d' ∧ d'.workDir = d.workDir ∨ ∃ loc content, d.Wrote target loc content d')) := by
  rcases h.copy source target d with husual | ⟨f, d'', hfails, hleft⟩
  · rw [husual] at hr
    cases r with
    | ok u => exact .inl ⟨rfl, hr⟩
    | error f => exact .inr ⟨⟨f, rfl⟩, (Disk.touched_of_copy hr).cases⟩
  · rw [hfails] at hr
    cases hr
    exact .inr ⟨⟨f, rfl⟩, hleft⟩

namespace Disk

variable {d X Y : Disk} {root p : Path} {src tmp rel l loc : Location} {done tried : List Location}
  {content : ByteArray} {b : Bool}

/-- The sources and the staging area have places apart from each other, and no link lies below the second one. -/
structure Stands (d : Disk) (s : Settings) (src tmp : Location) : Prop where
  srcHeads : d.heading? s.srcDir = some src
  tmpHeads : d.heading? s.tmpDir = some tmp
  apart : Apart src tmp
  noLinks : ∀ l, tmp <+: l → l ≠ tmp → ∀ target, d.get? l ≠ some (.link target)

/-- The scripts below the path are those of the other tree. -/
structure SameScripts (d : Disk) (root : Path) (src : Location) (X : Disk) : Prop where
  scripts : X.scripts root = d.scripts root
  content : ∀ rel ∈ d.scripts root, X.content? (src ++ rel) = d.content? (src ++ rel)

/-- Each script below the one directory is found at the same place below the other one. -/
def Supplies (d : Disk) (root : Path) (src tmp : Location) (Y : Disk) : Prop :=
  ∀ rel ∈ d.scripts root,
    (d.content? (src ++ rel)).isSome = true ∧ Y.content? (tmp ++ rel) = d.content? (src ++ rel)

/-- Where nothing is, nothing lies below. -/
theorem Stands.of_absent {s : Settings} (srcHeads : d.heading? s.srcDir = some src)
    (tmpHeads : d.heading? s.tmpDir = some tmp) (apart : Apart src tmp) (free : d.get? tmp = none) :
    d.Stands s src tmp where
  srcHeads := srcHeads
  tmpHeads := tmpHeads
  apart := apart
  noLinks l hl hne target hx := by
    rw [get?_eq_none_of_isBelow (isBelow_iff.2 ⟨hl, hne⟩) (by simp [free])] at hx
    cases hx

theorem Stands.grown {region : Location → Prop} {s : Settings} (h : d.Stands s src tmp)
    (hg : d.Grown region X) : X.Stands s src tmp where
  srcHeads := (hg.sameLinks.heading?_eq _).trans h.srcHeads
  tmpHeads := (hg.sameLinks.heading?_eq _).trans h.tmpHeads
  apart := h.apart
  noLinks l hl hne target hx := h.noLinks l hl hne target (hg.sameLinks.link_iff.1 hx)

/-- What is found as a script heads to where it lies: the entries above it are directories. -/
theorem heading?_join_script (heads : d.heading? root = some src) (h : rel ∈ d.scripts root) :
    d.heading? (root.join (relativePath rel)) = some (src ++ rel) := by
  have hinside := inside_of_mem_scripts h
  obtain ⟨content, hc⟩ := Option.isSome_iff_exists.1 (isSome_content?_of_mem_scripts heads h)
  obtain ⟨x, hg⟩ := get?_of_content? hc
  have hjoin := heading?_join_straight heads hinside.plain fun l _ _ hl target hlink => by
    rw [hinside.names] at hl
    by_cases hsame : src ++ rel = l
    · rw [← hsame, hg] at hlink
      cases hlink
    · rw [get?_of_isBelow (isBelow_iff.2 ⟨hl, hsame⟩) hg] at hlink
      cases hlink
  rwa [hinside.names] at hjoin

theorem Grown.scripts_eq {region : Location → Prop} (hg : d.Grown region X)
    (hf : d.find true root = .ok ⟨src, some .directory, b⟩)
    (hfiles : ∀ rel, X.content? (src ++ rel) = d.content? (src ++ rel)) :
    X.scripts root = d.scripts root := by
  obtain ⟨e, hlike, hf'⟩ := hg.keeps.find hf
  obtain rfl := hlike.eq_of_not_isFile rfl
  have hmem : ∀ rel, rel ∈ X.scripts root ↔ rel ∈ d.scripts root := fun rel => by
    rw [mem_scripts_iff hf, mem_scripts_iff hf', hfiles]
  -- Both lists are sorted, so it is enough that they have the same members.
  have hperm := (List.perm_ext_iff_of_nodup (nodup_scripts X root) (nodup_scripts d root)).2 hmem
  exact hperm.eq_of_pairwise (fun _ _ _ _ hab hba => absurd (List.lt_trans hab hba) (List.lt_irrefl _))
    (sorted_scripts X root) (sorted_scripts d root)

/-! ## Trees with a part of the copies -/

/-- A tree in which the files `done` have been copied from one directory to another, the one that a path heads to.
Other files have been changed only where the copies `tried` were to be made. -/
structure Partly (d : Disk) (p : Path) (src tmp : Location) (done tried : List Location) (Y : Disk) :
    Prop where
  grown : d.Grown (tmp <+: ·) Y
  copies : ∀ rel ∈ done, Y.content? (tmp ++ rel) = d.content? (src ++ rel)
  others : ∀ l, (∀ rel ∈ tried, l ≠ tmp ++ rel) → Y.content? l = d.content? l
  found : done ≠ [] → p.text ≠ "" → Y.exists? p = true

theorem Partly.start (d : Disk) (p : Path) (src tmp : Location) : d.Partly p src tmp [] [] d where
  grown := .refl d _
  copies _ h := absurd h List.not_mem_nil
  others _ _ := rfl
  found h := absurd rfl h

theorem Partly.sameScripts (h : d.Partly p src tmp done tried X) (heads : d.heading? root = some src)
    (apart : Apart src tmp) (hrel : rel ∈ d.scripts root) : d.SameScripts root src X := by
  obtain ⟨b, hf⟩ := find_of_mem_scripts heads hrel
  have hfiles : ∀ rel, X.content? (src ++ rel) = d.content? (src ++ rel) := fun rel =>
    h.others _ fun r _ he =>
      apart.not_above (List.prefix_append src rel) (he ▸ List.prefix_append tmp r)
  exact ⟨h.grown.scripts_eq hf hfiles, fun rel _ => hfiles rel⟩

theorem Partly.more (h : d.Partly p src tmp done done X) (apart : Apart src tmp) (hrel : Inside rel)
    (hw : X.Wrote (p.join (relativePath rel)) (tmp ++ rel) content Y)
    (hcontent : X.content? (src ++ rel) = some content) :
    d.Partly p src tmp (done ++ [rel]) (done ++ [rel]) Y := by
  obtain ⟨hcopies, hothers⟩ := hw.adds_copy apart hcontent h.copies h.others
  exact ⟨h.grown.wrote hw (List.prefix_append tmp rel), hcopies, hothers, fun _ named =>
    hw.exists?_above hrel.plain.relative named⟩

theorem Partly.fail (h : d.Partly p src tmp done done X) (hnew : rel ∉ done)
    (hp : d.heading? (p.join (relativePath rel)) = some (tmp ++ rel))
    (hleft : X.Extends Y ∧ Y.workDir = X.workDir ∨
      ∃ loc content, X.Wrote (p.join (relativePath rel)) loc content Y) :
    d.Partly p src tmp done (done ++ [rel]) Y := by
  have hothers : ∀ l, (∀ r ∈ done ++ [rel], l ≠ tmp ++ r) → X.content? l = d.content? l :=
    fun l hl => h.others l fun r hr => hl r (List.mem_append_left _ hr)
  rcases hleft with ⟨hext, hdir⟩ | ⟨loc, content, hw⟩
  · exact {
      grown := h.grown.extends hext hdir
      copies := fun r hr => (content?_extends hext _).trans (h.copies r hr)
      others := fun l hl => (content?_extends hext l).trans (hothers l hl)
      found := fun hne named => (hext.keeps hdir).exists? (h.found hne named) }
  · -- The part that is left lies where the path headed at the start, and that is where no copy lies yet.
    obtain rfl := Option.some.inj (hp.symm.trans (hw.heading? h.grown))
    refine ⟨h.grown.wrote hw (List.prefix_append tmp rel), fun r hr => ?_, fun l hl => ?_,
      fun hne named => hw.keeps.exists? (h.found hne named)⟩
    · have hother : tmp ++ r ≠ tmp ++ rel := fun he => hnew (List.append_cancel_left he ▸ hr)
      rw [hw.content?, if_neg hother]
      exact h.copies r hr
    · rw [hw.content?, if_neg (hl rel (by simp))]
      exact hothers l hl

/-- What is left when copying fails after some of the scripts: their copies, perhaps a part of the next one, and
nothing of the others. -/
structure HalfMade (d : Disk) (s : Settings) (src tmp : Location) (k : Nat) (Y : Disk) : Prop where
  fewer : k < (d.scripts s.srcDir).length
  partly : d.Partly s.tmpDir src tmp ((d.scripts s.srcDir).take k) ((d.scripts s.srcDir).take (k + 1)) Y
  missing : d.get? tmp = none → ∀ rel ∈ (d.scripts s.srcDir).drop (k + 1), Y.content? (tmp ++ rel) = none

theorem Partly.halfMade {s : Settings} {k : Nat} (hk : k < (d.scripts s.srcDir).length)
    (h : d.Partly s.tmpDir src tmp ((d.scripts s.srcDir).take k) ((d.scripts s.srcDir).take (k + 1)) Y) :
    d.HalfMade s src tmp k Y where
  fewer := hk
  partly := h
  missing hfree rel hrel := by
    have hinside := inside_of_mem_scripts (List.mem_of_mem_drop hrel)
    have hnodup := nodup_scripts d s.srcDir
    rw [← List.take_append_drop (k + 1) (d.scripts s.srcDir)] at hnodup
    rw [h.others _ fun r hr he =>
      (List.nodup_append.1 hnodup).2.2 r hr rel hrel (List.append_cancel_left he).symm]
    have hbelow := isBelow_iff.2 ⟨List.prefix_append tmp rel, by simpa using hinside.notEmpty⟩
    rw [Disk.content?, get?_eq_none_of_isBelow hbelow (by simp [hfree])]

end Disk

namespace Context

open Build

variable {ctx ctx' : Context} {s t u : BuildState} {n : Nat} {src tmp : Location} {d : Disk}

theorem partly_of_copy (store : ctx.storage.Fallible) (stands : d.Stands ctx.settings src tmp)
    {done : List Location} {rel : Location} (hrel : rel ∈ d.scripts ctx.settings.srcDir) (hnew : rel ∉ done)
    (hd : d.Partly ctx.settings.tmpDir src tmp done done s.disk) {r : Except Stop Unit}
    (h : (ctx.copy (ctx.settings.srcDir.join (Disk.relativePath rel))
      (ctx.settings.tmpDir.join (Disk.relativePath rel))).run.run s = (r, t)) :
    (r = .ok () ∧ d.Partly ctx.settings.tmpDir src tmp (done ++ [rel]) (done ++ [rel]) t.disk) ∨
      ((∃ e, r = .error e) ∧ d.Partly ctx.settings.tmpDir src tmp done (done ++ [rel]) t.disk) := by
  have hinside := Disk.inside_of_mem_scripts hrel
  have hsource := Disk.heading?_join_script stands.srcHeads hrel
  have htarget := Disk.heading?_join stands.tmpHeads stands.noLinks hinside.plain
  rw [hinside.names] at htarget
  rw [run_copy] at h
  rcases hc : ctx.storage.copy (ctx.settings.srcDir.join (Disk.relativePath rel))
    (ctx.settings.tmpDir.join (Disk.relativePath rel)) s.disk with ⟨c, Y⟩
  rw [hc] at h
  cases h
  rcases store.copy_cases hc with ⟨rfl, husual⟩ | ⟨⟨f, rfl⟩, hleft⟩
  · have hne : tmp ++ rel ≠ src ++ rel := fun he =>
      stands.apart.not_above (he ▸ List.prefix_append src rel) (List.prefix_append tmp rel)
    obtain ⟨content, hw, hcontent⟩ := hd.grown.wrote_of_copied husual hsource htarget hne
    exact .inl ⟨rfl, hd.more stands.apart hinside hw hcontent⟩
  · exact .inr ⟨⟨_, rfl⟩, hd.fail hnew htarget hleft⟩

/-- Scripts are copied in turn. A failure leaves the copies that were made before, and perhaps a part of one more. -/
theorem partly_of_stage (store : ctx.storage.Fallible) (stands : d.Stands ctx.settings src tmp)
    {done rels : List Location} (hall : done ++ rels = d.scripts ctx.settings.srcDir)
    (hd : d.Partly ctx.settings.tmpDir src tmp done done s.disk) {r : Except Stop Unit}
    (h : (ctx.stage (rels.map Disk.relativePath)).run.run s = (r, t)) :
    (r = .ok () ∧ d.Partly ctx.settings.tmpDir src tmp (done ++ rels) (done ++ rels) t.disk) ∨
      ((∃ e, r = .error e) ∧ ∃ k < (done ++ rels).length,
        d.Partly ctx.settings.tmpDir src tmp ((done ++ rels).take k) ((done ++ rels).take (k + 1)) t.disk) := by
  -- `done` grows by what is copied; that it comes before the rest keeps a script from being copied twice.
  induction rels generalizing s done with
  | nil =>
    cases h
    rw [List.append_nil]
    exact .inl ⟨rfl, hd⟩
  | cons rel rels ih =>
    have hmem : rel ∈ d.scripts ctx.settings.srcDir := hall ▸ (by simp)
    have hnew : rel ∉ done := by
      have hnodup := hall ▸ Disk.nodup_scripts d ctx.settings.srcDir
      exact fun hdone => (List.nodup_append.1 hnodup).2.2 rel hdone rel List.mem_cons_self rfl
    have hfirst : (done ++ rel :: rels).take done.length = done := List.take_left
    have hnext : (done ++ rel :: rels).take (done.length + 1) = done ++ [rel] := by
      rw [List.take_length_add_append]
      rfl
    rw [List.map_cons, stage_cons, run_bind] at h
    rcases hc : (ctx.copy (ctx.settings.srcDir.join (Disk.relativePath rel))
      (ctx.settings.tmpDir.join (Disk.relativePath rel))).run.run s with ⟨c, u⟩
    rw [hc] at h
    rcases partly_of_copy store stands hmem hnew hd hc with ⟨rfl, hmore⟩ | ⟨⟨e, rfl⟩, hleft⟩
    · have hrest := ih (by rw [List.append_assoc]; exact hall) hmore h
      rwa [List.append_assoc] at hrest
    · cases h
      refine .inr ⟨⟨e, rfl⟩, done.length, by simp, ?_⟩
      rwa [hfirst, hnext]

/-! ## Preparing the staging area -/

theorem partly_of_prepareStaging (store : ctx.storage.Fallible) (stands : s.disk.Stands ctx.settings src tmp)
    (absent : s.disk.exists? ctx.settings.tmpDir = false) {r : Except Stop Nat}
    (h : ctx.prepareStaging.run.run s = (r, t)) :
    let scripts := s.disk.scripts ctx.settings.srcDir
    (r = .ok scripts.length ∧ s.disk.Partly ctx.settings.tmpDir src tmp scripts scripts t.disk) ∨
      ((∃ e, r = .error e) ∧ (t.disk = s.disk ∨ ∃ k < scripts.length,
        s.disk.Partly ctx.settings.tmpDir src tmp (scripts.take k) (scripts.take (k + 1)) t.disk)) := by
  intro scripts
  rw [run_prepareStaging_of_absent ((store.hasEntry _ _).trans absent)] at h
  have hexpand := run_expand ctx ctx.settings.srcDir stagedPattern s
  generalize hs' : ({ s with log := s.log ++ [.expand ctx.settings.srcDir stagedPattern] } : BuildState) = s'
    at hexpand
  rcases store.expand ctx.settings.srcDir stagedPattern s.disk with husual | ⟨f, hfails⟩
  · have hfiles : Storage.disk.expand ctx.settings.srcDir stagedPattern s.disk =
        .ok (scripts.map Disk.relativePath) := by
      change ((s.disk.expand ctx.settings.srcDir stagedPattern).mapError _) = _
      rw [Disk.expand_stagedPattern]
      rfl
    rw [husual, hfiles] at hexpand
    rw [run_bind_of_ok hexpand] at h
    rcases hs : (ctx.stage (scripts.map Disk.relativePath)).run.run s' with ⟨c, u⟩
    have hstart : s.disk.Partly ctx.settings.tmpDir src tmp [] [] s'.disk :=
      hs' ▸ .start s.disk ctx.settings.tmpDir src tmp
    rcases partly_of_stage store stands rfl hstart hs with ⟨rfl, hall⟩ | ⟨⟨e, rfl⟩, hsome⟩
    · rw [run_bind_of_ok hs, run_pure, List.length_map] at h
      cases h
      exact .inl ⟨rfl, hall⟩
    · rw [run_bind_of_error hs] at h
      cases h
      exact .inr ⟨⟨e, rfl⟩, .inr hsome⟩
  · rw [hfails] at hexpand
    rw [run_bind_of_error hexpand] at h
    cases h
    exact .inr ⟨⟨_, rfl⟩, .inl (hs' ▸ rfl)⟩

theorem supplies_of_prepareStaging (store : ctx.storage.Fallible) (stands : s.disk.Stands ctx.settings src tmp)
    (absent : s.disk.exists? ctx.settings.tmpDir = false) (heads : d.heading? ctx.settings.srcDir = some src)
    (same : d.SameScripts ctx.settings.srcDir src s.disk) (h : ctx.prepareStaging.Gives s n t) :
    n = (d.scripts ctx.settings.srcDir).length ∧ d.Supplies ctx.settings.srcDir src tmp t.disk := by
  rcases partly_of_prepareStaging store stands absent h with ⟨hn, hall⟩ | ⟨⟨e, he⟩, -⟩
  · refine ⟨(Except.ok.inj hn).trans (by rw [same.scripts]), fun rel hrel => ⟨?_, ?_⟩⟩
    · exact Disk.isSome_content?_of_mem_scripts heads hrel
    · exact (hall.copies rel (same.scripts ▸ hrel)).trans (same.content rel hrel)
  · cases he

/-- A run that fails leaves the sources as they were, and it has changed nothing or made the copies that come before the
failure. A later run with the same directories takes a staging area that it finds as it is, whatever it holds. Where
it finds none, it ends well only with a copy of each script, if the sources have not been changed. -/
theorem prepareStaging_interrupted (store : ctx.storage.Fallible) (stands : s.disk.Stands ctx.settings src tmp)
    (absent : s.disk.exists? ctx.settings.tmpDir = false) {stop : Stop}
    (fails : ctx.prepareStaging.run.run s = (.error stop, t)) :
    s.disk.SameScripts ctx.settings.srcDir src t.disk ∧ t.disk.Stands ctx.settings src tmp ∧
    (t.disk = s.disk ∨ ∃ k, s.disk.HalfMade ctx.settings src tmp k t.disk) ∧
    ∀ ctx' : Context, ctx'.storage.Fallible → ctx'.settings.srcDir = ctx.settings.srcDir →
      ctx'.settings.tmpDir = ctx.settings.tmpDir →
      (∀ v, v.disk.exists? ctx.settings.tmpDir = true → ctx'.prepareStaging.Gives v 0 v) ∧
      ∀ v tmp' n w, s.disk.SameScripts ctx.settings.srcDir src v.disk →
        v.disk.Stands ctx.settings src tmp' → v.disk.exists? ctx.settings.tmpDir = false →
        ctx'.prepareStaging.Gives v n w → n = (s.disk.scripts ctx.settings.srcDir).length ∧
          s.disk.Supplies ctx.settings.srcDir src tmp' w.disk := by
  have hleft : t.disk = s.disk ∨ ∃ k, s.disk.HalfMade ctx.settings src tmp k t.disk := by
    rcases partly_of_prepareStaging store stands absent fails with ⟨hok, -⟩ | ⟨-, hsame | ⟨k, hk, hpartly⟩⟩
    · cases hok
    · exact .inl hsame
    · exact .inr ⟨k, hpartly.halfMade hk⟩
  refine ⟨?_, ?_, hleft, fun ctx' store' sameSrc sameTmp => ⟨fun v found => ?_, ?_⟩⟩
  · rcases hleft with hsame | ⟨k, hhalf⟩
    · rw [hsame]
      exact ⟨rfl, fun _ _ => rfl⟩
    · exact hhalf.partly.sameScripts stands.srcHeads stands.apart (List.getElem_mem hhalf.fewer)
  · rcases hleft with hsame | ⟨k, hhalf⟩
    · rw [hsame]
      exact stands
    · exact stands.grown hhalf.partly.grown
  · exact prepareStaging_of_found ((store'.hasEntry _ _).trans (sameTmp ▸ found))
  · intro v tmp' n w same stands' absent' h
    have heads := stands.srcHeads
    rw [← sameSrc] at same heads ⊢
    refine supplies_of_prepareStaging store' ?_ (sameTmp ▸ absent') heads same h
    exact { stands' with
      srcHeads := sameSrc ▸ stands'.srcHeads
      tmpHeads := sameTmp ▸ stands'.tmpHeads }

end Context

/-! ## A failure at the second copy -/

/-- A store whose copies to the path fail. -/
def Storage.blocked (p : Path) : Storage :=
  { disk with
    copy := fun source target d =>
      if target.text = p.text then (.error (.ofDisk (.copying source target) .notFound), d)
      else disk.copy source target d }

theorem Storage.fallible_blocked (p : Path) : (blocked p).Fallible where
  hasEntry _ _ := rfl
  expand _ _ _ := .inl rfl
  copy source target d := by
    by_cases h : target.text = p.text
    · exact .inr ⟨.ofDisk (.copying source target) .notFound, d, if_pos h, .inl ⟨.refl d, rfl⟩⟩
    · exact .inl (if_neg h)

def Disk.further : Disk :=
  Disk.small.set ["src", "z.js"] (.file (Text.encode "z") false)

theorem Disk.stands_further : further.Stands .small ["src"] ["build", "tmp"] :=
  .of_absent (by decide +kernel) (by decide +kernel) (by decide) (by decide +kernel)

theorem Build.fails_of_run {α : Type} {b : Build α} {s : BuildState} (h : (b.run.run s).1.toOption = none) :
    ∃ stop, b.run.run s = (.error stop, (b.run.run s).2) := by
  rcases hr : b.run.run s with ⟨r, t⟩
  rw [hr] at h
  cases r with
  | ok a => cases h
  | error stop => exact ⟨stop, rfl⟩

namespace Context

open Build

def blocked : Context :=
  { small .small "" with storage := .blocked ⟨"/build/tmp/z.js"⟩ }

theorem prepareStaging_interrupted_blocked :
    blocked.storage.Fallible ∧ Disk.further.Stands blocked.settings ["src"] ["build", "tmp"] ∧
    Disk.further.exists? blocked.settings.tmpDir = false ∧
    ∃ stop t w, blocked.prepareStaging.run.run (.fresh .further) = (.error stop, t) ∧
      Disk.further.SameScripts blocked.settings.srcDir ["src"] t.disk ∧
      (t.disk = Disk.further ∨ ∃ k, Disk.further.HalfMade blocked.settings ["src"] ["build", "tmp"] k t.disk) ∧
      (small .small "").prepareStaging.Gives t 0 t ∧
      (small .small "").prepareStaging.Gives (.fresh .further) 2 w ∧
      Disk.further.Supplies blocked.settings.srcDir ["src"] ["build", "tmp"] w.disk := by
  have absent : Disk.further.exists? blocked.settings.tmpDir = false := by decide +kernel
  obtain ⟨stop, fails⟩ := fails_of_run (b := blocked.prepareStaging) (s := .fresh .further) (by decide +kernel)
  have found : (blocked.prepareStaging.run.run (.fresh .further)).2.disk.exists? blocked.settings.tmpDir = true := by
    decide +kernel
  have hgives : (small .small "").prepareStaging.Gives (.fresh .further) 2 _ :=
    gives_of_run (by decide +kernel)
  have store : blocked.storage.Fallible := Storage.fallible_blocked _
  obtain ⟨same, -, hleft, hlater⟩ :=
    prepareStaging_interrupted (s := .fresh .further) store Disk.stands_further absent fails
  obtain ⟨hreuses, hmakes⟩ := hlater (small .small "") Storage.fallible_disk rfl rfl
  have hall := hmakes (.fresh .further) ["build", "tmp"] 2 _ ⟨rfl, fun _ _ => rfl⟩ Disk.stands_further absent hgives
  exact ⟨store, Disk.stands_further, absent, stop, _, _, fails, same, hleft,
    hreuses _ found, hgives, hall.2⟩

/-- The staging area with one of two copies is taken as it is, and a script of the sources has no copy there. -/
theorem halfMade_staging_reused : ∃ stop t,
    Disk.further.Stands blocked.settings ["src"] ["build", "tmp"] ∧
    Disk.further.exists? blocked.settings.tmpDir = false ∧
    blocked.prepareStaging.run.run (.fresh .further) = (.error stop, t) ∧
    Disk.further.SameScripts blocked.settings.srcDir ["src"] t.disk ∧
    (small .small "").prepareStaging.Gives t 0 t ∧ ["z.js"] ∈ t.disk.scripts blocked.settings.srcDir ∧
    t.disk.content? ["src", "z.js"] = some (Text.encode "z") ∧ t.disk.content? ["build", "tmp", "z.js"] = none := by
  obtain ⟨stop, fails⟩ := fails_of_run (b := blocked.prepareStaging) (s := .fresh .further) (by decide +kernel)
  have hscripts : Disk.further.scripts blocked.settings.srcDir = [["m.js"], ["z.js"]] := by decide +kernel
  have hsame : Disk.further.SameScripts blocked.settings.srcDir ["src"]
      (blocked.prepareStaging.run.run (.fresh .further)).2.disk := by
    refine ⟨by decide +kernel, ?_⟩
    rw [hscripts]
    decide +kernel
  refine ⟨stop, _, Disk.stands_further, by decide +kernel, fails, hsame, ?_, ?_, by decide +kernel, by decide +kernel⟩
  · exact prepareStaging_of_exists rfl (by decide +kernel)
  · rw [hsame.scripts, hscripts]
    simp

end Context

end LocaleForge
