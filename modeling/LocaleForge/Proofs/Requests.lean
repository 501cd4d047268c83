import LocaleForge.Proofs.Framing
import LocaleForge.Proofs.Inputs
import LocaleForge.Proofs.Layout

/-!
The requests of a build: which entries the bundler is asked for, in which order, and how. The sources
are found while the build runs; where the build leaves them alone they are those of the start.
-/

namespace LocaleForge

open Build

/-! ## Sources that are left alone -/

/-- A path that a bundle of the format is written to. -/
def Settings.Target (s : Settings) (f : Format) (p : Path) : Prop :=
  (s.formatDir f).Beneath p ∨ p = (s.formatDir f).join s.mainEntry

namespace Disk

/-- Neither location is the other one or lies above it. -/
def Apart (l l' : Location) : Prop :=
  ¬ l <+: l' ∧ ¬ l' <+: l

instance (l l' : Location) : Decidable (Apart l l') :=
  inferInstanceAs (Decidable (_ ∧ _))

/-- The tree in which a build of the format finds and makes its files. -/
def cleanedFor (d : Disk) (s : Settings) (f : Format) : Disk :=
  (d.cleared (s.formatDir f)).cleared s.tmpDir

/-- A build of the format leaves the sources alone: they lie apart from what it cleans and from what
it writes, and the path to them does not lead through what it cleans. -/
structure Undisturbed (d : Disk) (s : Settings) (f : Format) (src : Location) : Prop where
  heads : d.heading? s.srcDir = some src
  apart : ∀ p ∈ [s.outDir, s.tmpDir], ∀ l, d.heading? p = some l → Apart l src
  cleanedHeads : (d.cleanedFor s f).heading? s.srcDir = some src
  cleanedApart : ∀ p ∈ [s.formatDir f, s.tmpDir],
    ∀ l, (d.cleanedFor s f).heading? p = some l → Apart l src
  free : ∀ p ∈ [s.formatDir f, s.tmpDir], (d.cleanedFor s f).Free p
  source : d.get? src = some .directory →
    ∃ b, (d.cleanedFor s f).find true s.srcDir = .ok ⟨src, some .directory, b⟩
  main : ∀ l, (d.cleanedFor s f).heading? ((s.formatDir f).join s.mainEntry) = some l → ¬ src <+: l

variable {d X : Disk} {s : Settings} {f : Format} {src l l' : Location} {pattern : String}

theorem Apart.symm (h : Apart l l') : Apart l' l :=
  ⟨h.2, h.1⟩

theorem Apart.not_above (h : Apart l src) (hl : l <+: l') : ¬ src <+: l' := by
  intro hsrc
  rcases List.prefix_or_prefix_of_prefix hl hsrc with hp | hp
  · exact h.1 hp
  · exact h.2 hp

theorem Apart.below (h : Apart l src) (hl : l <+: l') : Apart l' src :=
  ⟨fun hp => h.1 (hl.trans hp), h.not_above hl⟩

theorem cleanedFor_keeps (d : Disk) (s : Settings) (f : Format) : (d.cleanedFor s f).Keeps d :=
  (cleared_keeps _ s.tmpDir).trans (cleared_keeps d _)

namespace Undisturbed

theorem get?_file_cleanedFor (h : d.Undisturbed s f src) (hl : src <+: l) {content : ByteArray}
    {x : Bool} : (d.cleanedFor s f).get? l = some (.file content x) ↔
      d.get? l = some (.file content x) := by
  rw [cleanedFor]
  -- The second removal works on what the first one has left, but its path heads where it did before.
  refine (get?_file_cleared (cleared_keeps d _) ?_).trans (get?_file_cleared (.refl d) ?_)
  · intro loc e b hf hlink hloc
    have hheads := (Grown.refl d fun _ => False).heading?_of_find
      (find_followed hf fun target he => hlink target (Option.some.inj he))
    exact (h.apart _ (List.mem_cons_of_mem _ List.mem_cons_self) _ hheads).not_above hloc hl
  · intro loc e b hf _ hloc
    have hends := (Grown.refl d fun _ => False).sameLinks.ending?_of_find hf
    rw [Settings.formatDir, ending?_join f.simple_word] at hends
    obtain ⟨out, hout, rfl⟩ := Option.map_eq_some_iff.1 hends
    exact (h.apart _ List.mem_cons_self out hout).not_above ((List.prefix_append out _).trans hloc) hl

/-- Where the bundles are put in the cleaned tree. -/
def Bundled (d : Disk) (s : Settings) (f : Format) (l : Location) : Prop :=
  ∃ p, s.Target f p ∧ (d.cleanedFor s f).heading? p = some l

/-- Where the staged files are put in the cleaned tree. -/
def Staged (d : Disk) (s : Settings) (f : Format) (l : Location) : Prop :=
  ∃ p, s.tmpDir.Beneath p ∧ (d.cleanedFor s f).heading? p = some l

theorem not_below (h : d.Undisturbed s f src) (hl : Bundled d s f l ∨ Staged d s f l) :
    ¬ src <+: l := by
  have hbeneath : ∀ {dir p}, dir ∈ [s.formatDir f, s.tmpDir] → dir.Beneath p →
      (d.cleanedFor s f).heading? p = some l → ¬ src <+: l := by
    rintro dir _ hdir ⟨rel, hrel, rfl⟩ hp
    obtain ⟨base, hbase, rfl⟩ := (h.free dir hdir).heading?_join hrel hp
    exact (h.cleanedApart dir hdir base hbase).not_above (List.prefix_append base _)
  rcases hl with ⟨p, hp | rfl, hheads⟩ | ⟨p, hp, hheads⟩
  · exact hbeneath List.mem_cons_self hp hheads
  · exact h.main l hheads
  · exact hbeneath (List.mem_cons_of_mem _ List.mem_cons_self) hp hheads

/-- What is found among the sources while the build runs was to be found at its start. -/
theorem expand (h : d.Undisturbed s f src)
    (hg : (d.cleanedFor s f).Grown (fun l => Bundled d s f l ∨ Staged d s f l) X) {files : List String}
    (he : X.expand s.srcDir pattern = .ok files) : d.expand s.srcDir pattern = .ok files := by
  refine @expand_of_files _ _ src _ _ _ (fun hf => ?_) (fun hf => ?_) (fun hsrc => ?_)
    (fun _ _ rel _ _ _ content x => ?_) he
  · exact Option.some.inj ((hg.heading?_of_find hf).symm.trans h.cleanedHeads)
  · exact Option.some.inj (((Grown.refl d fun _ => False).heading?_of_find hf).symm.trans h.heads)
  · obtain ⟨b, hf⟩ := h.source hsrc
    obtain ⟨e, hl, hX⟩ := hg.keeps.find hf
    obtain ⟨e', hl', hd⟩ := (d.cleanedFor_keeps s f).find hf
    obtain rfl := hl.eq_of_not_isFile rfl
    obtain rfl := hl'.eq_of_not_isFile rfl
    exact ⟨⟨b, hX⟩, b, hd⟩
  · have hbelow : src <+: src ++ rel := List.prefix_append src rel
    exact (hg.get?_file_iff fun hl => h.not_below hl hbelow).trans (h.get?_file_cleanedFor hbelow)

end Undisturbed

end Disk

/-! ## The requests of a format -/

namespace Request

variable {s : Settings} {f : Format}

end Request

/-- The small project with a pattern for tests that a locale matches as well. -/
def Settings.tested : Settings :=
  { small with testPatterns := ["l/f*"] }

/-- The tree of the small project with a locale. -/
def Disk.tested : Disk :=
  (small.set ["src", "l"] .directory).set ["src", "l", "fr.js"] (.file (Text.encode "f") false)

namespace Context

variable {ctx : Context} {f : Format} {s t : BuildState} {reports : List Report} {src : Location}

end Context

end LocaleForge
