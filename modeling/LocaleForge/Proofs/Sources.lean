import LocaleForge.Proofs.Framing
import LocaleForge.Proofs.Placing
import LocaleForge.Proofs.Safety
import LocaleForge.Proofs.Setting

/-!
The places that a command has to itself. Whatever it comes to, all files elsewhere stay as they are,
the sources among them.
-/

namespace LocaleForge

/-- What can be done to a project. -/
inductive Errand where
  | clean
  | build (f : Format)
  | custom (names : List String)
  | release (plan : ReleasePlan)

namespace Errand

def run (ctx : Context) : Errand → Build Unit
  | clean => ctx.clean
  | build f => do let _ ← ctx.build f
  | custom names => do let _ ← ctx.custom names
  | release plan => do let _ ← ctx.release plan

/-- The directories that are removed or written to. -/
def directories (s : Settings) : Errand → List Path
  | clean => [s.outDir]
  | build f => [s.formatDir f, s.tmpDir]
  | custom _ => [s.formatDir .umd, s.tmpDir]
  | release _ => [s.outDir, s.tmpDir]

/-- Those of the directories that are removed first. -/
def removed (s : Settings) : Errand → List Path
  | clean => [s.outDir]
  | build f => [s.formatDir f, s.tmpDir]
  | custom _ => []
  | release _ => [s.outDir]

/-- The formats that the main entry is bundled in. -/
def formats : Errand → List Format
  | build f => [f]
  | release plan => plan.formats
  | _ => []

/-- The directories that files are written below. -/
def realm (s : Settings) : Errand → List Path
  | clean => [s.outDir]
  | build f => [s.formatDir f, s.tmpDir]
  | custom _ => [(s.formatDir .umd).join "min", s.tmpDir]
  | release _ => [s.outDir, s.tmpDir]

/-- A file below one of these directories, or a bundle of the main entry. -/
def Writes (e : Errand) (s : Settings) (p : Path) : Prop :=
  (∃ dir ∈ e.realm s, dir.Beneath p) ∨ ∃ f ∈ e.formats, p = (s.formatDir f).join s.mainEntry

/-- A place at or below the directories, or one that a bundle of the main entry is written to. -/
def Owns (e : Errand) (s : Settings) (d : Disk) (l : Location) : Prop :=
  (∃ p ∈ e.directories s, ∃ loc, d.heading? p = some loc ∧ loc <+: l) ∨
    ∃ f ∈ e.formats, d.heading? ((s.formatDir f).join s.mainEntry) = some l

variable {ctx : Context} {d : Disk} {e : Errand} {p : Path}

/-- An errand keeps what survives the writing of its files and the removal of its directories. -/
theorem safe {I : BuildState → Prop} (e : Errand)
    (g : ctx.Guards I (e.Writes ctx.settings) (· ∈ e.removed ctx.settings))
    (hprobe : ∀ p s, I s → I { s with disk := (ctx.probe.registered p s.disk).2 }) :
    (e.run ctx).Safe I fun _ => True := by
  have hbelow : ∀ {dir}, dir ∈ e.realm ctx.settings → ∀ {rel}, Path.Plain rel →
      e.Writes ctx.settings (dir.join rel) := by
    intro dir hdir rel hrel
    exact .inl ⟨dir, hdir, hrel.beneath dir⟩
  have hmain : ∀ f ∈ e.formats,
      e.Writes ctx.settings ((ctx.settings.formatDir f).join ctx.settings.mainEntry) :=
    fun f hf => .inr ⟨f, hf, rfl⟩
  cases e with
  | clean => exact g.clean List.mem_cons_self
  | build f =>
    have hf : ctx.settings.formatDir f ∈ (build f).realm ctx.settings := List.mem_cons_self
    have htmp : ctx.settings.tmpDir ∈ (build f).realm ctx.settings :=
      List.mem_cons_of_mem _ List.mem_cons_self
    have hbuild := g.build (hmain f List.mem_cons_self) (hbelow hf) (hbelow htmp) hf htmp
    exact hbuild.bind fun _ _ => Build.safe_pure trivial
  | custom names =>
    have hdir : (ctx.settings.formatDir .umd).join "min" ∈ (custom names).realm ctx.settings :=
      List.mem_cons_self
    have hmin : ∀ {file}, Path.Simple file →
        (custom names).Writes ctx.settings (Pipeline.aggregateTarget ctx.settings .umd file) :=
      fun hfile => hbelow hdir hfile.plain
    have htmp : ctx.settings.tmpDir ∈ (custom names).realm ctx.settings :=
      List.mem_cons_of_mem _ List.mem_cons_self
    exact (g.custom hprobe hmin (hbelow htmp) names).bind fun _ _ => Build.safe_pure trivial
  | release plan =>
    have hout : ctx.settings.outDir ∈ (release plan).realm ctx.settings := List.mem_cons_self
    have htmp : ctx.settings.tmpDir ∈ (release plan).realm ctx.settings :=
      List.mem_cons_of_mem _ List.mem_cons_self
    have hformat : ∀ f {rel}, Path.Plain rel →
        (release plan).Writes ctx.settings ((ctx.settings.formatDir f).join rel) := by
      intro f rel hrel
      rw [Settings.formatDir, Path.join_join _ f.simple_word hrel]
      exact hbelow hout (hrel.below f.simple_word)
    have hrelease := g.release hprobe hmain hformat (hbelow htmp) List.mem_cons_self
    exact hrelease.bind fun _ _ => Build.safe_pure trivial

/-- The errand writes below its directories. -/
theorem beneath_of_realm {dir : Path} (h : dir ∈ e.realm ctx.settings) (hb : dir.Beneath p) :
    ∃ q ∈ e.directories ctx.settings, q.Beneath p := by
  cases e with
  | custom names =>
    rcases List.mem_cons.1 h with rfl | h
    · obtain ⟨rel, hrel, rfl⟩ := hb
      refine ⟨_, List.mem_cons_self, "min" ++ "/" ++ rel, hrel.below Pipeline.simple_min, ?_⟩
      exact Path.join_join _ Pipeline.simple_min hrel
    · exact ⟨dir, List.mem_cons_of_mem _ h, hb⟩
  | clean => exact ⟨dir, h, hb⟩
  | build f => exact ⟨dir, h, hb⟩
  | release plan => exact ⟨dir, h, hb⟩

/-- What is written heads to a place of the errand. -/
theorem owns_of_writes (hfree : ∀ q ∈ e.directories ctx.settings, d.Free q)
    (hp : e.Writes ctx.settings p) (l : Location) (hl : d.heading? p = some l) :
    e.Owns ctx.settings d l := by
  rcases hp with ⟨dir, hdir, hb⟩ | ⟨f, hf, rfl⟩
  · obtain ⟨q, hq, rel, hrel, rfl⟩ := beneath_of_realm hdir hb
    obtain ⟨loc, hloc, rfl⟩ := (hfree q hq).heading?_join hrel hl
    exact .inl ⟨q, hq, loc, hloc, List.prefix_append _ _⟩
  · exact .inr ⟨f, hf, hl⟩

theorem owns_below (hfree : d.Free p) (hdirect : d.ending? p = d.heading? p)
    (hp : p ∈ e.directories ctx.settings) (loc : Location) (hloc : d.ending? p = some loc)
    (l : Location) (hl : loc <+: l) :
    e.Owns ctx.settings d l ∧ ∀ target, d.get? l ≠ some (.link target) := by
  rw [hdirect] at hloc
  exact ⟨.inl ⟨p, hp, loc, hloc, hl⟩, hfree loc hloc l hl⟩

theorem removed_sub (h : p ∈ e.removed ctx.settings) : p ∈ e.directories ctx.settings := by
  cases e with
  | custom names => exact absurd h List.not_mem_nil
  | release plan => exact List.mem_singleton.1 h ▸ List.mem_cons_self
  | clean => exact h
  | build f => exact h

/-- That a tree differs at the errand's places only is something the errand keeps. -/
theorem safe_run (usual : ctx.storage = .disk) (hbundler : ctx.bundler.Quiet)
    (hprobe : ctx.probe.Quiet) (e : Errand) (hfree : ∀ p ∈ e.directories ctx.settings, d.Free p)
    (hdirect : ∀ p ∈ e.removed ctx.settings, d.ending? p = d.heading? p) :
    (e.run ctx).Safe (fun s => d.Framed (e.Owns ctx.settings d) s.disk) fun _ => True := by
  refine e.safe ?_ fun p s hs => by rwa [hprobe p s.disk]
  exact {
    usual := usual
    steady := fun {_ t} hs hdisk _ => by
      change d.Framed _ t.disk
      rwa [hdisk]
    bundler := fun r s hs => by rwa [hbundler r s.disk]
    touched := fun hs _ hp ht => hs.touched (owns_of_writes hfree hp) ht
    cleared := fun {_ p} hs hp => hs.cleared fun loc hloc l hl =>
      owns_below (hfree p (removed_sub hp)) (hdirect p hp) (removed_sub hp) loc hloc l hl }

end Errand

namespace Context

/-- Whether a command succeeds or fails, it changes no file that lies outside its own directories and
is no bundle of the main entry. -/
theorem errand_spares_files {ctx : Context} (usual : ctx.storage = .disk)
    (hbundler : ctx.bundler.Quiet) (hprobe : ctx.probe.Quiet) (e : Errand) (s : BuildState)
    (hfree : ∀ p ∈ e.directories ctx.settings, s.disk.Free p)
    (hdirect : ∀ p ∈ e.removed ctx.settings, s.disk.ending? p = s.disk.heading? p)
    {l : Location} {content : ByteArray} {x : Bool} (hl : s.disk.get? l = some (.file content x))
    (hout : ¬ e.Owns ctx.settings s.disk l) :
    ((e.run ctx).run.run s).2.disk.get? l = some (.file content x) := by
  have hsafe := Errand.safe_run usual hbundler hprobe e hfree hdirect
  have hframed := (hsafe s (Disk.Framed.refl _ _)).1
  rcases hframed.outside hout with h | ⟨h, -⟩
  · rw [h, hl]
  · rw [hl] at h
    cases h

theorem linkFree_used : Disk.used.LinkFree :=
  Disk.linkFree_of_entries (by decide +kernel)

set_option maxRecDepth 10000 in
theorem errand_spares_files_small :
    (((Errand.release ⟨[.esm], false, []⟩).run (small .small "b")).run.run (.fresh .used)).2.disk.get?
      ["src", "m.js"] = some (.file (Text.encode "m") false) := by
  refine errand_spares_files rfl (fun _ _ => rfl) (fun _ _ => rfl) _ _ (fun p _ => linkFree_used.free p)
    (by decide +kernel) (by decide +kernel) ?_
  rintro (⟨p, hp, loc, hloc, hl⟩ | ⟨f, hf, hl⟩)
  · have heads : ∀ p ∈ [Settings.small.outDir, Settings.small.tmpDir],
        (Disk.used.heading? p).all fun loc => !loc.isPrefixOf ["src", "m.js"] := by decide +kernel
    have hno := heads p hp
    rw [show Disk.used.heading? p = some loc from hloc] at hno
    simp [List.isPrefixOf_iff_prefix.2 hl] at hno
  · have heads : ∀ f ∈ [Format.esm], Disk.used.heading? ((Settings.small.formatDir f).join
        Settings.small.mainEntry) ≠ some ["src", "m.js"] := by decide +kernel
    exact heads f hf hl

/-- Nothing keeps the output directory apart from the sources, so cleaning may remove them. -/
theorem clean_removes_sources :
    ∃ settings : Settings, (small settings "b").bundler.Quiet ∧ (small settings "b").probe.Quiet ∧
      settings.outDir = settings.srcDir ∧
      Disk.small.get? ["src", "m.js"] = some (.file (Text.encode "m") false) ∧
      ((Errand.clean.run (small settings "b")).run.run (.fresh .small)).2.disk.get? ["src", "m.js"] =
        none :=
  ⟨{ Settings.small with outDir := ⟨"/src"⟩ }, fun _ _ => rfl, fun _ _ => rfl, rfl,
    by decide +kernel, by decide +kernel⟩

end Context

end LocaleForge
