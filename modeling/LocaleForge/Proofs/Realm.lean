import LocaleForge.Proofs.Ancestors
import LocaleForge.Proofs.Sources

/-!
Everything that a command changes lies below a few directories. Elsewhere no file is touched, and only
directories appear that are on the way to the files.
-/

namespace LocaleForge

namespace Disk

variable {d : Disk}

theorem LinkFree.endWith_eq (h : d.LinkFree) {onEnd onHead : Location → List String → Option Location}
    {dir : Location} {ps : List String} : endWith d onEnd dir ps = headWith d onHead dir ps := by
  induction ps generalizing dir with
  | nil => rfl
  | cons p ps ih =>
    cases hidle : Path.isIdle p with
    | true => rw [endWith_idle hidle, headWith_idle hidle, ih]
    | false =>
      by_cases hp : p = ".."
      · rw [hp, endWith_up, headWith_up, ih]
      · rw [endWith_down hidle hp (h _), headWith_down hidle hp (h _), ih]

theorem LinkFree.ending?_eq (h : d.LinkFree) (p : Path) : d.ending? p = d.heading? p := by
  rw [ending?, heading?]
  exact h.endWith_eq

end Disk

/-- How a state has come from an earlier one: outside the region no file is touched, and each new
directory is on the way to a file that was written or tried to be written. -/
structure BuildState.Spared (region : Location → Prop) (s t : BuildState) : Prop where
  framed : s.disk.Framed region t.disk
  made : ∃ calls, t.log = s.log ++ calls ∧
    ∀ l, ¬ region l → s.disk.get? l = none → t.disk.get? l = some .directory →
      ∃ p, (∃ e ∈ calls, e.target? = some p) ∧ s.disk.OnWay p l

namespace BuildState.Spared

variable {region : Location → Prop} {s t u : BuildState} {e : Event} {p : Path} {Y : Disk}

theorem refl (region : Location → Prop) (s : BuildState) : Spared region s s where
  framed := .refl _ _
  made := by
    refine ⟨[], (List.append_nil _).symm, fun l _ hnone hdir => ?_⟩
    rw [hnone] at hdir
    cases hdir

theorem steady : Build.Steady (Spared region s) := by
  intro t u h hdisk hlog
  obtain ⟨hframed, calls, hcalls, hmade⟩ := h
  obtain ⟨more, hmore⟩ := hlog
  refine ⟨hdisk ▸ hframed, calls ++ more, ?_, fun l hl hnone hdir => ?_⟩
  · rw [← hmore, hcalls, List.append_assoc]
  · rw [hdisk] at hdir
    obtain ⟨p, ⟨e, he, hp⟩, hway⟩ := hmade l hl hnone hdir
    exact ⟨p, ⟨e, List.mem_append_left _ he, hp⟩, hway⟩

theorem touched (h : Spared region s t) (he : e.target? = some p)
    (hp : ∀ l, s.disk.heading? p = some l → region l) (ht : t.disk.Touched p Y) :
    Spared region s { t with disk := Y, log := t.log ++ [e] } := by
  obtain ⟨hframed, calls, hcalls, hmade⟩ := h
  refine ⟨hframed.touched hp ht, calls ++ [e], ?_, fun l hl hnone hdir => ?_⟩
  · rw [hcalls, List.append_assoc]
  · rcases hframed.outside hl with hsame | ⟨-, hold⟩
    · -- Nothing has been there until now.
      have hway := ht.made hframed.sameLinks (hsame.trans hnone) hdir
      exact ⟨p, ⟨e, List.mem_append_right _ List.mem_cons_self, he⟩, hway⟩
    · obtain ⟨q, ⟨e', he', hq⟩, hway⟩ := hmade l hl hnone hold
      exact ⟨q, ⟨e', List.mem_append_left _ he', hq⟩, hway⟩

theorem cleared (h : Spared region s t)
    (hp : ∀ loc, s.disk.ending? p = some loc → ∀ l, loc <+: l →
      region l ∧ ∀ target, s.disk.get? l ≠ some (.link target)) :
    Spared region s { t with disk := t.disk.cleared p } := by
  obtain ⟨hframed, calls, hcalls, hmade⟩ := h
  refine ⟨hframed.cleared hp, calls, hcalls, fun l hl hnone hdir => hmade l hl hnone ?_⟩
  exact (Disk.cleared_keeps t.disk p).get? hdir rfl

end BuildState.Spared

/-- The small project with a bundle of the other format. -/
def Disk.both : Disk :=
  (used.set ["build", "umd"] .directory).set ["build", "umd", "o.js"] (.file (Text.encode "u") false)

/-- The small project with an output directory that is reached by way of a missing one, and with the
staging area in the place of the other format. -/
def Settings.around : Settings :=
  { small with outDir := ⟨"/x/../build"⟩, tmpDir := ⟨"/build/umd"⟩ }

namespace Errand

variable {ctx : Context} {s : BuildState} {d : Disk} {e : Errand} {p : Path}

/-- A place at or below the directories that files are written below. -/
def Within (e : Errand) (s : Settings) (d : Disk) (l : Location) : Prop :=
  ∃ p ∈ e.realm s, ∃ loc, d.heading? p = some loc ∧ loc <+: l

theorem removed_sub_realm (h : p ∈ e.removed ctx.settings) : p ∈ e.realm ctx.settings := by
  cases e with
  | clean => exact h
  | build f => exact h
  | custom names => exact absurd h List.not_mem_nil
  | release plan => exact List.mem_singleton.1 h ▸ List.mem_cons_self

theorem beneath_of_writes (hmain : Path.Plain ctx.settings.mainEntry) (hp : e.Writes ctx.settings p) :
    ∃ dir ∈ e.realm ctx.settings, dir.Beneath p := by
  rcases hp with hp | ⟨f, hf, rfl⟩
  · exact hp
  · cases e with
    | clean => exact absurd hf List.not_mem_nil
    | custom names => exact absurd hf List.not_mem_nil
    | build g =>
      obtain rfl := List.mem_singleton.1 hf
      exact ⟨_, List.mem_cons_self, hmain.beneath _⟩
    | release plan =>
      refine ⟨_, List.mem_cons_self, f.word ++ "/" ++ ctx.settings.mainEntry, ?_⟩
      exact ⟨hmain.below f.simple_word, Path.join_join _ f.simple_word hmain⟩

theorem within_of_writes (hmain : Path.Plain ctx.settings.mainEntry) (hlinks : d.LinkFree)
    (hp : e.Writes ctx.settings p) (l : Location) (hl : d.heading? p = some l) :
    e.Within ctx.settings d l := by
  obtain ⟨dir, hdir, rel, hrel, rfl⟩ := beneath_of_writes hmain hp
  obtain ⟨loc, hloc, rfl⟩ := (hlinks.free dir).heading?_join hrel hl
  exact ⟨dir, hdir, loc, hloc, List.prefix_append _ _⟩

/-- However an errand ends, it has spared what lies outside its realm. -/
theorem spares (usual : ctx.storage = .disk) (hbundler : ctx.bundler.Quiet) (hprobe : ctx.probe.Quiet)
    (hmain : Path.Plain ctx.settings.mainEntry) (e : Errand) (hlinks : s.disk.LinkFree) :
    (e.run ctx).Safe (BuildState.Spared (e.Within ctx.settings s.disk) s) fun _ => True := by
  refine e.safe ?_ fun p t ht => ?_
  · exact {
      usual := usual
      steady := BuildState.Spared.steady
      bundler := fun r t ht => by rwa [hbundler r t.disk]
      touched := fun ht he hp hY => ht.touched he (within_of_writes hmain hlinks hp) hY
      cleared := fun {t p} ht hp => ht.cleared fun loc hloc l hl =>
        ⟨⟨p, removed_sub_realm hp, loc, (hlinks.ending?_eq p).symm.trans hloc, hl⟩, hlinks l⟩ }
  · rwa [hprobe p t.disk]

/-- The directories of two formats lie beside each other. -/
theorem not_within_of_format {f g : Format} (hlinks : d.LinkFree) (hne : g ≠ f) {l out tmp : Location}
    (hout : d.heading? (ctx.settings.formatDir g) = some out) (hl : out <+: l)
    (htmp : d.heading? ctx.settings.tmpDir = some tmp) (hnot : ¬ tmp <+: l) :
    ¬ (build f).Within ctx.settings d l := by
  have hword : ∀ {h : Format} {loc : Location}, d.heading? (ctx.settings.formatDir h) = some loc →
      ∃ o, d.heading? ctx.settings.outDir = some o ∧ loc = o ++ [h.word] := by
    intro h loc hloc
    obtain ⟨o, ho, rfl⟩ := (hlinks.free _).heading?_join h.simple_word.plain hloc
    refine ⟨o, ho, ?_⟩
    rw [h.simple_word.cut, Path.names_cons h.simple_word.notIdle, Path.names_nil]
  rintro ⟨p, hp, loc, hloc, hpre⟩
  simp only [realm, List.mem_cons, List.not_mem_nil, or_false] at hp
  rcases hp with rfl | rfl
  · obtain ⟨o, ho, rfl⟩ := hword hout
    obtain ⟨o', ho', rfl⟩ := hword hloc
    rw [ho] at ho'
    cases ho'
    have hsame := List.prefix_of_prefix_length_le hl hpre (by simp)
    simp only [List.prefix_append_right_inj, List.cons_prefix_cons, List.nil_prefix, and_true] at hsame
    revert hsame hne
    cases f <;> cases g <;> decide
  · rw [htmp] at hloc
    cases hloc
    exact hnot hpre

end Errand

namespace Context

/-- Whether a command succeeds or fails, it changes nothing outside the directories that it writes
below, but that directories appear which are on the way to a file that it has written or tried to
write; they lie above the file when its path goes down only. A build of one format leaves the files of
the others, as far as these do not lie in the staging area. -/
theorem errand_stays_within {ctx : Context} (usual : ctx.storage = .disk)
    (hbundler : ctx.bundler.Quiet) (hprobe : ctx.probe.Quiet)
    (hmain : Path.Plain ctx.settings.mainEntry) (e : Errand) {s t : BuildState} {r : Except Stop Unit}
    (hlinks : s.disk.LinkFree) (h : (e.run ctx).run.run s = (r, t)) :
    (∃ calls, t.log = s.log ++ calls ∧ ∀ l, ¬ e.Within ctx.settings s.disk l →
      t.disk.get? l = s.disk.get? l ∨
        s.disk.get? l = none ∧ t.disk.get? l = some .directory ∧
          ∃ p, (∃ c ∈ calls, c.target? = some p) ∧ s.disk.OnWay p l ∧
            (".." ∉ Text.cut '/' p.text →
              ∃ loc, s.disk.heading? p = some loc ∧ l <+: loc ∧ l ≠ loc)) ∧
    ∀ f g, e = .build f → g ≠ f → ∀ l out tmp,
      s.disk.heading? (ctx.settings.formatDir g) = some out → out <+: l →
      s.disk.heading? ctx.settings.tmpDir = some tmp → ¬ tmp <+: l →
      ∀ content x,
        t.disk.get? l = some (.file content x) ↔ s.disk.get? l = some (.file content x) := by
  have hspared := (Errand.spares usual hbundler hprobe hmain e hlinks s (.refl _ s)).1
  rw [h] at hspared
  constructor
  · obtain ⟨calls, hcalls, hmade⟩ := hspared.made
    refine ⟨calls, hcalls, fun l hl => (hspared.framed.outside hl).imp_right ?_⟩
    rintro ⟨hnone, hdir⟩
    obtain ⟨p, hp, hway⟩ := hmade l hl hnone hdir
    exact ⟨hnone, hdir, p, hp, hway, hway.above hlinks⟩
  · rintro f g rfl hne l out tmp hout hl htmp hnot content x
    have hwithin := Errand.not_within_of_format hlinks hne hout hl htmp hnot
    rcases hspared.framed.outside hwithin with hsame | ⟨hnone, hdir⟩
    · rw [hsame]
    · rw [hnone, hdir]
      exact ⟨nofun, nofun⟩

theorem linkFree_both : Disk.both.LinkFree :=
  Disk.linkFree_of_entries (by decide +kernel)

theorem plain_around : Path.Plain Settings.around.mainEntry :=
  Settings.plain_small

set_option maxRecDepth 10000 in
theorem errand_stays_within_small :
    (((Errand.build .esm).run (small .small "b")).run.run (.fresh .both)).2.disk.get?
        ["src", "m.js"] = some (.file (Text.encode "m") false) ∧
      (((Errand.build .esm).run (small .small "b")).run.run (.fresh .both)).2.disk.get?
        ["build", "umd", "o.js"] = some (.file (Text.encode "u") false) := by
  have hbuild := @errand_stays_within (small .small "b") rfl (fun _ _ => rfl) (fun _ _ => rfl)
    Settings.plain_small (.build .esm) (.fresh .both) _ _ linkFree_both (Prod.eta _).symm
  obtain ⟨⟨calls, -, houtside⟩, hother⟩ := hbuild
  have heads : ∀ p ∈ (Errand.build .esm).realm Settings.small,
      (Disk.both.heading? p).all fun loc => !loc.isPrefixOf ["src", "m.js"] := by decide +kernel
  have hnot : ¬ (Errand.build .esm).Within Settings.small Disk.both ["src", "m.js"] := by
    rintro ⟨p, hp, loc, hloc, hl⟩
    have hno := heads p hp
    rw [hloc] at hno
    simp [List.isPrefixOf_iff_prefix.2 hl] at hno
  constructor
  · rcases houtside ["src", "m.js"] hnot with hsame | ⟨hnone, -⟩
    · exact hsame.trans (by decide +kernel)
    · exact absurd hnone (by decide +kernel)
  · refine (hother .esm .umd rfl (by decide) _ ["build", "umd"] ["build", "tmp"] (by decide +kernel)
      (by decide) (by decide +kernel) (by decide) _ _).2 (by decide +kernel)

set_option maxRecDepth 10000 in
/-- Nothing keeps the staging area apart from the other format, so a build may remove its files. And a
path that leads up again makes a directory that no file lies below. -/
theorem build_reaches_other_format :
    ∃ settings : Settings, Path.Plain settings.mainEntry ∧ Disk.both.LinkFree ∧
      Disk.both.heading? (settings.formatDir .umd) = some ["build", "umd"] ∧
      Disk.both.get? ["build", "umd", "o.js"] = some (.file (Text.encode "u") false) ∧
      Disk.both.get? ["x"] = none ∧
      (((Errand.build .esm).run (small settings "b")).run.run (.fresh .both)).2.disk.get?
        ["build", "umd", "o.js"] = none ∧
      (((Errand.build .esm).run (small settings "b")).run.run (.fresh .both)).2.disk.get? ["x"] =
        some .directory ∧
      (((Errand.build .esm).run (small settings "b")).run.run (.fresh .both)).2.disk.below ["x"] = [] :=
  ⟨.around, plain_around, linkFree_both, by decide +kernel, by decide +kernel, by decide +kernel,
    by decide +kernel⟩

end Context

end LocaleForge
