import LocaleForge.Proofs.Cleaning
import LocaleForge.Proofs.Correspondence

/-!
What stays true during a whole command, however it ends. It has to survive the writing of files to
certain paths and the removal of certain directories; which paths these are is told by the settings.
-/

namespace LocaleForge

namespace Build

variable {α β : Type} {I : BuildState → Prop} {P : α → Prop} {Q : β → Prop}

/-- Whether it succeeds or fails, the computation keeps something true, and what it gives is as
expected. -/
def Safe (b : Build α) (I : BuildState → Prop) (P : α → Prop) : Prop :=
  ∀ s, I s → I (b.run.run s).2 ∧ ∀ a, (b.run.run s).1 = .ok a → P a

/-- It is about the tree and about calls that have been made: printing, knowing more header texts and
logging further calls do not change it. -/
def Steady (I : BuildState → Prop) : Prop :=
  ∀ {s t}, I s → t.disk = s.disk → s.log <+: t.log → I t

/-- What a computation keeps true is common to two runs that are the same. -/
theorem safe_iff {b : Build α} : b.Safe I P ↔ b.Respects (fun s t => s = t ∧ I s) P := by
  constructor
  · rintro h s _ ⟨rfl, hs⟩
    exact ⟨rfl, ⟨rfl, (h s hs).1⟩, (h s hs).2⟩
  · intro h s hs
    obtain ⟨-, ⟨-, hkept⟩, hresult⟩ := h s s ⟨rfl, hs⟩
    exact ⟨hkept, hresult⟩

theorem safe_pure {a : α} (h : P a) : (pure a : Build α).Safe I P :=
  safe_iff.2 (respects_pure h)

theorem Safe.bind {b : Build α} {f : α → Build β} (hb : b.Safe I P) (hf : ∀ a, P a → (f a).Safe I Q) :
    (b >>= f).Safe I Q :=
  safe_iff.2 ((safe_iff.1 hb).bind fun a ha => safe_iff.1 (hf a ha))

end Build

open Build

namespace Event

/-- The path of the file that is written or copied to by a call. -/
def target? : Event → Option Path
  | .write p => some p
  | .copy _ p => some p
  | _ => none

end Event

/-- What is asked of something that a command keeps true: calls to the bundler keep it, and so does
writing files to some paths and removing some directories. -/
structure Context.Guards (ctx : Context) (I : BuildState → Prop) (paths dirs : Path → Prop) :
    Prop where
  usual : ctx.storage = .disk
  steady : Steady I
  bundler : ∀ r {s}, I s → I { s with disk := (ctx.bundler.reply r s.disk).2 }
  touched : ∀ {s e p Y}, I s → e.target? = some p → paths p → s.disk.Touched p Y →
    I { s with disk := Y, log := s.log ++ [e] }
  cleared : ∀ {s p}, I s → dirs p → I { s with disk := s.disk.cleared p }

/-- The calls that something survives: files are written to some paths and some directories are removed,
and the probe is called if it keeps the same thing true. -/
def Context.Survives (ctx : Context) (I : BuildState → Prop) (paths dirs : Path → Prop) : Event → Prop
  | .write p => paths p
  | .copy _ p => paths p
  | .remove p => dirs p
  | .probe bundle => ∀ s, I s → I { s with disk := (ctx.probe.registered bundle s.disk).2 }
  | _ => True

namespace Context.Guards

open Pipeline

variable {ctx : Context} {I : BuildState → Prop} {paths dirs : Path → Prop}

theorem noted (g : ctx.Guards I paths dirs) {s : BuildState} (hs : I s) (e : Event) :
    I { s with log := s.log ++ [e] } :=
  g.steady hs rfl (List.prefix_append _ _)

theorem removed (g : ctx.Guards I paths dirs) {s : BuildState} {p : Path} (hs : I s) (hp : dirs p) :
    I { s with disk := (ctx.storage.remove p s.disk).2 } := by
  have hcleared : (ctx.storage.remove p s.disk).2 = s.disk.cleared p := by
    simp only [g.usual, Storage.disk, Disk.cleared]
    split <;> rfl
  rw [hcleared]
  exact g.cleared hs hp

theorem plain_found (g : ctx.Guards I paths dirs) {root : Path} {pattern : String} {d : Disk}
    {files : List String} (h : ctx.storage.expand root pattern d = .ok files) :
    ∀ file ∈ files, Path.Plain file := by
  rw [g.usual] at h
  exact fun file hfile => Disk.plain_of_expand (mapError_eq_ok_iff.1 h) hfile

theorem corresponds (g : ctx.Guards I paths dirs) :
    ctx.Corresponds (fun s t => s = t ∧ I s) (ctx.Survives I paths dirs) Path.Plain where
  tell := by
    rintro s _ ⟨rfl, hs⟩ m
    exact ⟨rfl, g.steady hs rfl List.prefix_rfl⟩
  shelf := by
    rintro s _ ⟨rfl, -⟩
    rfl
  shelve := by
    rintro s _ ⟨rfl, hs⟩ p text
    exact ⟨rfl, g.steady hs rfl List.prefix_rfl⟩
  staging := by
    rintro s _ ⟨rfl, -⟩
    rfl
  read := by
    rintro p - s _ ⟨rfl, hs⟩
    exact ⟨rfl, rfl, g.noted hs _⟩
  expand := by
    rintro root pattern - s _ ⟨rfl, hs⟩
    exact ⟨rfl, rfl, g.noted hs _⟩
  found := g.plain_found
  write := by
    rintro p text hp s _ ⟨rfl, hs⟩
    have htouched : s.disk.Touched p (ctx.storage.write p text s.disk).2 := by
      rw [g.usual]
      exact Disk.touched_of_write rfl
    exact ⟨rfl, rfl, g.touched hs rfl hp htouched⟩
  copy := by
    rintro source p hp s _ ⟨rfl, hs⟩
    have htouched : s.disk.Touched p (ctx.storage.copy source p s.disk).2 := by
      rw [g.usual]
      exact Disk.touched_of_copy rfl
    exact ⟨rfl, rfl, g.touched hs rfl hp htouched⟩
  remove := by
    rintro p hp s _ ⟨rfl, hs⟩
    exact ⟨rfl, rfl, g.noted (g.removed hs hp) _⟩
  registered := by
    rintro bundle hprobe s _ ⟨rfl, hs⟩
    exact ⟨rfl, rfl, g.noted (hprobe s hs) _⟩
  request := by
    rintro r - s _ ⟨rfl, hs⟩
    exact ⟨rfl, g.noted hs _⟩
  reply := by
    rintro r - s _ ⟨rfl, hs⟩
    exact ⟨rfl, rfl, g.noted (g.bundler r hs) _⟩

/-- All that is made of calls which something survives keeps it true. -/
theorem carries (g : ctx.Guards I paths dirs) :
    ctx.Carries (fun _ b P => b.Safe I P) (ctx.Survives I paths dirs) Path.Plain := by
  have hsafe : (fun α (b : Build α) P => b.Respects (fun s t => s = t ∧ I s) P) =
      fun _ b P => b.Safe I P := by
    funext α b P
    exact propext safe_iff.symm
  exact hsafe ▸ g.corresponds.carries

/-! ## What the settings say of the calls -/

theorem job_survives {j : Job} (hj : paths j.target) :
    j.Allowed ctx.settings (ctx.Survives I paths dirs) :=
  ⟨.inr trivial, trivial, hj⟩

theorem staging_survives (htmp : ∀ {rel}, Path.Plain rel → paths (ctx.settings.tmpDir.join rel)) :
    ctx.settings.AllowsStaging (ctx.Survives I paths dirs) Path.Plain :=
  ⟨fun _ => trivial, htmp, fun hentry => htmp hentry.plain⟩

theorem sources_survive {f : Format}
    (hmain : paths ((ctx.settings.formatDir f).join ctx.settings.mainEntry))
    (hf : ∀ {rel}, Path.Plain rel → paths ((ctx.settings.formatDir f).join rel)) :
    ctx.settings.AllowsSources (ctx.Survives I paths dirs) Path.Plain f where
  sources _ := trivial
  main := job_survives hmain
  locale hfile := job_survives (hf hfile)
  test hfile := job_survives (hf hfile)

theorem format_survives {f : Format}
    (hmain : paths ((ctx.settings.formatDir f).join ctx.settings.mainEntry))
    (hf : ∀ {rel}, Path.Plain rel → paths ((ctx.settings.formatDir f).join rel))
    (htmp : ∀ {rel}, Path.Plain rel → paths (ctx.settings.tmpDir.join rel)) :
    ctx.settings.AllowsFormat (ctx.Survives I paths dirs) Path.Plain f where
  toAllowsSources := sources_survive hmain hf
  staged := (staging_survives htmp).staged
  placed := (staging_survives htmp).placed
  aggregate _ hentry := job_survives (aggregateTarget_mem hf hentry)

theorem custom_survives
    (hprobe : ∀ p s, I s → I { s with disk := (ctx.probe.registered p s.disk).2 })
    (hmin : ∀ {file}, Path.Simple file → paths (aggregateTarget ctx.settings .umd file))
    (htmp : ∀ {rel}, Path.Plain rel → paths (ctx.settings.tmpDir.join rel)) :
    ctx.settings.AllowsCustom (ctx.Survives I paths dirs) Path.Plain where
  toAllowsStaging := staging_survives htmp
  aggregate _ hentry := job_survives (hmin hentry)
  probe := hprobe

/-! ## Commands -/

theorem aggregate (g : ctx.Guards I paths dirs)
    (htmp : ∀ {rel}, Path.Plain rel → paths (ctx.settings.tmpDir.join rel)) {target : Path}
    (ht : paths target) (files : List String) (f : Format) (excludeBase : Bool) :
    (ctx.aggregate target files f excludeBase).Safe I fun _ => True :=
  g.carries.aggregate (staging_survives htmp) fun _ he =>
    ⟨htmp (Path.Simple.of_fileName? he).plain, job_survives ht⟩

theorem clean (g : ctx.Guards I paths dirs) (hout : dirs ctx.settings.outDir) :
    ctx.clean.Safe I fun _ => True :=
  g.carries.clean hout

theorem build (g : ctx.Guards I paths dirs) {f : Format}
    (hmain : paths ((ctx.settings.formatDir f).join ctx.settings.mainEntry))
    (hf : ∀ {rel}, Path.Plain rel → paths ((ctx.settings.formatDir f).join rel))
    (htmp : ∀ {rel}, Path.Plain rel → paths (ctx.settings.tmpDir.join rel))
    (hdir : dirs (ctx.settings.formatDir f)) (hstaging : dirs ctx.settings.tmpDir) :
    (ctx.build f).Safe I fun _ => True :=
  g.carries.build (format_survives hmain hf htmp) hdir hstaging

theorem custom (g : ctx.Guards I paths dirs)
    (hprobe : ∀ p s, I s → I { s with disk := (ctx.probe.registered p s.disk).2 })
    (hmin : ∀ {file}, Path.Simple file → paths (aggregateTarget ctx.settings .umd file))
    (htmp : ∀ {rel}, Path.Plain rel → paths (ctx.settings.tmpDir.join rel)) (names : List String) :
    (ctx.custom names).Safe I fun _ => True :=
  g.carries.custom (custom_survives hprobe hmin htmp) names

theorem release (g : ctx.Guards I paths dirs)
    (hprobe : ∀ p s, I s → I { s with disk := (ctx.probe.registered p s.disk).2 }) {plan : ReleasePlan}
    (hmain : ∀ f ∈ plan.formats, paths ((ctx.settings.formatDir f).join ctx.settings.mainEntry))
    (hformat : ∀ f {rel}, Path.Plain rel → paths ((ctx.settings.formatDir f).join rel))
    (htmp : ∀ {rel}, Path.Plain rel → paths (ctx.settings.tmpDir.join rel))
    (hout : dirs ctx.settings.outDir) : (ctx.release plan).Safe I fun _ => True := by
  have hmin : ∀ {file}, Path.Simple file → paths (aggregateTarget ctx.settings .umd file) :=
    fun hfile => aggregateTarget_mem (hformat .umd) hfile
  have hjoined : paths ((ctx.settings.formatDir .umd).join "min/tests.js") :=
    hformat .umd ⟨by decide, by decide⟩
  exact g.carries.release (fun f hf => format_survives (hmain f hf) (hformat f) htmp)
    ⟨trivial, fun _ => trivial, hjoined⟩ (custom_survives hprobe hmin htmp) hout

end Context.Guards

namespace Pipeline

variable {ctx : Context} {I : BuildState → Prop} {paths dirs : Path → Prop}

/-! ## Stages -/

/-- Each stage keeps the property. -/
def Safe (p : Pipeline) (I : BuildState → Prop) : Prop :=
  ∀ stage ∈ p, stage.run.Safe I fun _ => True

theorem safe_sourceStages (g : ctx.Guards I paths dirs) {f : Format}
    (hmain : paths ((ctx.settings.formatDir f).join ctx.settings.mainEntry))
    (hf : ∀ {rel}, Path.Plain rel → paths ((ctx.settings.formatDir f).join rel)) :
    Safe (sourceStages ctx f) I :=
  g.carries.sourceStages (Context.Guards.sources_survive hmain hf)

end Pipeline

end LocaleForge
