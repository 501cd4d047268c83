import LocaleForge.Proofs.Composition
import LocaleForge.Proofs.Sessions
import LocaleForge.Proofs.Waves

/-!
What the program itself does in a session is among what the session can come to.
-/

namespace LocaleForge

open Build

namespace Context

variable {ctx : Context} {α β : Type} {P : α → Prop} {s : BuildState}

/-- The computation's own run is one that it can come to, and gives what is expected. -/
def OwnRun (ctx : Context) (b : Build α) (P : α → Prop) : Prop :=
  ∀ s, (∃ asks, ctx.Performs ctx.header b s asks (b.run.run s)) ∧ ∀ a, (b.run.run s).1 = .ok a → P a

theorem OwnRun.of_aloof {b : Build α} (hb : b.Aloof) (hP : ∀ s a, (b.run.run s).1 = .ok a → P a) :
    ctx.OwnRun b P :=
  fun s => ⟨⟨[], .aloof hb⟩, hP s⟩

theorem OwnRun.aloof {b : Build α} (hb : b.Aloof) : ctx.OwnRun b fun _ => True :=
  .of_aloof hb fun _ _ _ => trivial

theorem OwnRun.bind {b : Build α} {f : α → Build β} {Q : β → Prop} (hb : ctx.OwnRun b P)
    (hf : ∀ a, P a → ctx.OwnRun (f a) Q) : ctx.OwnRun (b >>= f) Q := by
  intro s
  obtain ⟨⟨asks, hrun⟩, hP⟩ := hb s
  rcases hr : b.run.run s with ⟨r, t⟩
  rw [hr] at hrun hP
  cases r with
  | error e =>
    rw [run_bind_of_error hr]
    refine ⟨⟨asks, .stop hrun⟩, fun a ha => ?_⟩
    cases ha
  | ok a =>
    rw [run_bind_of_ok hr]
    obtain ⟨⟨asks', hrun'⟩, hQ⟩ := hf a (hP a rfl) t
    exact ⟨⟨asks ++ asks', .bind hrun hrun'⟩, hQ⟩

theorem OwnRun.tryCatch {b : Build α} {h : Stop → Build α} (hb : ctx.OwnRun b P)
    (hh : ∀ e, ctx.OwnRun (h e) P) : ctx.OwnRun (MonadExcept.tryCatch b h) P := by
  intro s
  obtain ⟨⟨asks, hrun⟩, hP⟩ := hb s
  rw [run_tryCatch]
  rcases hr : b.run.run s with ⟨r, t⟩
  rw [hr] at hrun hP
  cases r with
  | ok a => exact ⟨⟨asks, .untried hrun⟩, hP⟩
  | error e =>
    obtain ⟨⟨asks', hrun'⟩, hP'⟩ := hh e t
    exact ⟨⟨asks ++ asks', .caught hrun hrun'⟩, hP'⟩

theorem composes_ownRun (ctx : Context) : Composes fun _ b P => ctx.OwnRun b P where
  pure {_ _ a} ha := .of_aloof (aloof_pure a) fun s b hb => by
    cases hb
    exact ha
  throw e := .of_aloof (aloof_throw e) fun s b hb => by cases hb
  bind := OwnRun.bind
  tryCatch := OwnRun.tryCatch

/-! ## Jobs -/

theorem ownRun_openCall (j : Job) : ctx.OwnRun (ctx.openCall j) (·.Allowed fun _ => True) :=
  fun _ => ⟨⟨_, .openCall⟩, fun _ _ => ⟨trivial, trivial⟩⟩

theorem performs_of_endsWith {jobs : List Job} {out : Except Stop (List Path) × BuildState}
    (h : Interleaving.EndsWith ctx (max ctx.settings.batchSize 1)
      (.ofGroups s (ctx.settings.groups jobs)) id out) :
    ∃ asks, ctx.Performs ctx.header (ctx.runJobs jobs) s asks out := by
  obtain ⟨r, t⟩ := out
  cases r with
  | ok targets =>
    obtain ⟨k, hk, rfl, hresults⟩ := h
    obtain ⟨asks, hrun⟩ := Interleaving.reaches_iff.1 hk
    exact ⟨asks, .jobs hrun hresults⟩
  | error stop =>
    obtain ⟨k, hk, rfl, hfails⟩ := h
    obtain ⟨asks, hrun⟩ := Interleaving.reaches_iff.1 hk
    exact ⟨asks, .jobsFail hrun hfails⟩

theorem ownRun_runJobs (jobs : List Job) : ctx.OwnRun (ctx.runJobs jobs) fun _ => True := by
  by_cases limit : ctx.settings.batchSize ≤ maxSlots
  · exact fun s => ⟨performs_of_endsWith (Interleaving.endsWith_runJobs limit s jobs), fun _ _ => trivial⟩
  · cases hmode : ctx.settings.batchMode with
    | batched =>
      refine fun s => ⟨performs_of_endsWith ?_, fun _ _ => trivial⟩
      rw [runJobs, Settings.groups, hmode]
      exact Interleaving.endsWith_runBatched (by omega) s jobs
    | pooled =>
      have hover : maxSlots < max ctx.settings.batchSize 1 := by
        rw [maxSlots] at limit ⊢
        omega
      rw [runJobs, hmode]
      simp only [runPooled, if_pos hover]
      exact .aloof (aloof_throw _)

/-! ## Commands -/

theorem carries_ownRun (ctx : Context) :
    ctx.Carries (fun _ b P => ctx.OwnRun b P) (fun _ => True) fun _ => True :=
  have parts : ctx.CarriesParts (fun _ b P => ctx.OwnRun b P) fun _ => True :=
    ⟨ctx.composes_ownRun, fun {j} _ => ownRun_openCall j, fun {c} _ => .aloof (ctx.aloof_closeCall c)⟩
  { composes := ctx.composes_ownRun
    tell := fun m => .aloof (aloof_tell m)
    hasStaging := .aloof ((aloof_query fun d => .ok (ctx.storage.hasEntry ctx.settings.tmpDir d)))
    read := fun _ => .aloof ((aloof_note _).bind fun _ => aloof_query _)
    write := fun _ _ => .aloof ((aloof_note _).bind fun _ => aloof_alter _)
    copy := fun _ => .aloof ((aloof_note _).bind fun _ => aloof_alter _)
    expand := fun _ => .of_aloof ((aloof_note _).bind fun _ => aloof_query _) fun _ _ _ _ _ => trivial
    remove := fun _ => .aloof ((aloof_note _).bind fun _ => aloof_alter _)
    registered := fun _ => .aloof ((aloof_note _).bind fun _ => aloof_alter _)
    transpile := parts.transpile
    runJobs := fun {jobs} _ => ownRun_runJobs jobs }

theorem ownRun_order (ctx : Context) (o : Order) : ctx.OwnRun (o.run ctx) fun _ => True := by
  have c := ctx.carries_ownRun
  have h := ctx.composes_ownRun
  have hend : ∀ p : Product, ctx.OwnRun (pure p) fun _ => True := fun p => .aloof (aloof_pure p)
  cases o with
  | transpile j => exact h.bind (c.transpile (j.allowed_true _)) fun p _ => hend (.file p)
  | runJobs jobs =>
    exact h.bind (c.runJobs fun j _ => j.allowed_true _) fun ps _ => hend (.files ps)
  | aggregate target files f excludeBase =>
    refine h.bind (c.aggregate ctx.settings.allowsStaging_true fun entry _ => ?_) fun p _ => hend (.file p)
    exact ⟨trivial, Job.allowed_true _ _⟩
  | build f =>
    refine h.bind (c.build (ctx.settings.allowsFormat_true f) trivial trivial) fun rs _ => ?_
    exact hend (.reports rs)
  | release plan =>
    refine h.bind (c.release (fun f _ => ctx.settings.allowsFormat_true f)
      ctx.settings.allowsJoining_true ctx.settings.allowsCustom_true trivial) fun rs _ => ?_
    exact hend (.reports rs)

/-! ## Sessions -/

/-- What the program itself does in a session. -/
def carryOut (ctx : Context) : List Deed → BuildState → List Upshot × BuildState
  | [], s => ([], s)
  | .order o :: deeds, s =>
    let out := (o.run ctx).run.run s
    let rest := ctx.carryOut deeds out.2
    (⟨out.1, out.2.disk, out.2.console⟩ :: rest.1, rest.2)
  | .edit change :: deeds, s => ctx.carryOut deeds { s with disk := change s.disk }

theorem session_carryOut (ctx : Context) (deeds : List Deed) (s : BuildState) : ∃ asks,
    ctx.Session ctx.header s deeds asks (ctx.carryOut deeds s).1 (ctx.carryOut deeds s).2 := by
  induction deeds generalizing s with
  | nil => exact ⟨[], .done⟩
  | cons deed deeds ih =>
    cases deed with
    | order o =>
      obtain ⟨⟨asks, hrun⟩, -⟩ := ctx.ownRun_order o s
      obtain ⟨asks', hrest⟩ := ih ((o.run ctx).run.run s).2
      exact ⟨asks ++ asks', .order hrun hrest⟩
    | edit change =>
      obtain ⟨asks, hrest⟩ := ih { s with disk := change s.disk }
      exact ⟨asks, .edit hrest⟩

end Context

end LocaleForge
