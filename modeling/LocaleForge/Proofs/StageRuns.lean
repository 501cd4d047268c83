import LocaleForge.Proofs.Blind
import LocaleForge.Proofs.Setting

/-!
Runs of pipelines stage by stage: on which state each stage begins, what it leaves behind, and what
stands on the console in the end. A stage that fails ends the run; what it has done by then stays done.
-/

namespace LocaleForge

open Build Console

/-- The state after a message is printed. -/
def BuildState.told (s : BuildState) (m : Message) : BuildState :=
  { s with console := s.console ++ [m] }

/-- The end of a stage as its pipeline reports it: a failure is put into the context of the stage. -/
def Stop.inStage (name : String) : Stop → Stop
  | failed f => failed ⟨.stage name :: f.trail, f.cause⟩
  | panicked => panicked

/-- A stage that has succeeded, with the state it began on and the one it has left. -/
structure Passed where
  stage : Stage
  start : BuildState
  outputs : List Path
  finish : BuildState

namespace Passed

def report (x : Passed) : Report :=
  ⟨x.stage.name, x.outputs⟩

/-- What the stage itself has printed. -/
def printed (x : Passed) : List Message :=
  x.finish.console.drop x.start.console.length

/-- What stands on the console of a stage that was number `n`. -/
def transcript (settings : Settings) (total : Nat) (x : Passed) (n : Nat) : List Message :=
  .step n total x.stage.name :: x.printed ++ [.files (x.outputs.map settings.shown)]

end Passed

/-- What was printed stays on the console. -/
def Stage.Prints (stage : Stage) : Prop :=
  ∀ s, s.console <+: (stage.run.run.run s).2.console

namespace Pipeline

variable {settings : Settings} {total n : Nat} {stage : Stage} {p : Pipeline} {s t u : BuildState}
  {x : Passed} {xs : List Passed} {stop : Stop}

/-- From the state `s` these stages succeed one after another, the first one as number `n`, and come to
the state `t`: each is announced, begins on what the one before has left, and its outputs are listed. -/
inductive Passes (settings : Settings) (total : Nat) : Nat → BuildState → List Passed → BuildState → Prop
  | nil {n : Nat} {s : BuildState} : Passes settings total n s [] s
  | cons {n : Nat} {s t : BuildState} {x : Passed} {xs : List Passed} :
    x.start = s.told (.step n total x.stage.name) →
    x.stage.run.Gives x.start x.outputs x.finish →
    Passes settings total (n + 1) (x.finish.told (.files (x.outputs.map settings.shown))) xs t →
    Passes settings total n s (x :: xs) t

/-! ## One stage -/

theorem run_runStage (settings : Settings) (n total : Nat) (stage : Stage) (s : BuildState) :
    (runStage settings n total stage).run.run s =
      match stage.run.run.run (s.told (.step n total stage.name)) with
      | (.ok outputs, t) => (.ok ⟨stage.name, outputs⟩, t.told (.files (outputs.map settings.shown)))
      | (.error stop, t) => (.error (stop.inStage stage.name), t) := by
  rw [runStage, run_bind]
  change (during _ stage.run >>= _).run.run (s.told (.step n total stage.name)) = _
  rw [run_bind, during, run_tryCatch]
  rcases stage.run.run.run (s.told (.step n total stage.name)) with ⟨r, t⟩
  cases r with
  | ok outputs => rfl
  | error stop => cases stop <;> rfl

theorem run_runFrom_cons (settings : Settings) (n total : Nat) (stage : Stage) (p : Pipeline)
    (s : BuildState) :
    (runFrom settings total n (stage :: p)).run.run s =
      match stage.run.run.run (s.told (.step n total stage.name)) with
      | (.ok outputs, t) =>
        let r := (runFrom settings total (n + 1) p).run.run (t.told (.files (outputs.map settings.shown)))
        (r.1.map (⟨stage.name, outputs⟩ :: ·), r.2)
      | (.error stop, t) => (.error (stop.inStage stage.name), t) := by
  rw [runFrom, run_bind, run_runStage]
  rcases stage.run.run.run (s.told (.step n total stage.name)) with ⟨r, t⟩
  cases r with
  | error stop => rfl
  | ok outputs =>
    simp only [run_bind]
    rcases (runFrom settings total (n + 1) p).run.run (t.told _) with ⟨r, u⟩
    cases r <;> rfl

/-! ## Many stages -/

/-- Stages that succeed are reported, and the run goes on from where they have come to. -/
theorem Passes.run_append (h : Passes settings total n s xs t) (p : Pipeline) :
    (runFrom settings total n (xs.map Passed.stage ++ p)).run.run s =
      (((runFrom settings total (n + xs.length) p).run.run t).1.map (xs.map Passed.report ++ ·),
        ((runFrom settings total (n + xs.length) p).run.run t).2) := by
  induction h with
  | @nil n s =>
    change (runFrom settings total n p).run.run s = _
    rw [List.length_nil, Nat.add_zero]
    rcases (runFrom settings total n p).run.run s with ⟨r, t⟩
    cases r <;> rfl
  | @cons n s t x xs hstart hrun _ ih =>
    rw [Gives, hstart] at hrun
    rw [List.map_cons, List.cons_append, run_runFrom_cons, hrun]
    simp only [ih, List.length_cons, Nat.add_comm xs.length, ← Nat.add_assoc]
    cases ((runFrom settings total (n + 1 + xs.length) p).run.run t).1 <;> rfl

theorem Passes.run_all (h : Passes settings total n s xs t) :
    (runFrom settings total n (xs.map Passed.stage)).run.run s = (.ok (xs.map Passed.report), t) := by
  have hrun := h.run_append []
  rw [List.append_nil] at hrun
  rw [hrun, runFrom, run_pure, Except.map, List.append_nil]

theorem Passes.run_failed (h : Passes settings total n s xs t) (later : Pipeline)
    (hfail : stage.run.run.run (t.told (.step (xs.length + n) total stage.name)) = (.error stop, u)) :
    (runFrom settings total n (xs.map Passed.stage ++ stage :: later)).run.run s =
      (.error (stop.inStage stage.name), u) := by
  rw [h.run_append, Nat.add_comm n, run_runFrom_cons, hfail]
  rfl

/-- All stages pass, or some of them do and the next one fails. -/
theorem passes_or_fails (settings : Settings) (total n : Nat) (p : Pipeline) (s : BuildState) :
    (∃ xs t, Passes settings total n s xs t ∧ xs.map Passed.stage = p) ∨
    ∃ xs t stage later stop u, Passes settings total n s xs t ∧
      xs.map Passed.stage ++ stage :: later = p ∧
      stage.run.run.run (t.told (.step (xs.length + n) total stage.name)) = (.error stop, u) := by
  induction p generalizing n s with
  | nil => exact .inl ⟨[], s, .nil, rfl⟩
  | cons stage p ih =>
    rcases hrun : stage.run.run.run (s.told (.step n total stage.name)) with ⟨r, t⟩
    cases r with
    | error stop =>
      refine .inr ⟨[], s, stage, p, stop, t, .nil, rfl, ?_⟩
      rwa [List.length_nil, Nat.zero_add]
    | ok outputs =>
      let x : Passed := ⟨stage, s.told (.step n total stage.name), outputs, t⟩
      have hx : x.stage.run.Gives x.start x.outputs x.finish := hrun
      rcases ih (n + 1) (t.told (.files (outputs.map settings.shown))) with
        ⟨xs, u, hpass, rfl⟩ | ⟨xs, u, next, later, stop, v, hpass, rfl, hfail⟩
      · exact .inl ⟨x :: xs, u, .cons rfl hx hpass, rfl⟩
      · refine .inr ⟨x :: xs, u, next, later, stop, v, .cons rfl hx hpass, rfl, ?_⟩
        rwa [List.length_cons, Nat.add_assoc, Nat.add_comm 1]

theorem runFrom_ok_iff {reports : List Report} :
    (runFrom settings total n p).run.run s = (.ok reports, t) ↔
      ∃ xs, Passes settings total n s xs t ∧ xs.map Passed.stage = p ∧ xs.map Passed.report = reports := by
  constructor
  · intro h
    rcases passes_or_fails settings total n p s with
      ⟨xs, u, hpass, hp⟩ | ⟨xs, u, stage, later, own, v, hpass, hp, hfail⟩
    · have hrun := hpass.run_all
      rw [hp, h] at hrun
      cases hrun
      exact ⟨xs, hpass, hp, rfl⟩
    · have hrun := hpass.run_failed later hfail
      rw [hp, h] at hrun
      cases hrun
  · rintro ⟨xs, hpass, hp, rfl⟩
    rw [← hpass.run_all, hp]

theorem runFrom_error_iff :
    (runFrom settings total n p).run.run s = (.error stop, t) ↔
      ∃ xs u stage later own, Passes settings total n s xs u ∧
        xs.map Passed.stage ++ stage :: later = p ∧
        stage.run.run.run (u.told (.step (xs.length + n) total stage.name)) = (.error own, t) ∧
        own.inStage stage.name = stop := by
  constructor
  · intro h
    rcases passes_or_fails settings total n p s with
      ⟨xs, u, hpass, hp⟩ | ⟨xs, u, stage, later, own, v, hpass, hp, hfail⟩
    · have hrun := hpass.run_all
      rw [hp, h] at hrun
      cases hrun
    · have hrun := hpass.run_failed later hfail
      rw [hp, h] at hrun
      cases hrun
      exact ⟨xs, u, stage, later, own, hpass, hp, hfail, rfl⟩
  · rintro ⟨xs, u, stage, later, own, hpass, hp, hfail, rfl⟩
    rw [← hpass.run_failed later hfail, hp]

/-! ## The console -/

/-- What stands on the console of stages that have succeeded from number `n` on. -/
def transcript (settings : Settings) (total n : Nat) (xs : List Passed) : List Message :=
  (xs.zipIdx n).flatMap fun x => x.1.transcript settings total x.2

theorem Passes.console (h : Passes settings total n s xs t) (hprints : ∀ x ∈ xs, x.stage.Prints) :
    t.console = s.console ++ transcript settings total n xs := by
  induction h with
  | nil => simp [transcript]
  | @cons n s t x xs hstart hrun _ ih =>
    obtain ⟨hx, hxs⟩ := List.forall_mem_cons.1 hprints
    have hprinted : x.finish.console = x.start.console ++ x.printed := by
      have hkept := hx x.start
      rw [hrun] at hkept
      exact (List.prefix_iff_eq_append.1 hkept).symm
    rw [ih hxs, BuildState.told, hprinted, hstart]
    simp [transcript, BuildState.told, Passed.transcript]

theorem Passes.console_failed (h : Passes settings total n s xs t) (hprints : ∀ x ∈ xs, x.stage.Prints)
    (hstage : stage.Prints)
    (hfail : stage.run.run.run (t.told (.step (xs.length + n) total stage.name)) = (.error stop, u)) :
    ∃ printed, u.console =
      s.console ++ transcript settings total n xs ++ .step (xs.length + n) total stage.name :: printed := by
  have hkept := hstage (t.told (.step (xs.length + n) total stage.name))
  rw [hfail] at hkept
  obtain ⟨printed, hprinted⟩ := hkept
  refine ⟨printed, ?_⟩
  rw [← hprinted, BuildState.told, h.console hprints]
  simp

/-! ## Stages that only print -/

/-- The states are the same, and what was shown by then still stands on the console. -/
def ShownOn (shown : List Message) (s t : BuildState) : Prop :=
  s = t ∧ shown <+: s.console

theorem corresponds_shownOn (ctx : Context) (shown : List Message) :
    ctx.Corresponds (ShownOn shown) (fun _ => True) fun _ => True where
  tell := by
    rintro s _ ⟨rfl, h⟩ m
    exact ⟨rfl, h.trans (List.prefix_append _ _)⟩
  shelf h := h.1 ▸ rfl
  shelve h p text := ⟨by rw [h.1], h.2⟩
  staging h := h.1 ▸ rfl
  read _ _ _ h := ⟨by rw [h.1], by rw [h.1], h.2⟩
  expand _ _ _ h := ⟨by rw [h.1], by rw [h.1], h.2⟩
  found _ _ _ := trivial
  write _ _ _ _ h := ⟨by rw [h.1], by rw [h.1], h.2⟩
  copy _ _ _ h := ⟨by rw [h.1], by rw [h.1], h.2⟩
  remove _ _ _ h := ⟨by rw [h.1], by rw [h.1], h.2⟩
  registered _ _ _ h := ⟨by rw [h.1], by rw [h.1], h.2⟩
  request _ _ _ h := ⟨by rw [h.1], h.2⟩
  reply _ _ _ h := ⟨by rw [h.1], by rw [h.1], h.2⟩

theorem prints_of_throughout (h : ∀ shown, p.Throughout fun _ b P => b.Respects (ShownOn shown) P) :
    ∀ stage ∈ p, stage.Prints :=
  fun stage hstage s => (h s.console stage hstage s s ⟨rfl, List.prefix_rfl⟩).2.1.2

section

variable (ctx : Context)

theorem prints_clean (dirs : List Path) : (Stage.clean ctx dirs).Prints :=
  fun s => ((corresponds_shownOn ctx s.console).carries.cleanStage (fun _ _ => trivial) s s
    ⟨rfl, List.prefix_rfl⟩).2.1.2

theorem prints_build (f : Format) : ∀ stage ∈ build ctx f, stage.Prints :=
  List.forall_mem_cons.2 ⟨prints_clean ctx _, prints_of_throughout fun shown =>
    (corresponds_shownOn ctx shown).carries.formatStages (ctx.settings.allowsFormat_true f)⟩

theorem prints_custom (names files : List String) : ∀ stage ∈ custom ctx names files, stage.Prints :=
  prints_of_throughout fun shown =>
    (corresponds_shownOn ctx shown).carries.customStages ctx.settings.allowsCustom_true names files

theorem prints_release (plan : ReleasePlan) (files : List String) :
    ∀ stage ∈ release ctx plan files, stage.Prints :=
  List.forall_mem_cons.2 ⟨prints_clean ctx _, prints_of_throughout fun shown =>
    (corresponds_shownOn ctx shown).carries.releaseStages
      (fun f _ => ctx.settings.allowsFormat_true f) ctx.settings.allowsJoining_true
      ctx.settings.allowsCustom_true files⟩

end

/-! ## Main result -/

/-- A run succeeds by passing all stages and reports them in their order, or it passes some, and the
next one ends it with its own failure in the context of this stage. Stages that only print leave a
console on which all that have begun are announced by number, and the outputs of all that have succeeded
are listed. -/
theorem run_stage_by_stage (settings : Settings) (p : Pipeline) (s : BuildState) :
    (∀ reports t, (run settings p).run.run s = (.ok reports, t) ↔
      ∃ xs, Passes settings p.length 1 s xs t ∧ xs.map Passed.stage = p ∧
        xs.map Passed.report = reports) ∧
    (∀ stop t, (run settings p).run.run s = (.error stop, t) ↔
      ∃ xs u stage later own, Passes settings p.length 1 s xs u ∧
        xs.map Passed.stage ++ stage :: later = p ∧
        stage.run.run.run (u.told (.step (xs.length + 1) p.length stage.name)) = (.error own, t) ∧
        own.inStage stage.name = stop) ∧
    ((∀ stage ∈ p, stage.Prints) →
      (∀ xs t, Passes settings p.length 1 s xs t → xs.map Passed.stage = p →
        t.console = s.console ++ transcript settings p.length 1 xs) ∧
      ∀ xs u stage later own t, Passes settings p.length 1 s xs u →
        xs.map Passed.stage ++ stage :: later = p →
        stage.run.run.run (u.told (.step (xs.length + 1) p.length stage.name)) = (.error own, t) →
        ∃ printed, t.console = s.console ++ transcript settings p.length 1 xs ++
          .step (xs.length + 1) p.length stage.name :: printed) := by
  refine ⟨fun _ _ => runFrom_ok_iff, fun _ _ => runFrom_error_iff, fun hprints => ⟨?_, ?_⟩⟩
  · rintro xs t hpass rfl
    exact hpass.console fun x hx => hprints x.stage (List.mem_map_of_mem hx)
  · intro xs u stage later own t hpass hp hfail
    have hpassed : ∀ x ∈ xs, x.stage ∈ p := fun x hx =>
      hp ▸ List.mem_append_left _ (List.mem_map_of_mem hx)
    have hstage : stage ∈ p := hp ▸ by simp
    exact hpass.console_failed (fun x hx => hprints x.stage (hpassed x hx)) (hprints stage hstage) hfail

/-! ## A small project -/

/-- The small project with a bundler that always fails. -/
def unbundled : Context :=
  { Context.small .small "" with
    bundler := { suspensions := 0, reply := fun _ d => (.error (.ofCause (.reported "no bundle")), d) } }

/-- What comes before the first bundle. -/
def cleaned : Passed :=
  let stage := Stage.clean unbundled [unbundled.settings.formatDir .esm, unbundled.settings.tmpDir]
  let start := (BuildState.fresh .small).told (.step 1 5 stage.name)
  ⟨stage, start, [], (stage.run.run.run start).2⟩

theorem run_stage_by_stage_small :
    (∀ stage ∈ build unbundled .esm, stage.Prints) ∧
    ∃ t, (run unbundled.settings (build unbundled .esm)).run.run (.fresh .small) =
        (.error (.failed ⟨[.stage "bundle m.js"], .reported "no bundle"⟩), t) ∧
      ∃ printed, t.console = .step 1 5 "clean build/esm build/tmp" :: .files [] ::
        .step 2 5 "bundle m.js" :: printed := by
  have hprints := prints_build unbundled .esm
  obtain ⟨-, hfails, hconsole⟩ :=
    run_stage_by_stage unbundled.settings (build unbundled .esm) (.fresh .small)
  have hfirst : cleaned.stage.run.Gives cleaned.start [] cleaned.finish :=
    gives_of_run (by decide +kernel)
  have hpass : Passes unbundled.settings 5 1 (.fresh .small) [cleaned] (cleaned.finish.told (.files [])) :=
    .cons rfl hfirst .nil
  let main := Stage.single unbundled (mainJob unbundled.settings .esm)
  let start := (cleaned.finish.told (.files [])).told (.step 2 5 main.name)
  have hmain : main.run.run.run start =
      (.error (.failed ⟨[], .reported "no bundle"⟩), (main.run.run.run start).2) := rfl
  have hlength : List.length (build unbundled .esm) = 5 := rfl
  have hshown : transcript unbundled.settings 5 1 [cleaned] =
      [.step 1 5 "clean build/esm build/tmp", .files []] := by decide +kernel
  refine ⟨hprints, _, (hfails _ _).2 ⟨[cleaned], _, main, _, _, hpass, rfl, hmain, rfl⟩, ?_⟩
  obtain ⟨printed, hp⟩ := (hconsole hprints).2 [cleaned] _ main _ _ _ hpass rfl hmain
  refine ⟨printed, hp.trans ?_⟩
  rw [hlength, hshown]
  rfl

end Pipeline

end LocaleForge
