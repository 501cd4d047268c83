import LocaleForge.Proofs.Sessions

/-!
Two ways to load headers side by side. As long as both give the same texts, whatever can come of a
session with the one can come of it with the other.
-/

namespace LocaleForge

/-- What was asked for, when, and what came of it. -/
def Ask.heard (a : Ask) : Path × Disk × Except Stop String :=
  (a.path, a.disk, a.text)

/-- A relation between states, given what has been asked so far. It goes along with all that knows
nothing of the shelf. As long as what is asked is fine, both loaders give the same text in related
states, and the states are related afterwards. -/
structure Loader.Parallels (load load' : Loader) (fine : List Ask → Prop)
    (R : List Ask → BuildState → BuildState → Prop) : Prop where
  fine_left : ∀ {asks new}, fine (asks ++ new) → fine asks
  disk : ∀ {asks s s'}, R asks s s' → s.disk = s'.disk
  console : ∀ {asks s s'}, R asks s s' → s.console = s'.console
  grow : ∀ {asks s s'}, R asks s s' → ∀ d c calls, R asks (s.grow d c calls) (s'.grow d c calls)
  load : ∀ {asks s s' p r t}, R asks s s' → fine (asks ++ [load.ask p s]) → (load p).run.run s = (r, t) →
    ∃ t', (load' p).run.run s' = (r, t') ∧ R (asks ++ [load.ask p s]) t t'

namespace Loader.Parallels

variable {load load' : Loader} {fine : List Ask → Prop} {R : List Ask → BuildState → BuildState → Prop}
  (h : load.Parallels load' fine R) {ctx : Context} {slots : Nat} {asks new : List Ask}
  {s s' t : BuildState}

include h

theorem ask_heard {p : Path} (hR : R asks s s') (hf : fine (asks ++ [load.ask p s])) :
    (load'.ask p s').heard = (load.ask p s).heard := by
  rcases hl : (load p).run.run s with ⟨r, t⟩
  obtain ⟨t', hl', -⟩ := h.load hR hf hl
  rw [Ask.heard, Ask.heard, Loader.ask, Loader.ask]
  simp only [hl, hl', h.disk hR]

theorem aloof {α : Type} {b : Build α} (hb : b.Aloof) (hR : R asks s s') {r : Except Stop α}
    (hrun : b.run.run s = (r, t)) : ∃ t', b.run.run s' = (r, t') ∧ R asks t t' := by
  obtain ⟨r', d, c, calls, hgrow⟩ := hb s.disk s.console
  rw [hgrow s rfl rfl] at hrun
  cases hrun
  exact ⟨_, hgrow s' (h.disk hR).symm (h.console hR).symm, h.grow hR d c calls⟩

theorem openWith {j : Job} (hR : R asks s s')
    (hf : fine (asks ++ [load.ask (j.headerPath ctx.settings) s])) {r : Except Stop OpenCall}
    (hrun : (ctx.openWith load j).run.run s = (r, t)) :
    ∃ t', (ctx.openWith load' j).run.run s' = (r, t') ∧
      R (asks ++ [load.ask (j.headerPath ctx.settings) s]) t t' := by
  rcases hl : (load (j.headerPath ctx.settings)).run.run s with ⟨loaded, u⟩
  obtain ⟨u', hl', hR'⟩ := h.load hR hf hl
  cases loaded with
  | error e =>
    rw [Context.openWith, Build.run_bind_of_error hl] at hrun
    cases hrun
    exact ⟨u', Build.run_bind_of_error hl', hR'⟩
  | ok header =>
    rw [Context.openWith, Build.run_bind_of_ok hl] at hrun
    rw [Context.openWith, Build.run_bind_of_ok hl']
    exact h.aloof ((Build.aloof_note _).bind fun _ => Build.aloof_pure _) hR' hrun

/-! ## Runs of jobs -/

/-- A step of one run is a step of the other. -/
theorem moves {i k : Interleaving} (hm : i.Moves ctx load slots new k) (hR : R asks i.current.state s')
    (hf : fine (asks ++ new)) : ∃ new' t',
      Interleaving.Moves ctx load' slots ⟨i.ended, ⟨s', i.current.jobs⟩, i.later⟩ new'
        ⟨k.ended, ⟨t', k.current.jobs⟩, k.later⟩ ∧
      R (asks ++ new) k.current.state t' ∧ new'.map Ask.heard = new.map Ask.heard := by
  cases hm with
  | start first room opens =>
    obtain ⟨t', opens', hR'⟩ := h.openWith hR hf opens
    refine ⟨_, t', .start first room opens', hR', ?_⟩
    exact congrArg (fun x => [x]) (h.ask_heard hR hf)
  | @finish ended later s t before after j c r closes =>
    obtain ⟨t', closes', hR'⟩ := h.aloof (ctx.aloof_closeCall c) hR closes
    rw [List.append_nil]
    exact ⟨[], t', .finish closes', hR', rfl⟩
  | next all =>
    rw [List.append_nil]
    exact ⟨[], s', .next all, hR, rfl⟩

theorem proceeds {i k : Interleaving} (hp : i.Proceeds ctx load slots new k)
    (hR : R asks i.current.state s') (hf : fine (asks ++ new)) : ∃ new' t',
      Interleaving.Proceeds ctx load' slots ⟨i.ended, ⟨s', i.current.jobs⟩, i.later⟩ new'
        ⟨k.ended, ⟨t', k.current.jobs⟩, k.later⟩ ∧
      R (asks ++ new) k.current.state t' ∧ new'.map Ask.heard = new.map Ask.heard := by
  induction hp with
  | refl =>
    rw [List.append_nil]
    exact ⟨[], s', .refl, hR, rfl⟩
  | step before last ih =>
    rw [← List.append_assoc] at hf ⊢
    obtain ⟨before', t', hbefore, hR', heq⟩ := ih (h.fine_left hf)
    obtain ⟨new', u', hlast, hR'', heq'⟩ := h.moves last hR' hf
    refine ⟨before' ++ new', u', hbefore.step hlast, hR'', ?_⟩
    rw [List.map_append, List.map_append, heq, heq']

theorem groups {groups : List (List Job)} {k : Interleaving}
    (hp : (Interleaving.ofGroups s groups).Proceeds ctx load slots new k) (hR : R asks s s')
    (hf : fine (asks ++ new)) : ∃ new' t',
      (Interleaving.ofGroups s' groups).Proceeds ctx load' slots new'
        ⟨k.ended, ⟨t', k.current.jobs⟩, k.later⟩ ∧
      R (asks ++ new) k.current.state t' ∧ new'.map Ask.heard = new.map Ask.heard := by
  cases groups with
  | nil => exact h.proceeds hp hR hf
  | cons jobs later => exact h.proceeds hp hR hf

/-! ## Computations and sessions -/

theorem performs {α : Type} {b : Build α} {out : Except Stop α × BuildState}
    (hb : ctx.Performs load b s new out) (hR : R asks s s') (hf : fine (asks ++ new)) :
    ∃ new' t', ctx.Performs load' b s' new' (out.1, t') ∧ R (asks ++ new) out.2 t' ∧
      new'.map Ask.heard = new.map Ask.heard := by
  induction hb generalizing asks s' with
  | aloof hb =>
    obtain ⟨t', hrun, hR'⟩ := h.aloof hb hR rfl
    rw [List.append_nil]
    exact ⟨[], t', hrun ▸ .aloof hb, hR', rfl⟩
  | bind first second ih ih' =>
    rw [← List.append_assoc] at hf ⊢
    obtain ⟨new', t', hfirst, hR', heq⟩ := ih hR (h.fine_left hf)
    obtain ⟨more', u', hsecond, hR'', heq'⟩ := ih' hR' hf
    refine ⟨new' ++ more', u', .bind hfirst hsecond, hR'', ?_⟩
    rw [List.map_append, List.map_append, heq, heq']
  | stop first ih =>
    obtain ⟨new', t', hfirst, hR', heq⟩ := ih hR hf
    exact ⟨new', t', .stop hfirst, hR', heq⟩
  | untried first ih =>
    obtain ⟨new', t', hfirst, hR', heq⟩ := ih hR hf
    exact ⟨new', t', .untried hfirst, hR', heq⟩
  | caught first second ih ih' =>
    rw [← List.append_assoc] at hf ⊢
    obtain ⟨new', t', hfirst, hR', heq⟩ := ih hR (h.fine_left hf)
    obtain ⟨more', u', hsecond, hR'', heq'⟩ := ih' hR' hf
    refine ⟨new' ++ more', u', .caught hfirst hsecond, hR'', ?_⟩
    rw [List.map_append, List.map_append, heq, heq']
  | @openCall j s =>
    rcases hrun : (ctx.openWith load j).run.run s with ⟨r, t⟩
    obtain ⟨t', hrun', hR'⟩ := h.openWith hR hf hrun
    have hopen : ctx.Performs load' (ctx.openCall j) s' _ _ := .openCall
    rw [hrun'] at hopen
    exact ⟨_, t', hopen, hR', congrArg (fun x => [x]) (h.ask_heard hR hf)⟩
  | jobs run all =>
    obtain ⟨new', t', hrun, hR', heq⟩ := h.groups run hR hf
    exact ⟨new', t', .jobs hrun all, hR', heq⟩
  | jobsFail run fails =>
    obtain ⟨new', t', hrun, hR', heq⟩ := h.groups run hR hf
    exact ⟨new', t', .jobsFail hrun fails, hR', heq⟩

theorem session {deeds : List Deed} {upshots : List Upshot} (hs : ctx.Session load s deeds new upshots t)
    (hR : R asks s s') (hf : fine (asks ++ new)) :
    ∃ new' t', ctx.Session load' s' deeds new' upshots t' ∧ R (asks ++ new) t t' ∧
      new'.map Ask.heard = new.map Ask.heard := by
  induction hs generalizing asks s' with
  | done =>
    rw [List.append_nil]
    exact ⟨[], s', .done, hR, rfl⟩
  | @order s t u o deeds new more r upshots performs rest ih =>
    rw [← List.append_assoc] at hf ⊢
    obtain ⟨new', t', hperforms, hR', heq⟩ := h.performs performs hR (h.fine_left hf)
    obtain ⟨more', u', hrest, hR'', heq'⟩ := ih hR' hf
    refine ⟨new' ++ more', u', ?_, hR'', ?_⟩
    · have hsame : (⟨r, t.disk, t.console⟩ : Upshot) = ⟨r, t'.disk, t'.console⟩ := by
        rw [h.disk hR', h.console hR']
      rw [hsame]
      exact .order hperforms hrest
    · rw [List.map_append, List.map_append, heq, heq']
  | @edit s u change deeds new upshots rest ih =>
    have hR' : R asks { s with disk := change s.disk } { s' with disk := change s'.disk } := by
      have hgrow := h.grow hR (change s.disk) s.console []
      rw [BuildState.grow, BuildState.grow, List.append_nil, List.append_nil] at hgrow
      rw [← h.disk hR, ← h.console hR]
      exact hgrow
    obtain ⟨new', u', hrest, hR'', heq⟩ := ih hR' hf
    exact ⟨new', u', .edit hrest, hR'', heq⟩

end Loader.Parallels

end LocaleForge
