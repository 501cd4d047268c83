import LocaleForge.Proofs.Attempts
import LocaleForge.Proofs.Composition

/-!
Two runs of one computation. From states that correspond to each other both runs give the same result,
or stop for the same reason, in states that correspond again.
-/

namespace LocaleForge

namespace Build

variable {α β : Type} {R : BuildState → BuildState → Prop} {P : α → Prop} {Q : β → Prop}

/-- From corresponding states the computation gives the same result, which is as expected, and comes to
corresponding states, whether it succeeds or fails. -/
def Respects (R : BuildState → BuildState → Prop) (b : Build α) (P : α → Prop) : Prop :=
  ∀ s t, R s t → (b.run.run s).1 = (b.run.run t).1 ∧ R (b.run.run s).2 (b.run.run t).2 ∧
    ∀ a, (b.run.run s).1 = .ok a → P a

theorem respects_pure {a : α} (h : P a) : (pure a : Build α).Respects R P := by
  refine fun s t hst => ⟨rfl, hst, fun b hb => ?_⟩
  cases hb
  exact h

theorem respects_throw (e : Stop) : (throw e : Build α).Respects R P :=
  fun _ _ hst => ⟨rfl, hst, nofun⟩

theorem Respects.bind {b : Build α} {f : α → Build β} (hb : b.Respects R P)
    (hf : ∀ a, P a → (f a).Respects R Q) : (b >>= f).Respects R Q := by
  intro s t hst
  obtain ⟨hr, hR, hP⟩ := hb s t hst
  rw [run_bind, run_bind]
  rcases hbs : b.run.run s with ⟨r, s'⟩
  rcases hbt : b.run.run t with ⟨r', t'⟩
  rw [hbs, hbt] at hr hR
  rw [hbs] at hP
  cases hr
  cases r with
  | ok a => exact hf a (hP a rfl) s' t' hR
  | error e => exact ⟨rfl, hR, nofun⟩

theorem Respects.tryCatch {b : Build α} {h : Stop → Build α} (hb : b.Respects R P)
    (hh : ∀ e, (h e).Respects R P) : (tryCatch b h : Build α).Respects R P := by
  intro s t hst
  obtain ⟨hr, hR, hP⟩ := hb s t hst
  rw [run_tryCatch, run_tryCatch]
  rcases hbs : b.run.run s with ⟨r, s'⟩
  rcases hbt : b.run.run t with ⟨r', t'⟩
  rw [hbs, hbt] at hr hR
  rw [hbs] at hP
  cases hr
  cases r with
  | ok a => exact ⟨rfl, hR, hP⟩
  | error e => exact hh e s' t' hR

theorem composes_respects (R : BuildState → BuildState → Prop) :
    Composes fun _ b P => b.Respects R P where
  pure := respects_pure
  throw := respects_throw
  bind := Respects.bind
  tryCatch := Respects.tryCatch

/-- A question about the tree has the same answer, and the states still correspond once the call is
logged. -/
def AskedAlike (R : BuildState → BuildState → Prop) (e : Event) (f : Disk → Except Failure α)
    (s t : BuildState) : Prop :=
  f s.disk = f t.disk ∧ R { s with log := s.log ++ [e] } { t with log := t.log ++ [e] }

/-- A change of the tree has the same result, and the states still correspond once it is made and
logged. -/
def ChangedAlike (R : BuildState → BuildState → Prop) (e : Event)
    (f : Disk → Except Failure α × Disk) (s t : BuildState) : Prop :=
  (f s.disk).1 = (f t.disk).1 ∧ R { s with disk := (f s.disk).2, log := s.log ++ [e] }
    { t with disk := (f t.disk).2, log := t.log ++ [e] }

theorem respects_note {e : Event}
    (h : ∀ s t, R s t → R { s with log := s.log ++ [e] } { t with log := t.log ++ [e] }) :
    (note e).Respects R fun _ => True :=
  fun s t hst => ⟨rfl, h s t hst, fun _ _ => trivial⟩

theorem respects_query {e : Event} {f : Disk → Except Failure α}
    (h : ∀ s t, R s t → AskedAlike R e f s t) (hP : ∀ d a, f d = .ok a → P a) :
    (note e >>= fun _ => query f).Respects R P := by
  intro s t hst
  obtain ⟨hf, hR⟩ := h s t hst
  simp only [run_bind, run_note, run_query]
  refine ⟨congrArg _ hf, hR, fun a ha => hP s.disk a ?_⟩
  cases hr : f s.disk with
  | ok b =>
    rw [hr] at ha
    cases ha
    rfl
  | error e =>
    rw [hr] at ha
    cases ha

theorem respects_alter {e : Event} {f : Disk → Except Failure α × Disk}
    (h : ∀ s t, R s t → ChangedAlike R e f s t) :
    (note e >>= fun _ => alter f).Respects R fun _ => True := by
  intro s t hst
  obtain ⟨hf, hR⟩ := h s t hst
  simp only [run_bind, run_note, run_alter]
  exact ⟨congrArg _ hf, hR, fun _ _ => trivial⟩

end Build

open Build

namespace Context

variable {ctx : Context} {R : BuildState → BuildState → Prop} {allowed : Event → Prop}
  {found : String → Prop}

/-- Corresponding states have the same header texts. Each call that is allowed has the same outcome from
both, and comes to corresponding states. -/
structure Corresponds (ctx : Context) (R : BuildState → BuildState → Prop) (allowed : Event → Prop)
    (found : String → Prop) : Prop where
  tell : ∀ {s t}, R s t → ∀ m,
    R { s with console := s.console ++ [m] } { t with console := t.console ++ [m] }
  shelf : ∀ {s t}, R s t → s.shelf = t.shelf
  shelve : ∀ {s t}, R s t → ∀ p text,
    R { s with shelf := s.shelf.put p text } { t with shelf := t.shelf.put p text }
  staging : ∀ {s t}, R s t →
    ctx.storage.hasEntry ctx.settings.tmpDir s.disk = ctx.storage.hasEntry ctx.settings.tmpDir t.disk
  read : ∀ {p}, allowed (.read p) → ∀ s t, R s t → AskedAlike R (.read p) (ctx.storage.read p) s t
  expand : ∀ {root pattern}, allowed (.expand root pattern) → ∀ s t, R s t →
    AskedAlike R (.expand root pattern) (ctx.storage.expand root pattern) s t
  found : ∀ {root pattern d files}, ctx.storage.expand root pattern d = .ok files →
    ∀ file ∈ files, found file
  write : ∀ {p} text, allowed (.write p) → ∀ s t, R s t →
    ChangedAlike R (.write p) (ctx.storage.write p text) s t
  copy : ∀ {source target}, allowed (.copy source target) → ∀ s t, R s t →
    ChangedAlike R (.copy source target) (ctx.storage.copy source target) s t
  remove : ∀ {p}, allowed (.remove p) → ∀ s t, R s t →
    ChangedAlike R (.remove p) (ctx.storage.remove p) s t
  registered : ∀ {bundle}, allowed (.probe bundle) → ∀ s t, R s t →
    ChangedAlike R (.probe bundle) (ctx.probe.registered bundle) s t
  request : ∀ {r}, allowed (.request r) → ∀ s t, R s t →
    R { s with log := s.log ++ [.request r] } { t with log := t.log ++ [.request r] }
  reply : ∀ {r}, allowed (.request r) → ∀ s t, R s t →
    ChangedAlike R (.reply ⟨r, (ctx.bundler.reply r s.disk).1.toOption⟩) (ctx.bundler.reply r) s t

namespace Corresponds

variable (h : ctx.Corresponds R allowed found)

include h

theorem header {p : Path} (hp : p = Job.noHeader ∨ allowed (.read p)) :
    (ctx.header p).Respects R fun _ => True := by
  rw [Context.header]
  split
  case isTrue => exact respects_pure trivial
  case isFalse hne =>
    intro s t hst
    rw [run_bind, run_bind, run_get, run_get]
    simp only [h.shelf hst]
    cases t.shelf.get? p with
    | some text => exact ⟨rfl, hst, fun _ _ => trivial⟩
    | none =>
      have hread : (ctx.read p).Respects R fun _ => True :=
        respects_query (h.read (hp.resolve_left hne)) fun _ _ _ => trivial
      refine hread.bind (fun text _ => ?_) s t hst
      exact Respects.bind (P := fun _ => True)
        (fun s t hst => ⟨rfl, h.shelve hst p text, fun _ _ => trivial⟩) fun _ _ => respects_pure trivial

theorem openCall {j : Job} (hj : j.Allowed ctx.settings allowed) :
    (ctx.openCall j).Respects R (·.Allowed allowed) :=
  (h.header hj.header).bind fun _ _ => (respects_note (h.request hj.request)).bind fun _ _ =>
    respects_pure ⟨hj.request, hj.target⟩

theorem answer {r : Request} (hr : allowed (.request r)) : (ctx.answer r).Respects R fun _ => True := by
  intro s t hst
  obtain ⟨hreply, hR⟩ := h.reply hr s t hst
  simp only [Context.answer, run_bind, run_get, run_note, run_alter]
  rw [← hreply]
  exact ⟨rfl, hR, fun _ _ => trivial⟩

theorem closeCall {c : OpenCall} (hc : c.Allowed allowed) : (ctx.closeCall c).Respects R fun _ => True :=
  (h.answer hc.request).bind fun _ _ => (respects_alter (h.write _ hc.target)).bind fun _ _ =>
    respects_pure trivial

/-- Corresponding runs of every call, and of all that is made of calls. -/
theorem carries : ctx.Carries (fun _ b P => b.Respects R P) allowed found :=
  have parts : ctx.CarriesParts (fun _ b P => b.Respects R P) allowed :=
    ⟨composes_respects R, h.openCall, h.closeCall⟩
  { composes := composes_respects R
    tell := fun m _ _ hst => ⟨rfl, h.tell hst m, fun _ _ => trivial⟩
    hasStaging := fun _ _ hst => ⟨congrArg Except.ok (h.staging hst), hst, fun _ _ => trivial⟩
    read := fun hp => respects_query (h.read hp) fun _ _ _ => trivial
    write := fun text hp => respects_alter (h.write text hp)
    copy := fun hp => respects_alter (h.copy hp)
    expand := fun hp => respects_query (h.expand hp) fun _ _ hfiles => h.found hfiles
    remove := fun hp => respects_alter (h.remove hp)
    registered := fun hp => respects_alter (h.registered hp)
    transpile := parts.transpile
    runJobs := parts.runJobs }

end Corresponds

end Context

end LocaleForge
