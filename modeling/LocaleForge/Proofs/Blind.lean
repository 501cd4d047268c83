import LocaleForge.Proofs.Correspondence

/-!
Nothing that a build does depends on what was printed before. Two states with the same tree, the same
shelf and the same log lead to the same result and to such states again.
-/

namespace LocaleForge

/-- The same but for what was printed. -/
structure BuildState.SameWork (s t : BuildState) : Prop where
  disk : s.disk = t.disk
  shelf : s.shelf = t.shelf
  log : s.log = t.log

theorem BuildState.SameWork.symm {s t : BuildState} (h : s.SameWork t) : t.SameWork s :=
  ⟨h.disk.symm, h.shelf.symm, h.log.symm⟩

theorem BuildState.SameWork.trans {s t u : BuildState} (h : s.SameWork t) (h' : t.SameWork u) :
    s.SameWork u :=
  ⟨h.disk.trans h'.disk, h.shelf.trans h'.shelf, h.log.trans h'.log⟩

namespace Build

variable {α β : Type} {s t : BuildState}

/-- From both states the computation gives the same result, or stops for the same reason, and does the
same work. -/
def Alike (b : Build α) (s t : BuildState) : Prop :=
  (b.run.run s).1 = (b.run.run t).1 ∧ (b.run.run s).2.SameWork (b.run.run t).2

theorem Gives.alike {b : Build α} {a : α} {s' t' : BuildState} (hs : b.Gives s a s')
    (ht : b.Gives t a t') (h : s'.SameWork t') : b.Alike s t := by
  rw [Gives] at hs ht
  rw [Alike, hs, ht]
  exact ⟨rfl, h⟩

/-- The computation does not depend on what was printed. -/
def Blind (b : Build α) : Prop :=
  ∀ s t, s.SameWork t → b.Alike s t

/-! ## Ways to put computations together -/

theorem blind_iff {b : Build α} : b.Blind ↔ b.Respects BuildState.SameWork fun _ => True := by
  constructor
  · exact fun h s t hst => ⟨(h s t hst).1, (h s t hst).2, fun _ _ => trivial⟩
  · exact fun h s t hst => ⟨(h s t hst).1, (h s t hst).2.1⟩

theorem Alike.bind {b : Build α} {f : α → Build β} (hb : b.Alike s t) (hf : ∀ a, (f a).Blind) :
    (b >>= f).Alike s t := by
  rw [Alike, run_bind, run_bind]
  obtain ⟨hr, hs⟩ := hb
  rcases hbs : b.run.run s with ⟨r, s'⟩
  rcases hbt : b.run.run t with ⟨r', t'⟩
  rw [hbs, hbt] at hr hs
  cases hr
  cases r with
  | ok a => exact hf a s' t' hs
  | error e => exact ⟨rfl, hs⟩

theorem blind_pure (a : α) : (pure a : Build α).Blind :=
  blind_iff.2 (respects_pure trivial)

theorem Blind.bind {b : Build α} {f : α → Build β} (hb : b.Blind) (hf : ∀ a, (f a).Blind) :
    (b >>= f).Blind :=
  blind_iff.2 ((blind_iff.1 hb).bind fun a _ => blind_iff.1 (hf a))

theorem blind_tell (m : Console.Message) : (tell m).Blind :=
  fun _ _ h => ⟨rfl, h.disk, h.shelf, h.log⟩

/-- Both computations give the same result, or stop for the same reason, and do the same work. -/
def Mirrors (b b' : Build α) : Prop :=
  ∀ s, (b.run.run s).1 = (b'.run.run s).1 ∧ (b.run.run s).2.SameWork (b'.run.run s).2

theorem Mirrors.refl (b : Build α) : b.Mirrors b :=
  fun _ => ⟨rfl, rfl, rfl, rfl⟩

theorem Mirrors.trans {b b' b'' : Build α} (h : b.Mirrors b') (h' : b'.Mirrors b'') : b.Mirrors b'' := by
  intro s
  obtain ⟨hr, hs⟩ := h s
  obtain ⟨hr', hs'⟩ := h' s
  exact ⟨hr.trans hr', hs.trans hs'⟩

theorem Mirrors.bind {b b' : Build α} {f f' : α → Build β} (hb : b.Mirrors b')
    (hf : ∀ a, (f a).Mirrors (f' a)) (hblind : ∀ a, (f' a).Blind) :
    (b >>= f).Mirrors (b' >>= f') := by
  intro s
  rw [run_bind, run_bind]
  obtain ⟨hr, hs⟩ := hb s
  rcases hbs : b.run.run s with ⟨r, t⟩
  rcases hbt : b'.run.run s with ⟨r', t'⟩
  rw [hbs, hbt] at hr hs
  cases hr
  cases r with
  | ok a =>
    obtain ⟨hr, hs'⟩ := hf a t
    obtain ⟨hr', hs''⟩ := hblind a t t' hs
    exact ⟨hr.trans hr', hs'.trans hs''⟩
  | error e => exact ⟨rfl, hs⟩

end Build

open Build

namespace Context

variable (ctx : Context) {allowed : Event → Prop} {found : String → Prop}

/-- Every call works on what does not depend on what was printed. -/
theorem corresponds_sameWork :
    ctx.Corresponds BuildState.SameWork (fun _ => True) fun _ => True where
  tell h _ := ⟨h.disk, h.shelf, h.log⟩
  shelf h := h.shelf
  shelve h p text := ⟨h.disk, congrArg (·.put p text) h.shelf, h.log⟩
  staging h := by rw [h.disk]
  read _ s t h := ⟨by rw [h.disk], h.disk, h.shelf, congrArg (· ++ _) h.log⟩
  expand _ s t h := ⟨by rw [h.disk], h.disk, h.shelf, congrArg (· ++ _) h.log⟩
  found _ _ _ := trivial
  write text _ s t h := by
    rw [ChangedAlike, h.disk]
    exact ⟨rfl, rfl, h.shelf, congrArg (· ++ _) h.log⟩
  copy _ s t h := by
    rw [ChangedAlike, h.disk]
    exact ⟨rfl, rfl, h.shelf, congrArg (· ++ _) h.log⟩
  remove _ s t h := by
    rw [ChangedAlike, h.disk]
    exact ⟨rfl, rfl, h.shelf, congrArg (· ++ _) h.log⟩
  registered _ s t h := by
    rw [ChangedAlike, h.disk]
    exact ⟨rfl, rfl, h.shelf, congrArg (· ++ _) h.log⟩
  request _ s t h := ⟨h.disk, h.shelf, congrArg (· ++ _) h.log⟩
  reply _ s t h := by
    rw [ChangedAlike, h.disk]
    exact ⟨rfl, rfl, h.shelf, congrArg (· ++ _) h.log⟩

end Context

namespace Pipeline

variable (ctx : Context)

/-! ## Stages -/

theorem blind_stages {p : Pipeline}
    (h : p.Throughout fun _ b P => b.Respects BuildState.SameWork P) : ∀ stage ∈ p, stage.run.Blind :=
  fun stage hstage => blind_iff.2 (h stage hstage)

theorem blind_runFrom {s : Settings} {total : Nat} {p : Pipeline} (h : ∀ stage ∈ p, stage.run.Blind)
    (n : Nat) : (runFrom s total n p).Blind :=
  have hall : p.Throughout fun _ b P => b.Respects BuildState.SameWork P :=
    fun stage hstage => blind_iff.1 (h stage hstage)
  blind_iff.2 (hall.runFrom (composes_respects _) (fun m => blind_iff.1 (blind_tell m)) s total n)

/-- The stages of a release after the output directory is cleaned do not depend on what was printed. -/
theorem blind_releaseStages (plan : ReleasePlan) (files : List String) :
    ∀ stage ∈ (release ctx plan files).tail, stage.run.Blind :=
  blind_stages (ctx.corresponds_sameWork.carries.releaseStages (fun f _ => ctx.settings.allowsFormat_true f)
    ctx.settings.allowsJoining_true ctx.settings.allowsCustom_true files)

end Pipeline

end LocaleForge
