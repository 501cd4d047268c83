import LocaleForge.Build.Context

/-!
Computations that succeed: what each way of putting computations together needs to give a result,
and the state it gives the result in. What a computation does before it fails is left aside here.
-/

namespace LocaleForge.Build

/-- From the state `s` the computation gives `a` and ends in the state `t`. -/
def Gives {α : Type} (b : Build α) (s : BuildState) (a : α) (t : BuildState) : Prop :=
  b.run.run s = (.ok a, t)

variable {α β : Type} {s t u : BuildState}

theorem run_bind (b : Build α) (f : α → Build β) (s : BuildState) :
    (b >>= f).run.run s =
      match b.run.run s with
      | (.ok a, t) => (f a).run.run t
      | (.error e, t) => (.error e, t) := by
  rcases h : b.run.run s with ⟨r, t⟩
  rw [ExceptT.run_bind, StateT.run_bind, h]
  cases r <;> rfl

theorem run_tryCatch (b : Build α) (h : Stop → Build α) (s : BuildState) :
    (tryCatch b h : Build α).run.run s =
      match b.run.run s with
      | (.ok a, t) => (.ok a, t)
      | (.error e, t) => (h e).run.run t := by
  rcases hb : b.run.run s with ⟨r, t⟩
  change (ExceptT.tryCatch b h).run.run s = _
  rw [ExceptT.tryCatch, ExceptT.run_mk]
  change (b.run >>= _).run s = _
  rw [StateT.run_bind, hb]
  cases r <;> rfl

theorem mapError_ok {ε ε' : Type} (a : α) (f : ε → ε') :
    (Except.ok a).mapError f = .ok a :=
  rfl

theorem mapError_error {ε ε' : Type} (e : ε) (f : ε → ε') :
    (Except.error e : Except ε α).mapError f = .error (f e) :=
  rfl

theorem mapError_eq_ok_iff {ε ε' : Type} {r : Except ε α} {f : ε → ε'} {a : α} :
    r.mapError f = .ok a ↔ r = .ok a := by
  cases r with
  | ok b => rw [mapError_ok, Except.ok.injEq, Except.ok.injEq]
  | error e =>
    rw [mapError_error]
    constructor <;> intro h <;> cases h

/-- A computation that succeeds does so in one way. -/
theorem Gives.unique {b : Build α} {a a' : α} (h : b.Gives s a t) (h' : b.Gives s a' u) :
    a = a' ∧ t = u := by
  rw [Gives] at h h'
  rw [h] at h'
  cases h'
  exact ⟨rfl, rfl⟩

theorem eq_ok_of_toOption {ε : Type} {r : Except ε α} {a : α} (h : r.toOption = some a) : r = .ok a := by
  cases r with
  | ok a' =>
    cases h
    rfl
  | error e => cases h

theorem gives_of_run {b : Build α} {a : α} (h : (b.run.run s).1.toOption = some a) :
    b.Gives s a (b.run.run s).2 :=
  Prod.ext (eq_ok_of_toOption h) rfl

theorem gives_pure_iff {a b : α} : (pure a : Build α).Gives s b t ↔ a = b ∧ s = t := by
  change (Except.ok a, s) = (Except.ok b, t) ↔ a = b ∧ s = t
  simp only [Prod.mk.injEq, Except.ok.injEq]

theorem gives_bind_iff {b : Build α} {f : α → Build β} {c : β} :
    (b >>= f).Gives s c u ↔ ∃ a t, b.Gives s a t ∧ (f a).Gives t c u := by
  rw [Gives, run_bind]
  rcases hb : b.run.run s with ⟨r, t⟩
  simp only [Gives, hb]
  cases r with
  | ok a =>
    refine ⟨fun h => ⟨a, t, rfl, h⟩, ?_⟩
    rintro ⟨a', t', he, h⟩
    cases he
    exact h
  | error e =>
    refine ⟨nofun, ?_⟩
    rintro ⟨a', t', he, -⟩
    cases he

theorem Gives.bind {b : Build α} {f : α → Build β} {a : α} {c : β} (hb : b.Gives s a t)
    (hf : (f a).Gives t c u) : (b >>= f).Gives s c u :=
  gives_bind_iff.2 ⟨a, t, hb, hf⟩

theorem gives_pure (a : α) (s : BuildState) : (pure a : Build α).Gives s a s :=
  rfl

theorem gives_map_iff {b : Build α} {f : α → β} {c : β} :
    (f <$> b).Gives s c t ↔ ∃ a, b.Gives s a t ∧ f a = c := by
  simp only [map_eq_pure_bind, gives_bind_iff, gives_pure_iff]
  constructor
  · rintro ⟨a, t', hb, hc, rfl⟩
    exact ⟨a, hb, hc⟩
  · rintro ⟨a, hb, hc⟩
    exact ⟨a, t, hb, hc, rfl⟩

theorem not_gives_throw {e : Stop} {a : α} : ¬ (throw e : Build α).Gives s a t := by
  intro h
  cases h

theorem gives_get_iff {a : BuildState} : (get : Build BuildState).Gives s a t ↔ s = a ∧ s = t := by
  change (Except.ok s, s) = (Except.ok a, t) ↔ s = a ∧ s = t
  simp only [Prod.mk.injEq, Except.ok.injEq]

theorem gives_modify_iff {f : BuildState → BuildState} {a : Unit} :
    (modify f : Build Unit).Gives s a t ↔ t = f s := by
  change (Except.ok (), f s) = (Except.ok a, t) ↔ t = f s
  simp only [Prod.mk.injEq, true_and]
  exact eq_comm

/-- A computation that catches failures gives a result of its own or one of the handler. -/
theorem gives_tryCatch_iff {b : Build α} {h : Stop → Build α} {a : α} :
    (tryCatch b h : Build α).Gives s a u ↔
      b.Gives s a u ∨ ∃ e t, b.run.run s = (.error e, t) ∧ (h e).Gives t a u := by
  rw [Gives, run_tryCatch]
  rcases hb : b.run.run s with ⟨r, t⟩
  simp only [Gives, hb]
  cases r with
  | ok a' =>
    refine ⟨fun h => .inl h, ?_⟩
    rintro (h | ⟨e, t', he, -⟩)
    · exact h
    · cases he
  | error e =>
    refine ⟨fun h => .inr ⟨e, t, rfl, h⟩, ?_⟩
    rintro (h | ⟨e', t', he, hh⟩)
    · cases h
    · cases he
      exact hh

theorem gives_ofResult_iff {r : Except Failure α} {a : α} :
    (ofResult r).Gives s a t ↔ r = .ok a ∧ s = t := by
  cases r with
  | ok b => rw [ofResult, gives_pure_iff, Except.ok.injEq]
  | error f => exact ⟨fun h => absurd h not_gives_throw, nofun⟩

theorem gives_note_iff {e : Event} {a : Unit} :
    (note e).Gives s a t ↔ t = { s with log := s.log ++ [e] } :=
  gives_modify_iff

theorem gives_tell_iff {m : Console.Message} {a : Unit} :
    (tell m).Gives s a t ↔ t = { s with console := s.console ++ [m] } :=
  gives_modify_iff

theorem gives_note (e : Event) (s : BuildState) :
    (note e).Gives s () { s with log := s.log ++ [e] } :=
  rfl

theorem gives_tell (m : Console.Message) (s : BuildState) :
    (tell m).Gives s () { s with console := s.console ++ [m] } :=
  rfl

theorem gives_query_iff {f : Disk → Except Failure α} {a : α} :
    (query f).Gives s a t ↔ f s.disk = .ok a ∧ s = t := by
  simp only [query, gives_bind_iff, gives_get_iff, gives_ofResult_iff]
  constructor
  · rintro ⟨_, _, ⟨rfl, rfl⟩, h⟩
    exact h
  · exact fun h => ⟨s, s, ⟨rfl, rfl⟩, h⟩

theorem gives_alter_iff {f : Disk → Except Failure α × Disk} {a : α} :
    (alter f).Gives s a t ↔ (f s.disk).1 = .ok a ∧ t = { s with disk := (f s.disk).2 } := by
  simp only [alter, gives_bind_iff, gives_get_iff, gives_ofResult_iff]
  constructor
  · rintro ⟨_, _, ⟨rfl, rfl⟩, _, _, hset, h, rfl⟩
    cases hset
    exact ⟨h, rfl⟩
  · rintro ⟨h, rfl⟩
    exact ⟨s, s, ⟨rfl, rfl⟩, (), _, rfl, h, rfl⟩

theorem gives_during_iff {x : Activity} {b : Build α} {a : α} :
    (during x b).Gives s a t ↔ b.Gives s a t := by
  rw [during, gives_tryCatch_iff, or_iff_left]
  rintro ⟨e, t', -, h⟩
  cases e with
  | failed f => exact not_gives_throw h
  | panicked => exact not_gives_throw h

theorem gives_mapM_nil_iff {f : α → Build β} {bs : List β} :
    ([].mapM f).Gives s bs t ↔ bs = [] ∧ s = t := by
  rw [List.mapM_nil, gives_pure_iff, eq_comm (a := [])]

theorem gives_mapM_cons_iff {f : α → Build β} {x : α} {xs : List α} {bs : List β} :
    ((x :: xs).mapM f).Gives s bs u ↔
      ∃ b t bs', (f x).Gives s b t ∧ (xs.mapM f).Gives t bs' u ∧ bs = b :: bs' := by
  simp only [List.mapM_cons, gives_bind_iff, gives_pure_iff]
  constructor
  · rintro ⟨b, t, hb, bs', u', hbs, rfl, rfl⟩
    exact ⟨b, t, bs', hb, hbs, rfl⟩
  · rintro ⟨b, t, bs', hb, hbs, rfl⟩
    exact ⟨b, t, hb, bs', u, hbs, rfl, rfl⟩

end LocaleForge.Build
