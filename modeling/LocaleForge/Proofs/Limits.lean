import LocaleForge.Config.Reader
import LocaleForge.Proofs.Barrier
import LocaleForge.Proofs.Setting

/-!
What size a group of jobs may have. A configuration that is read has a size of at least one, so batches are never
empty. At the other end nothing is checked, although a queue has a limit: above it a pooled run does not even start.
-/

namespace LocaleForge

namespace Config

variable {text : String} {c : Config}

theorem problem?_of_parse (h : parse text = .ok c) : c.problem? = none := by
  rw [parse] at h
  cases hv : Toml.parse? text with
  | none =>
    rw [hv] at h
    cases h
  | some v =>
    simp only [hv, bind, Except.bind] at h
    split at h
    case h_1 => cases h
    case h_2 c' hread =>
      cases hp : c'.problem? with
      | some p =>
        rw [hp] at h
        cases h
      | none =>
        rw [hp] at h
        cases h
        exact hp

theorem size_pos_of_parse (h : parse text = .ok c) : 0 < c.batch.size := by
  have hnone := problem?_of_parse h
  rw [problem?] at hnone
  split at hnone
  case isTrue => cases hnone
  case isFalse hsize => exact Nat.pos_of_ne_zero hsize

end Config

variable {ctx : Context} {slots : Nat} {s t : BuildState} {stop : Stop}

/-! ## Jobs end in failures that they report -/

namespace Context

theorem failed_of_openCall {j : Job} (h : (ctx.openCall j).run.run s = (.error stop, t)) :
    ∃ f, stop = .failed f := by
  rcases openCall_cases h with ⟨text, hr, -⟩ | ⟨f, hr, -⟩
  · cases hr
  · exact ⟨f, Except.error.inj hr⟩

theorem failed_of_closeCall {c : OpenCall} (h : (ctx.closeCall c).run.run s = (.error stop, t)) :
    ∃ f, stop = .failed f := by
  rcases closeCall_cases h with ⟨f, hr, -⟩ | ⟨text, w, d, -, ⟨-, hr⟩ | ⟨f, -, hr⟩, -⟩
  · exact ⟨f, Except.error.inj hr⟩
  · cases hr
  · exact ⟨f, Except.error.inj hr⟩

end Context

/-- Each job that has failed says why. -/
def Group.Explained (g : Group) : Prop :=
  ∀ j stop, (j, Progress.failed stop) ∈ g.jobs → ∃ f, stop = .failed f

theorem Group.explained_ofJobs (s : BuildState) (jobs : List Job) : (ofJobs s jobs).Explained := by
  intro j stop h
  obtain ⟨_, -, heq⟩ := List.mem_map.1 h
  cases heq

theorem Group.Step.explained {g g' : Group} (h : g.Step ctx slots g') (hg : g.Explained) :
    g'.Explained := by
  intro k stop hk
  cases h with
  | @start s t before after j r first room opens =>
    simp only [List.mem_append, List.mem_cons, Prod.mk.injEq] at hk
    rcases hk with hk | ⟨-, hk⟩ | hk
    · exact hg k stop (List.mem_append_left _ hk)
    · cases r with
      | ok c => cases hk
      | error e =>
        cases hk
        exact Context.failed_of_openCall opens
    · exact hg k stop (List.mem_append_right _ (List.mem_cons_of_mem _ hk))
  | @finish s t before after j c r closes =>
    simp only [List.mem_append, List.mem_cons, Prod.mk.injEq] at hk
    rcases hk with hk | ⟨-, hk⟩ | hk
    · exact hg k stop (List.mem_append_left _ hk)
    · cases r with
      | ok target => cases hk
      | error e =>
        cases hk
        exact Context.failed_of_closeCall closes
    · exact hg k stop (List.mem_append_right _ (List.mem_cons_of_mem _ hk))

theorem Interleaving.Reaches.explained {i k : Interleaving} (h : Reaches ctx slots i k)
    (hi : i.current.Explained) : k.current.Explained := by
  induction h with
  | refl => exact hi
  | step before last ih =>
    cases last with
    | within step => exact step.explained ih
    | next all => exact Group.explained_ofJobs _ _

theorem Interleaving.explained_ofGroups (s : BuildState) (groups : List (List Job)) :
    (ofGroups s groups).current.Explained := by
  cases groups with
  | nil => exact Group.explained_ofJobs s []
  | cons jobs later => exact Group.explained_ofJobs s jobs

/-- No order of the answers makes a run panic. -/
theorem Interleaving.Reaches.not_fails_panicked {k : Interleaving} {groups : List (List Job)}
    (h : Reaches ctx slots (ofGroups s groups) k) : ¬ k.Fails .panicked := by
  rintro ⟨j, hj⟩
  obtain ⟨f, hf⟩ := h.explained (explained_ofGroups s groups) j .panicked hj
  cases hf

theorem Interleaving.EndsWith.ne_panicked {α : Type} {give : α → List Path} {groups : List (List Job)}
    {out : Except Stop α × BuildState} (h : EndsWith ctx slots (ofGroups s groups) give out) :
    out.1 ≠ .error .panicked := by
  obtain ⟨r, t⟩ := out
  rintro rfl
  obtain ⟨k, hk, -, hfails⟩ := h
  exact hk.not_fails_panicked hfails

/-- What a run of jobs comes to is the end of one of the runs in which answers come in any order, unless the queue
cannot be set up. -/
theorem Interleaving.endsWith_or_panics (ctx : Context) (s : BuildState) (jobs : List Job) :
    EndsWith ctx (max ctx.settings.batchSize 1) (ofGroups s (ctx.settings.groups jobs)) id
        ((ctx.runJobs jobs).run.run s) ∨
      ctx.settings.batchMode = .pooled ∧ Context.maxSlots < ctx.settings.batchSize ∧
        (ctx.runJobs jobs).run.run s = (.error .panicked, s) := by
  by_cases limit : ctx.settings.batchSize ≤ Context.maxSlots
  · exact .inl (endsWith_runJobs limit s jobs)
  · rw [Context.runJobs, Settings.groups]
    cases ctx.settings.batchMode with
    | batched => exact .inl (endsWith_runBatched (by omega) s jobs)
    | pooled =>
      have hover : Context.maxSlots < max ctx.settings.batchSize 1 := by omega
      refine .inr ⟨rfl, by omega, ?_⟩
      simp only [Context.runPooled, if_pos hover]
      rfl

/-! ## The size of a configuration -/

namespace Context

variable {text : String} {c : Config} {base : Path}

/-- With a configuration that is read, batches hold at least one job, and whatever the jobs are and in whatever order
answers come, a run ends well or with a failure that is reported: it panics only where a queue is asked for more slots
than one can have, and then before anything is done. -/
theorem runJobs_panics_iff (accepted : Config.parse text = .ok c)
    (made : ctx.settings = .ofConfig c base) (jobs : List Job) (s : BuildState) :
    0 < c.batch.size ∧
    (∀ t, (ctx.runJobs jobs).run.run s = (.error .panicked, t) ↔
      c.batch.mode = .pooled ∧ maxSlots < c.batch.size ∧ t = s) ∧
    (c.batch.mode = .batched → ctx.runJobs jobs = ctx.runBatched c.batch.size jobs) ∧
    (c.batch.mode = .pooled → ctx.runJobs jobs = ctx.runPooled c.batch.size jobs) ∧
    ∀ i, Interleaving.Reaches ctx c.batch.size (.ofGroups s (ctx.settings.groups jobs)) i →
      ¬ i.Fails .panicked := by
  have hpos := Config.size_pos_of_parse accepted
  have hmode : ctx.settings.batchMode = c.batch.mode := by rw [made]; rfl
  have hgiven : ctx.settings.batchSize = c.batch.size := by rw [made]; rfl
  have hsize : max ctx.settings.batchSize 1 = c.batch.size := by
    rw [hgiven]
    exact Nat.max_eq_left hpos
  have hpooled : c.batch.mode = .pooled → ctx.runJobs jobs = ctx.runPooled c.batch.size jobs := by
    intro h
    rw [runJobs, hmode, h, hsize]
  refine ⟨hpos, fun t => ⟨fun h => ?_, ?_⟩, fun h => ?_, hpooled, fun i hi => hi.not_fails_panicked⟩
  · rcases Interleaving.endsWith_or_panics ctx s jobs with hends | ⟨hm, hover, hrun⟩
    · rw [h] at hends
      exact absurd rfl hends.ne_panicked
    · rw [hrun] at h
      cases h
      exact ⟨hmode ▸ hm, hgiven ▸ hover, rfl⟩
  · rintro ⟨hm, hover, rfl⟩
    rw [hpooled hm, runPooled, if_pos hover]
    rfl
  · rw [runJobs, hmode, h, hsize]

theorem runJobs_panics_iff_usual :
    let c : Config := { batch := ⟨3, .pooled⟩ }
    let ctx := small (.ofConfig c ⟨"/"⟩) "b"
    let jobs : List Job := [Pipeline.mainJob ctx.settings .umd]
    Config.parse "[batch]\nsize = 3\nmode = \"pooled\"\n" = .ok c ∧ ctx.settings = .ofConfig c ⟨"/"⟩ ∧
    ∀ t, (ctx.runJobs jobs).run.run (.fresh .small) ≠ (.error .panicked, t) := by
  intro c ctx jobs
  have accepted : Config.parse "[batch]\nsize = 3\nmode = \"pooled\"\n" = .ok c :=
    Build.eq_ok_of_toOption (by decide +kernel)
  have made : ctx.settings = .ofConfig c ⟨"/"⟩ := rfl
  obtain ⟨-, hpanics, -⟩ := runJobs_panics_iff accepted made jobs (.fresh .small)
  refine ⟨accepted, made, fun t h => ?_⟩
  obtain ⟨-, hover, -⟩ := (hpanics t).1 h
  exact absurd hover (by decide)

/-- A configuration that asks for one slot more than a queue can have. -/
def oversized (mode : BatchMode) : Config where
  batch := ⟨maxSlots + 1, mode⟩

/-- The size is accepted in both modes, but in one of them no list of jobs can be run, not even the empty one. -/
theorem oversized_queue_panics :
    Config.parse "[batch]\nsize = 2305843009213693952\nmode = \"pooled\"\n" = .ok (oversized .pooled) ∧
    ((small (.ofConfig (oversized .pooled) ⟨"/"⟩) "b").runJobs []).run.run (.fresh .small) =
      (.error .panicked, .fresh .small) ∧
    Config.parse "[batch]\nsize = 2305843009213693952\nmode = \"batched\"\n" = .ok (oversized .batched) ∧
    ((small (.ofConfig (oversized .batched) ⟨"/"⟩) "b").runJobs []).run.run (.fresh .small) =
      (.ok [], .fresh .small) := by
  refine ⟨Build.eq_ok_of_toOption (by decide +kernel), rfl, Build.eq_ok_of_toOption (by decide +kernel), ?_⟩
  have hnone : chunks (max (maxSlots + 1) 1) ([] : List Job) = [] := by rw [chunks]
  change ((small (.ofConfig (oversized .batched) ⟨"/"⟩) "b").runBatched (max (maxSlots + 1) 1) []).run.run _ = _
  rw [runBatched, hnone]
  rfl

end Context

end LocaleForge
