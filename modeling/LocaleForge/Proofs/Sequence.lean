import LocaleForge.Proofs.Setting
import LocaleForge.Proofs.Success

/-!
Jobs whose calls do not wait. Each job ends before the next one starts, so the waves of a group, the
batches and the queue come to the same: the jobs run one after another up to the first failure.
-/

namespace LocaleForge

/-- Running a list of lists one by one and joining the results is running the joined list. -/
theorem flatten_mapM {α β : Type} {m : Type → Type} [Monad m] [LawfulMonad m] (f : α → m β)
    (xss : List (List α)) :
    List.flatten <$> xss.mapM (fun xs => xs.mapM f) = xss.flatten.mapM f := by
  induction xss with
  | nil => simp
  | cons xs xss ih =>
    rw [List.mapM_cons, List.flatten_cons, List.mapM_append, ← ih]
    simp

/-- A failure that is caught and then thrown again has not been caught. -/
theorem Build.tryCatch_bind_of_rethrow {α β γ : Type} (b : Build α) (f : α → β) (held : Stop → β)
    (k : β → Build γ) (hk : ∀ stop, k (held stop) = throw stop) :
    ((tryCatch (f <$> b) fun stop => pure (held stop) : Build β) >>= k) = b >>= fun a => k (f a) := by
  apply ExceptT.ext
  apply StateT.ext
  intro s
  rw [run_bind, run_tryCatch, map_eq_pure_bind, run_bind, run_bind]
  rcases b.run.run s with ⟨r, t⟩
  cases r with
  | ok a => rfl
  | error e =>
    change (k (held e)).run.run t = _
    rw [hk]
    rfl

namespace Context

variable {ctx : Context}

theorem start_eq (now : ctx.bundler.suspensions = 0) (j : Job) :
    ctx.start j = Started.ended <$> ctx.transpile j := by
  simp only [start, transpile, now, if_pos, map_eq_pure_bind, bind_assoc]

/-- A wave takes up all jobs, each of which ends at once. -/
theorem startWave_eq (now : ctx.bundler.suspensions = 0) (holds : Bool) (slots : Nat)
    (jobs : List Job) :
    ctx.startWave holds (slots + 1) false jobs =
      (fun targets => (targets.map Started.ended, [])) <$> jobs.mapM ctx.transpile := by
  induction jobs with
  | nil => simp [startWave]
  | cons j js ih =>
    rw [startWave, tryStart, start_eq now,
      Build.tryCatch_bind_of_rethrow _ _ _ _ (fun stop => by simp)]
    simp [ih]

/-- What has ended is not ended again. -/
theorem endWave_ended (targets : List Path) :
    ctx.endWave false (targets.map Started.ended) = pure targets := by
  simp only [endWave, Bool.false_eq_true, if_false]
  induction targets with
  | nil => rfl
  | cons target targets ih => simp [ih, endStarted, List.mapM_cons]

theorem runGroup_eq (now : ctx.bundler.suspensions = 0) {slots : Nat} {jobs : List Job}
    (room : jobs ≠ [] → 0 < slots) : ctx.runGroup slots jobs = jobs.mapM ctx.transpile := by
  cases jobs with
  | nil => rfl
  | cons j js =>
    obtain ⟨n, rfl⟩ := Nat.exists_eq_add_one.2 (room (by simp))
    have last : ∀ large slots n, ctx.waves large slots n [] = pure [] := by
      intro large slots n
      cases n <;> rfl
    rw [runGroup, List.length_cons, waves, startWave_eq now]
    generalize List.mapM ctx.transpile (j :: js) = all
    simp [now, endWave_ended, last]

theorem runBatched_eq (now : ctx.bundler.suspensions = 0) (size : Nat) (jobs : List Job) :
    ctx.runBatched size jobs = jobs.mapM ctx.transpile := by
  have group : (fun batch : List Job => ctx.runGroup batch.length batch) =
      fun batch => batch.mapM ctx.transpile :=
    funext fun batch => runGroup_eq now List.length_pos_iff.2
  rw [runBatched, group, ← map_eq_pure_bind, flatten_mapM, flatten_chunks]

theorem runPooled_eq (now : ctx.bundler.suspensions = 0) {size : Nat} (room : 0 < size)
    (limit : size ≤ maxSlots) (jobs : List Job) :
    ctx.runPooled size jobs = jobs.mapM ctx.transpile := by
  rw [runPooled, if_neg (Nat.not_lt.2 limit), runGroup_eq now fun _ => room]

theorem runJobs_eq (now : ctx.bundler.suspensions = 0) (limit : ctx.settings.batchSize ≤ maxSlots)
    (jobs : List Job) : ctx.runJobs jobs = jobs.mapM ctx.transpile := by
  have room : 0 < max ctx.settings.batchSize 1 := by omega
  have limit' : max ctx.settings.batchSize 1 ≤ maxSlots := by rw [maxSlots] at *; omega
  rw [runJobs]
  split
  · exact runBatched_eq now _ jobs
  · exact runPooled_eq now room limit' jobs

/-- A pool that can be set up is one in which the jobs run in turn. -/
theorem mapM_of_runJobs (now : ctx.bundler.suspensions = 0) {jobs : List Job} {s t : BuildState}
    {targets : List Path} (h : (ctx.runJobs jobs).Gives s targets t) :
    (jobs.mapM ctx.transpile).Gives s targets t := by
  by_cases limit : ctx.settings.batchSize ≤ maxSlots
  · rwa [runJobs_eq now limit] at h
  · have limit' : maxSlots < max ctx.settings.batchSize 1 := by omega
    rw [runJobs] at h
    split at h
    · rwa [runBatched_eq now] at h
    · rw [runPooled, if_pos limit'] at h
      exact absurd h Build.not_gives_throw

theorem targets_of_transpile {j : Job} {s t : BuildState} {target : Path}
    (h : (ctx.transpile j).Gives s target t) : target = j.target := by
  simp only [transpile, openCall, closeCall, Build.gives_bind_iff, Build.gives_pure_iff] at h
  obtain ⟨c, -, ⟨header, -, -, -, -, -, rfl, rfl⟩, reply, -, -, -, -, -, rfl, -⟩ := h
  rfl

theorem targets_of_mapM {jobs : List Job} {s t : BuildState} {targets : List Path}
    (h : (jobs.mapM ctx.transpile).Gives s targets t) : targets = jobs.map (·.target) := by
  induction jobs generalizing s targets with
  | nil => exact (Build.gives_mapM_nil_iff.1 h).1
  | cons j js ih =>
    obtain ⟨target, u, rest, hj, hjs, rfl⟩ := Build.gives_mapM_cons_iff.1 h
    rw [List.map_cons, targets_of_transpile hj, ih hjs]

/-- The first job that fails ends the run in the state in which it fails. -/
theorem mapM_of_error {before after : List Job} {j : Job} {s t u : BuildState}
    {targets : List Path} {stop : Stop} (hbefore : (before.mapM ctx.transpile).Gives s targets t)
    (hj : (ctx.transpile j).run.run t = (.error stop, u)) :
    ((before ++ j :: after).mapM ctx.transpile).run.run s = (.error stop, u) := by
  rw [Build.Gives] at hbefore
  rw [List.mapM_append, Build.run_bind, hbefore]
  simp only [List.mapM_cons, bind_assoc]
  rw [Build.run_bind, hj]

/-- With a bundler that never waits, many jobs run one after another up to the first that fails: the
same targets in the order of the jobs or the same failure, and the same state with the tree, the
shelf and the log. After a failing job nothing is done. How the jobs are batched does not matter. -/
theorem runJobs_in_turn (now : ctx.bundler.suspensions = 0)
    (limit : ctx.settings.batchSize ≤ maxSlots) :
    (∀ jobs, ctx.runJobs jobs = jobs.mapM ctx.transpile) ∧
    (∀ jobs s targets t, (ctx.runJobs jobs).Gives s targets t → targets = jobs.map (·.target)) ∧
    (∀ before j after s targets t stop u, (before.mapM ctx.transpile).Gives s targets t →
      (ctx.transpile j).run.run t = (.error stop, u) →
      (ctx.runJobs (before ++ j :: after)).run.run s = (.error stop, u)) ∧
    ∀ mode size, size ≤ maxSlots →
      ∀ jobs, (ctx.batchedBy mode size).runJobs jobs = ctx.runJobs jobs := by
  refine ⟨runJobs_eq now limit, ?targets, ?failure, ?batching⟩
  case targets =>
    intro jobs s targets t h
    rw [runJobs_eq now limit] at h
    exact targets_of_mapM h
  case failure =>
    intro before j after s targets t stop u hbefore hj
    rw [runJobs_eq now limit]
    exact mapM_of_error hbefore hj
  case batching =>
    intro mode size hsize jobs
    have same : (ctx.batchedBy mode size).transpile = ctx.transpile := rfl
    rw [runJobs_eq now limit, @runJobs_eq (ctx.batchedBy mode size) now hsize, same]

theorem runJobs_in_turn_small :
    let ctx := small .small "b"
    let jobs := [Pipeline.mainJob .small .umd, Pipeline.mainJob .small .esm,
      Pipeline.mainJob .small .umd]
    ctx.bundler.suspensions = 0 ∧ ctx.settings.batchSize ≤ maxSlots ∧
      (ctx.batchedBy .pooled 3).runJobs jobs = ctx.runJobs jobs :=
  ⟨rfl, by decide, (@runJobs_in_turn (small .small "b") rfl (by decide)).2.2.2 .pooled 3 (by decide) _⟩

end Context

end LocaleForge
