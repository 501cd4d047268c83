import LocaleForge.Proofs.Turns

/-!
Calls that wait. While each wave ends in the order of its jobs, waiting does not change what a run of
jobs comes to; only the requests run ahead, up to the end of the wave of the job that fails.
-/

namespace LocaleForge

namespace Context

/-- The same context with calls that wait so often. -/
def waiting (ctx : Context) (suspensions : Nat) : Context :=
  { ctx with bundler := { ctx.bundler with suspensions := suspensions } }

variable {ctx : Context} {jobs before after js : List Job} {s t u : BuildState} {region : Location → Prop}
  {j : Job} {targets : List Path} {stop : Stop}

theorem inTurn_waiting (ctx : Context) (n : Nat) (cs : List OpenCall) (d : Disk) :
    (ctx.waiting n).inTurn cs d = ctx.inTurn cs d := by
  induction cs generalizing d with
  | nil => rfl
  | cons c cs ih =>
    rw [inTurn, inTurn, funext ih]
    rfl

theorem Independent.waiting (h : ctx.Independent jobs s region) (n : Nat) :
    (ctx.waiting n).Independent jobs s region :=
  ⟨h.usual, h.keeping, h.bundler, h.targets, h.loads, h.apart⟩

/-- If nothing is written but by the jobs, it is enough to look at where these write. -/
theorem independent_of_quiet (usual : ctx.storage = .disk) (quiet : ctx.bundler.Quiet)
    (loads : ∀ j ∈ jobs, ∃ text t, (ctx.header (j.headerPath ctx.settings)).Gives s text t)
    (apart : ∀ j ∈ jobs, j.headerPath ctx.settings ≠ Job.noHeader → ∀ k ∈ jobs, ∀ l,
      s.disk.heading? (j.headerPath ctx.settings) = some l → s.disk.heading? k.target ≠ some l) :
    ctx.Independent jobs s fun l => ∃ k ∈ jobs, s.disk.heading? k.target = some l where
  usual := usual
  keeping r d := by
    rw [quiet r d]
    exact .refl d
  bundler r X hX := by rwa [quiet r X]
  targets j hj l hl := ⟨j, hj, hl⟩
  loads := loads
  apart j hj hne l hl := fun ⟨k, hk, hkl⟩ => apart j hj hne k hk l hl hkl

/-! ## What is written -/

/-- A call writes to its target, if to anything; if it ends well, it has. -/
theorem written_closing (ctx : Context) (c : OpenCall) (d : Disk) :
    ((ctx.closing c d).written = [] ∨ (ctx.closing c d).written = [c.job.target]) ∧
      ∀ targets, (ctx.closing c d).result = .ok targets → (ctx.closing c d).written = targets := by
  simp only [closing]
  rcases hc : (ctx.closeCall c).run.run (.fresh d) with ⟨r, u⟩
  obtain ⟨calls, hlog, hadv⟩ := advances_of_closeCall (j := c.job) hc
  rw [hlog]
  cases r with
  | ok target =>
    cases hadv
    refine ⟨.inr rfl, fun targets h => ?_⟩
    cases h
    rfl
  | error stop =>
    cases hadv with
    | unanswered => exact ⟨.inl rfl, fun _ h => by cases h⟩
    | unwritten => exact ⟨.inr rfl, fun _ h => by cases h⟩

theorem written_inTurn_of_ok {cs : List OpenCall} {d : Disk}
    (h : (ctx.inTurn cs d).result = .ok targets) : (ctx.inTurn cs d).written = targets := by
  induction cs generalizing d targets with
  | nil =>
    cases h
    rfl
  | cons c cs ih =>
    rw [inTurn] at h ⊢
    cases hc : (ctx.closing c d).result with
    | error stop =>
      rw [Turn.andThen_of_error hc, hc] at h
      cases h
    | ok first =>
      rw [Turn.andThen_of_ok hc] at h ⊢
      cases hr : (ctx.inTurn cs (ctx.closing c d).disk).result with
      | error stop =>
        rw [hr] at h
        cases h
      | ok rest =>
        rw [hr] at h
        cases h
        simp only [ih hr, (written_closing ctx c d).2 first hc]

theorem keeps_of_transpile (usual : ctx.storage = .disk) (keeping : ctx.bundler.Keeping)
    {r : Except Stop Path} (h : (ctx.transpile j).run.run s = (r, t)) :
    s.disk.Keeps t.disk ∧ ∀ target, r = .ok target → t.disk.isFile target = true := by
  rw [transpile, Build.run_bind] at h
  rcases hopen : (ctx.openCall j).run.run s with ⟨r', u⟩
  rw [hopen] at h
  have hdisk := (advances_of_openCall hopen).1
  cases r' with
  | ok c =>
    rw [← hdisk]
    exact keeps_of_closeCall usual keeping h
  | error stop =>
    cases h
    rw [hdisk]
    exact ⟨.refl _, fun _ h => by cases h⟩

/-- The files of jobs that have run in turn are there. -/
theorem isFile_of_mapM (usual : ctx.storage = .disk) (keeping : ctx.bundler.Keeping)
    (h : (js.mapM ctx.transpile).Gives s targets t) :
    s.disk.Keeps t.disk ∧ ∀ k ∈ js, t.disk.isFile k.target = true := by
  induction js generalizing s targets with
  | nil =>
    obtain ⟨-, rfl⟩ := Build.gives_mapM_nil_iff.1 h
    exact ⟨.refl _, fun k hk => absurd hk List.not_mem_nil⟩
  | cons j js ih =>
    obtain ⟨target, u, rest, hj, hjs, rfl⟩ := Build.gives_mapM_cons_iff.1 h
    obtain ⟨hkeeps, hfile⟩ := keeps_of_transpile usual keeping hj
    obtain ⟨hkeeps', hfiles⟩ := ih hjs
    refine ⟨hkeeps.trans hkeeps', List.forall_mem_cons.2 ⟨?_, hfiles⟩⟩
    rw [← targets_of_transpile hj]
    exact hkeeps'.isFile (hfile target rfl)

/-! ## The first failure -/

/-- The turn in which the jobs before one end well and this one fails. -/
theorem inTurn_of_failure (independent : ctx.Independent jobs s region)
    (hjobs : jobs = before ++ j :: after) (hbefore : (before.mapM ctx.transpile).Gives s targets t)
    (hj : (ctx.transpile j).run.run t = (.error stop, u)) :
    ∃ last, (last = [] ∨ last = [j.target]) ∧ ctx.inTurn (jobs.map (ctx.callFor s)) s.disk =
      ⟨.error stop, u.disk, before.length + 1, before.map (·.target) ++ last⟩ := by
  subst hjobs
  have hmem : ∀ k ∈ before, k ∈ before ++ j :: after := fun k hk => List.mem_append_left _ hk
  have hjmem : j ∈ before ++ j :: after := List.mem_append_right _ List.mem_cons_self
  obtain ⟨t', hrun, hdisk, hloaded, -⟩ := comes_mapM_transpile independent independent.loaded hmem
  rw [hbefore] at hrun
  obtain ⟨hresult, rfl⟩ := Prod.mk.inj hrun
  obtain ⟨u', hrun', hdisk', -, -⟩ := comes_transpile independent hloaded hjmem
  rw [Build.run_bind_of_error hj] at hrun'
  obtain ⟨hresult', rfl⟩ := Prod.mk.inj hrun'
  obtain ⟨hlast, -⟩ := written_closing ctx (ctx.callFor s j) t.disk
  refine ⟨_, hlast, ?_⟩
  rw [List.map_append, List.map_cons, inTurn_append, Turn.andThen_of_ok hresult.symm, inTurn, ← hdisk,
    Turn.andThen_of_error hresult'.symm, closed_inTurn_of_ok hresult.symm,
    written_inTurn_of_ok hresult.symm, targets_of_mapM hbefore, List.length_map, ← hresult', hdisk']
  rfl

/-- While each wave ends in the order of its jobs, jobs whose calls wait give what they give without
waiting and leave the same tree. If one of them fails, the jobs before it have written their files, no
later one has written anything, and requests have been made up to that job, or up to the end of its
wave if calls wait. -/
theorem runJobs_as_scheduled (limit : ctx.settings.batchSize ≤ maxSlots)
    (forward : ctx.EndsForward jobs) (independent : ctx.Independent jobs s region) :
    let run := (ctx.runJobs jobs).run.run s
    let now := ((ctx.waiting 0).runJobs jobs).run.run s
    run.1 = now.1 ∧ run.2.disk = now.2.disk ∧
    ∀ before j after targets t stop u, jobs = before ++ j :: after →
      (before.mapM ctx.transpile).Gives s targets t → (ctx.transpile j).run.run t = (.error stop, u) →
      run.1 = .error stop ∧ run.2.disk = u.disk ∧
      (∀ k ∈ before, run.2.disk.isFile k.target = true) ∧
      ∃ last, (last = [] ∨ last = [j.target]) ∧
        s.Calls run.2 ((jobs.take (ctx.requested (before.length + 1))).map (.ofJob ctx.settings))
          (before.map (·.target) ++ last) := by
  obtain ⟨v, hrun, hdisk, -, hcalls⟩ := comes_runJobs limit forward independent independent.loaded
  obtain ⟨w, hnow, hdisk', -, -⟩ :=
    @comes_runJobs (ctx.waiting 0) _ _ _ _ limit (.inl rfl) (independent.waiting 0)
      (independent.waiting 0).loaded
  have hsame : (ctx.waiting 0).callFor s = ctx.callFor s := rfl
  rw [inTurn_waiting, hsame] at hnow hdisk'
  intro run now
  have hrun' : run = _ := hrun
  have hnow' : now = _ := hnow
  rw [hrun', hnow']
  refine ⟨rfl, hdisk.trans hdisk'.symm, ?_⟩
  intro before j after targets t stop u hjobs hbefore hj
  obtain ⟨last, hlast, hturn⟩ := inTurn_of_failure independent hjobs hbefore hj
  rw [hturn] at hdisk hcalls ⊢
  have hfiles := (isFile_of_mapM independent.usual independent.keeping hbefore).2
  have hkeeps := (keeps_of_transpile independent.usual independent.keeping hj).1
  refine ⟨rfl, hdisk, fun k hk => ?_, last, hlast, hcalls⟩
  simp only [hdisk]
  exact hkeeps.isFile (hfiles k hk)

/-! ## Waiting in a small project -/

/-- A job for a file with a number in the small project. -/
def numberedJob (n : Nat) : Job where
  root := ⟨"/src"⟩
  entry := toString n
  format := .esm
  name := none
  excludeBase := false
  target := ⟨"/build/" ++ toString n⟩
  header := .auto
  skip := some 0
  comments := .full

/-- The small project with batches of this size and a bundler whose calls wait once. It fails for the
file with the number `bad`. -/
def waitingSmall (size bad : Nat) : Context where
  settings := { Settings.small with batchSize := size }
  storage := .disk
  bundler :=
    { suspensions := 1
      reply := fun r d =>
        (if r.entry = (numberedJob bad).entryPath then .error (.ofCause (.reported "no")) else .ok "b", d) }
  probe := { registered := fun _ d => (.ok [], d) }

/-- Jobs that need no header can be loaded and write over none. -/
theorem independent_numbered (size bad : Nat) (ns : List Nat) (s : BuildState) :
    (waitingSmall size bad).Independent (ns.map numberedJob) s
      fun l => ∃ k ∈ ns.map numberedJob, s.disk.heading? k.target = some l := by
  have none : ∀ j ∈ ns.map numberedJob,
      j.headerPath (waitingSmall size bad).settings = Job.noHeader := by
    intro j hj
    obtain ⟨n, -, rfl⟩ := List.mem_map.1 hj
    rfl
  refine independent_of_quiet rfl (fun _ _ => rfl) (fun j hj => ⟨"", s, ?_⟩) fun j hj hne => ?_
  · rw [none j hj]
    rfl
  · exact absurd (none j hj) hne

theorem runJobs_as_scheduled_small :
    let ctx := waitingSmall 2 1
    let jobs := [0, 1, 2].map numberedJob
    ctx.settings.batchSize ≤ maxSlots ∧ ctx.EndsForward jobs ∧
      ((ctx.runJobs jobs).run.run (.fresh .small)).2.disk =
        (((ctx.waiting 0).runJobs jobs).run.run (.fresh .small)).2.disk := by
  have forward : (waitingSmall 2 1).EndsForward ([0, 1, 2].map numberedJob) := .inr (by decide +kernel)
  exact ⟨by decide, forward,
    (runJobs_as_scheduled (by decide) forward (independent_numbered 2 1 [0, 1, 2] _)).2.1⟩

set_option maxRecDepth 10000 in
/-- A group of more than thirty jobs whose calls wait once ends from its last job back. Then the jobs
after a failing one have written their files, which they would not have without waiting. -/
theorem large_group_writes_on :
    let ctx := waitingSmall 31 0
    let jobs := (List.range 31).map numberedJob
    let run := (ctx.runJobs jobs).run.run (.fresh .small)
    ctx.settings.batchSize ≤ maxSlots ∧
      (ctx.Independent jobs (.fresh .small) fun l => ∃ k ∈ jobs, Disk.small.heading? k.target = some l) ∧
      ((ctx.transpile (numberedJob 0)).run.run (.fresh .small)).1.toBool = false ∧
      run.2.disk.isFile (numberedJob 30).target = true ∧
      (((ctx.waiting 0).runJobs jobs).run.run (.fresh .small)).2.disk.isFile (numberedJob 30).target =
        false :=
  ⟨by decide, independent_numbered 31 0 _ _, by decide +kernel, by decide +kernel, by decide +kernel⟩

end Context

end LocaleForge
