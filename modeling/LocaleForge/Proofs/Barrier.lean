import LocaleForge.Proofs.Waves

/-!
Many jobs at once, whatever the order in which their calls are answered. No more calls are open than
allowed, each job asks once and writes once, batches wait for one another, and the results come in the
order of the jobs.
-/

namespace LocaleForge

/-- All chunks but the last are full. -/
theorem length_of_chunks {α : Type} {size : Nat} (h : 0 < size) {xs : List α} {past later : List (List α)}
    {now : List α} (hc : chunks size xs = past ++ now :: later) :
    past.flatten.length = size * past.length ∧ now.length ≤ size := by
  refine ⟨?_, length_le_of_mem_chunks h (hc ▸ List.mem_append_right past List.mem_cons_self)⟩
  fun_induction chunks size xs generalizing past with
  | case1 =>
    cases past <;> cases hc
  | case2 x xs ih =>
    cases past with
    | nil => rfl
    | cons c past =>
      obtain ⟨rfl, hrest⟩ := List.cons.inj hc
      -- Something is left for the next chunk, so this one is full.
      have hleft : xs.drop (size - 1) ≠ [] := by
        intro hnil
        rw [hnil, chunks] at hrest
        cases past <;> cases hrest
      have hfull : size - 1 ≤ xs.length := by
        rw [Ne, List.drop_eq_nil_iff] at hleft
        omega
      simp only [List.flatten_cons, List.length_append, List.length_cons, List.length_take, ih hrest,
        Nat.min_eq_left hfull, Nat.mul_succ]
      omega

namespace Interleaving

variable {ctx : Context} {slots : Nat} {i : Interleaving} {s : BuildState} {trace : Trace}
  {settings : Settings} {groups : List (List Job)} {jobs : List Job}

/-- The groups of a run, of which there is at least one. -/
theorem ofGroups_eq (settings : Settings) (s : BuildState) (jobs : List Job) :
    ∃ first later, ofGroups s (settings.groups jobs) = ofGroups s (first :: later) ∧
      (first :: later).flatten = jobs ∧ (settings.batchMode = .batched →
        ∀ past now rest, first :: later = past ++ now :: rest →
          past.flatten.length = max settings.batchSize 1 * past.length ∧
            now.length ≤ max settings.batchSize 1) := by
  have room : 0 < max settings.batchSize 1 := by omega
  rw [Settings.groups]
  cases hmode : settings.batchMode with
  | pooled => exact ⟨jobs, [], rfl, List.append_nil jobs, fun h => by cases h⟩
  | batched =>
    have hflatten := flatten_chunks (max settings.batchSize 1) jobs
    cases hc : chunks (max settings.batchSize 1) jobs with
    | nil =>
      rw [hc] at hflatten
      refine ⟨[], [], rfl, hflatten, fun _ past now rest h => ?_⟩
      cases past with
      | nil =>
        cases h
        exact ⟨rfl, Nat.zero_le _⟩
      | cons p past => cases past <;> cases h
    | cons first later =>
      rw [hc] at hflatten
      exact ⟨first, later, rfl, hflatten, fun _ past now rest h => length_of_chunks room (hc.trans h)⟩

/-! ## Where a job stands -/

theorem Stands.of_written (h : Stands settings groups s trace i) {n : Nat} {j : Job} {target : Path}
    (hj : groups.flatten[n]? = some j) (hp : i.progress[n]? = some (.written target)) :
    target = j.target ∧ (Trace.own trace n).filterMap Event.request? = [.ofJob settings j] ∧
      (Trace.own trace n).filterMap Event.written? = [j.target] := by
  obtain ⟨p, hp', hc⟩ := h.calls n j hj
  rw [hp] at hp'
  cases hp'
  exact hc.of_written

/-- A job of a group that has ended has written its file. -/
theorem Stands.progress_of_lt (h : Stands settings groups s trace i) {n : Nat} {j : Job}
    (hj : groups.flatten[n]? = some j) (hn : n < i.ended.length) :
    i.progress[n]? = some (.written j.target) := by
  have hp : i.progress[n]? = some (.written i.ended[n]) := by
    rw [progress, List.append_assoc, List.getElem?_append_left (by rwa [List.length_map]),
      List.getElem?_map, List.getElem?_eq_getElem hn]
    rfl
  rw [hp, (h.of_written hj hp).1]

/-- A job of a group that has not begun has made no call. -/
theorem Stands.own_of_le (h : Stands settings groups s trace i) {n : Nat} {j : Job}
    (hj : groups.flatten[n]? = some j) (hn : i.ended.length + i.current.jobs.length ≤ n) :
    Trace.own trace n = [] := by
  obtain ⟨p, hp, hc⟩ := h.calls n j hj
  have hwaiting : p = .waiting := by
    rw [progress, List.getElem?_append_right (by simpa using hn), List.getElem?_map] at hp
    obtain ⟨_, -, rfl⟩ := Option.map_eq_some_iff.1 hp
    rfl
  subst hwaiting
  exact hc.of_waiting

theorem Stands.length_progress (h : Stands settings groups s trace i) :
    i.progress.length = groups.flatten.length := by
  obtain ⟨past, now, rfl, hended, rfl⟩ := h.places
  simp only [progress, List.length_append, List.length_map, List.flatten_append, List.flatten_cons, hended]
  omega

/-- A job that has failed belongs to the group that runs. -/
theorem Stands.bounds_of_failed {n : Nat} {stop : Stop} (hp : i.progress[n]? = some (.failed stop)) :
    i.ended.length ≤ n ∧ n < i.ended.length + i.current.jobs.length := by
  rw [progress, List.append_assoc] at hp
  rcases Nat.lt_or_ge n i.ended.length with hlt | hge
  · rw [List.getElem?_append_left (by rwa [List.length_map]), List.getElem?_map] at hp
    obtain ⟨_, -, hw⟩ := Option.map_eq_some_iff.1 hp
    cases hw
  · refine ⟨hge, Nat.lt_of_not_le fun hle => ?_⟩
    rw [← List.append_assoc, List.getElem?_append_right (by simpa using hle), List.getElem?_map] at hp
    obtain ⟨_, -, hw⟩ := Option.map_eq_some_iff.1 hp
    cases hw

/-- A run that is over has the targets of its jobs in their order. -/
theorem Stands.results (h : Stands settings groups s trace i) {targets : List Path}
    (hr : i.results? = some targets) : targets = groups.flatten.map (·.target) ∧
      ∀ (n : Nat) (j : Job), groups.flatten[n]? = some j →
        i.progress[n]? = some (.written j.target) := by
  have hprogress : i.progress = targets.map .written := by
    rw [results?] at hr
    split at hr
    case isFalse => cases hr
    case isTrue hlater =>
      obtain ⟨ends, hends, rfl⟩ := Option.map_eq_some_iff.1 hr
      rw [progress, Group.targets?_eq_some_iff.1 hends, List.isEmpty_iff.1 hlater, List.map_append]
      exact List.append_nil _
  have hat : ∀ (n : Nat) (j : Job), groups.flatten[n]? = some j → targets[n]? = some j.target := by
    intro n j hj
    obtain ⟨p, hp, -⟩ := h.calls n j hj
    have hp' := hp
    rw [hprogress, List.getElem?_map] at hp'
    obtain ⟨target, ht, rfl⟩ := Option.map_eq_some_iff.1 hp'
    rw [ht, (h.of_written hj hp).1]
  refine ⟨List.ext_getElem? fun n => ?_, fun n j hj => ?_⟩
  · rw [List.getElem?_map]
    cases hj : groups.flatten[n]? with
    | some j => rw [hat n j hj, Option.map_some]
    | none =>
      have hlength := h.length_progress
      rw [hprogress, List.length_map] at hlength
      rw [List.getElem?_eq_none_iff] at hj
      rw [List.getElem?_eq_none (hlength ▸ hj), Option.map_none]
  · rw [hprogress, List.getElem?_map, hat n j hj, Option.map_some]

/-! ## Batches -/

/-- A batch is a group of jobs with the same quotient by the size. -/
theorem Stands.batch {size : Nat} (room : 0 < size) (h : Stands settings groups s trace i)
    (hsize : ∀ past now rest, groups = past ++ now :: rest →
      past.flatten.length = size * past.length ∧ now.length ≤ size) {n : Nat}
    (hn : i.ended.length ≤ n) (hn' : n < i.ended.length + i.current.jobs.length) (m : Nat) :
    (m / size < n / size → m < i.ended.length) ∧
      (n / size < m / size → i.ended.length + i.current.jobs.length ≤ m) := by
  obtain ⟨past, now, hgroups, hended, hnow⟩ := h.places
  obtain ⟨hpast, hle⟩ := hsize past now i.later hgroups
  have hlength := congrArg List.length hnow
  rw [List.length_map] at hlength
  have hquotient : n / size = past.length := by
    refine Nat.div_eq_of_lt_le ?_ ?_
    · rw [Nat.mul_comm]
      omega
    · rw [Nat.add_mul, Nat.mul_comm]
      omega
  rw [hquotient]
  constructor
  · intro hm
    have := (Nat.div_lt_iff_lt_mul room).1 hm
    rw [Nat.mul_comm] at this
    omega
  · intro hm
    have := (Nat.le_div_iff_mul_le room).1 hm
    rw [Nat.succ_mul, Nat.mul_comm] at this
    omega

/-- A job that has made a call belongs to a group that has ended or to the one that runs. -/
theorem Stands.lt_of_own (h : Stands settings groups s trace i) {n : Nat} (hn : Trace.own trace n ≠ []) :
    n < groups.flatten.length ∧ n < i.ended.length + i.current.jobs.length := by
  have hmem : n < groups.flatten.length := by
    obtain ⟨e, he⟩ := List.exists_mem_of_ne_nil _ hn
    obtain ⟨x, hx, -⟩ := List.mem_map.1 he
    obtain ⟨hmem, hnum⟩ := List.mem_filter.1 hx
    rw [← of_decide_eq_true hnum]
    exact h.numbered x.1 x.2 hmem
  refine ⟨hmem, Nat.lt_of_not_le fun hle => hn ?_⟩
  exact h.own_of_le (List.getElem?_eq_getElem hmem) hle

/-! ## Whole runs -/

/-- What holds at each moment of a run of jobs, with the calls that it has made by then. -/
structure Orderly (ctx : Context) (jobs : List Job) (s : BuildState) (trace : Trace)
    (i : Interleaving) : Prop where
  /-- The calls are those of the log, and each is made for one of the jobs. -/
  log : i.current.state.log = s.log ++ trace.map (·.2)
  numbered : ∀ n e, (n, e) ∈ trace → n < jobs.length
  /-- The open calls are the requests that have no reply yet, and they keep to the limit. -/
  balance : (trace.filterMap (·.2.request?)).length =
    (trace.filterMap (·.2.reply?)).length + i.current.openCalls
  limit : i.current.openCalls ≤ max ctx.settings.batchSize 1
  /-- A job makes one request and one write at most. -/
  once : ∀ (n : Nat) (j : Job), jobs[n]? = some j →
    (Trace.own trace n).filterMap Event.request? <+: [.ofJob ctx.settings j] ∧
      (Trace.own trace n).filterMap Event.written? <+: [j.target]
  /-- A job that has written its file has made both, and its file is there. -/
  written : ∀ (n : Nat) (j : Job) (target : Path), jobs[n]? = some j → i.progress[n]? = some (.written target) →
    target = j.target ∧ (Trace.own trace n).filterMap Event.request? = [.ofJob ctx.settings j] ∧
      (Trace.own trace n).filterMap Event.written? = [j.target] ∧
      (ctx.storage = .disk → ctx.bundler.Keeping → i.current.state.disk.isFile j.target = true)
  /-- In batches, a job makes no call before all jobs of earlier batches have written their files. -/
  barrier : ctx.settings.batchMode = .batched → ∀ n, Trace.own trace n ≠ [] →
    ∀ (m : Nat) (j : Job), jobs[m]? = some j →
    m / max ctx.settings.batchSize 1 < n / max ctx.settings.batchSize 1 →
      i.progress[m]? = some (.written j.target)
  order : ctx.settings.batchMode = .batched → ∀ before n e after, trace = before ++ (n, e) :: after →
    ∀ (m : Nat) (j : Job), jobs[m]? = some j →
    m / max ctx.settings.batchSize 1 < n / max ctx.settings.batchSize 1 →
      .write j.target ∈ Trace.own before m
  /-- After a failure all jobs of earlier batches have written their files, and no job of a later batch
  has made a call. -/
  failure : ctx.settings.batchMode = .batched → ∀ (n : Nat) (stop : Stop),
    i.progress[n]? = some (.failed stop) → ∀ (m : Nat) (j : Job), jobs[m]? = some j →
      (m / max ctx.settings.batchSize 1 < n / max ctx.settings.batchSize 1 →
        i.progress[m]? = some (.written j.target)) ∧
      (n / max ctx.settings.batchSize 1 < m / max ctx.settings.batchSize 1 → Trace.own trace m = [])
  /-- A run that succeeds gives the targets in the order of the jobs, all of which have written their
  files. -/
  success : ∀ targets, i.results? = some targets → targets = jobs.map (·.target) ∧
    ∀ (n : Nat) (j : Job), jobs[n]? = some j → i.progress[n]? = some (.written j.target)

theorem Traced.reaches {i k : Interleaving} (h : Traced ctx slots i trace k) : Reaches ctx slots i k := by
  induction h with
  | refl => exact .refl
  | step _ last _ _ ih => exact ih.step last

theorem not_mem_progress_ofGroups (s : BuildState) (first : List Job) (later : List (List Job))
    (target : Path) : .written target ∉ (ofGroups s (first :: later)).progress := by
  simp [progress, ofGroups, Group.ofJobs]

section

variable {size : Nat} {first : List Job} {later : List (List Job)}

theorem Stands.barrier (room : 0 < size) (h : Stands settings groups s trace i)
    (hsize : ∀ past now rest, groups = past ++ now :: rest →
      past.flatten.length = size * past.length ∧ now.length ≤ size) {n m : Nat} {j : Job}
    (hn : Trace.own trace n ≠ []) (hj : groups.flatten[m]? = some j) (hm : m / size < n / size) :
    i.progress[m]? = some (.written j.target) := by
  obtain ⟨-, hrunning⟩ := h.lt_of_own hn
  refine h.progress_of_lt hj ?_
  rcases Nat.lt_or_ge n i.ended.length with hlt | hge
  · exact Nat.lt_trans (Nat.lt_of_div_lt_div hm) hlt
  · exact (h.batch room hsize hge hrunning m).1 hm

/-- Where the calls of a run are cut in two, the first part holds what the jobs of earlier batches have
written by then. -/
theorem Traced.write_mem (room : 0 < size)
    (hsize : ∀ past now rest, first :: later = past ++ now :: rest →
      past.flatten.length = size * past.length ∧ now.length ≤ size)
    (h : Traced ctx slots (ofGroups s (first :: later)) trace i) {before after : Trace} {n : Nat}
    {e : Event} (hcut : trace = before ++ (n, e) :: after) {m : Nat} {j : Job}
    (hj : (first :: later).flatten[m]? = some j) (hm : m / size < n / size) :
    .write j.target ∈ Trace.own before m := by
  induction h generalizing before after with
  | refl => cases before <;> cases hcut
  | @step trace k l n' calls run last log others ih =>
    -- The cut lies among the calls of the last step.
    have inside : ∀ more, before = trace ++ more → calls.map (n', ·) = more ++ (n, e) :: after →
        .write j.target ∈ Trace.own before m := by
      rintro more rfl hcalls
      have hmem : (n, e) ∈ calls.map (n', ·) := hcalls ▸ List.mem_append_right more List.mem_cons_self
      obtain ⟨_, he, hpair⟩ := List.mem_map.1 hmem
      cases hpair
      have hown : Trace.own (trace ++ calls.map (n, ·)) n ≠ [] := by
        rw [Trace.own_append, Trace.own_calls, if_pos rfl]
        exact List.append_ne_nil_of_right_ne_nil _ (List.ne_nil_of_mem he)
      have hstands := (Traced.step run last log others).stands
      have hwritten := hstands.of_written hj (hstands.barrier room hsize hown hj hm)
      have hne : m ≠ n := by
        rintro rfl
        exact Nat.lt_irrefl _ hm
      have hwrites := hwritten.2.2
      rw [Trace.own_append, Trace.own_calls, if_neg hne, List.append_nil] at hwrites
      have hmem' : j.target ∈ (Trace.own trace m).filterMap Event.written? := hwrites ▸ List.mem_singleton_self _
      obtain ⟨call, hcall, hpath⟩ := List.mem_filterMap.1 hmem'
      rw [Trace.own_append]
      refine List.mem_append_left _ ?_
      cases call <;> cases hpath
      exact hcall
    rcases List.append_eq_append_iff.1 hcut with ⟨more, hbefore, hcalls⟩ | ⟨more, htrace, hrest⟩
    · exact inside more hbefore hcalls
    · cases more with
      | nil =>
        refine inside [] ?_ hrest.symm
        rw [htrace, List.append_nil, List.append_nil]
      | cons x more =>
        obtain ⟨rfl, -⟩ := List.cons.inj hrest
        exact ih htrace

end

/-- Many jobs run at once in an orderly way in whatever order the bundler answers. What the program does
is the end of one such run. -/
theorem runJobs_orderly (limit : ctx.settings.batchSize ≤ Context.maxSlots) (s : BuildState)
    (jobs : List Job) :
    let begun := ofGroups s (ctx.settings.groups jobs)
    let size := max ctx.settings.batchSize 1
    begun.EndsWith ctx size id ((ctx.runJobs jobs).run.run s) ∧
    (∀ i, begun.Reaches ctx size i → ∃ trace, begun.Traced ctx size trace i) ∧
    ∀ trace i, begun.Traced ctx size trace i → i.Orderly ctx jobs s trace := by
  intro begun size
  refine ⟨endsWith_runJobs limit s jobs, fun i h => h.traced, fun trace i h => ?_⟩
  have room : 0 < size := by omega
  obtain ⟨first, later, hbegun, rfl, hsize⟩ := ofGroups_eq ctx.settings s jobs
  have hrun : Traced ctx size (ofGroups s (first :: later)) trace i := hbegun ▸ h
  have hstands := hrun.stands
  exact {
    log := hstands.log
    numbered := hstands.numbered
    balance := hstands.balance
    limit := hrun.reaches.openCalls_le (by
      rw [ofGroups, openCalls_ofJobs]
      exact Nat.zero_le size)
    once := fun n j hj => by
      obtain ⟨p, -, hc⟩ := hstands.calls n j hj
      exact hc.once
    written := fun n j target hj hp => by
      obtain ⟨rfl, hrequest, hwrite⟩ := hstands.of_written hj hp
      refine ⟨rfl, hrequest, hwrite, fun usual keeping => ?_⟩
      exact hrun.reaches.isFile usual keeping (not_mem_progress_ofGroups s first later)
        (List.mem_of_getElem? hp)
    barrier := fun hmode n hn m j hj hm => hstands.barrier room (hsize hmode) hn hj hm
    order := fun hmode before n e after hcut m j hj hm =>
      hrun.write_mem room (hsize hmode) hcut hj hm
    failure := fun hmode n stop hp m j hj => by
      obtain ⟨hge, hlt⟩ := Stands.bounds_of_failed hp
      obtain ⟨hearlier, hlater⟩ := hstands.batch room (hsize hmode) hge hlt m
      exact ⟨fun hm => hstands.progress_of_lt hj (hearlier hm),
        fun hm => hstands.own_of_le hj (hlater hm)⟩
    success := fun targets hr => hstands.results hr }

theorem runJobs_orderly_small :
    let ctx := { Context.small .small "b" with
      bundler := { suspensions := 1, reply := fun _ d => (.ok "b", d) } }
    let locale := (Pipeline.localeTemplate .small .esm).jobFor ⟨"/src"⟩
    let jobs := [Pipeline.mainJob .small .esm, locale "l/a.js", locale "l/b.js"]
    ctx.settings.batchSize ≤ Context.maxSlots ∧ ∃ trace i,
      (ofGroups (.fresh .small) (ctx.settings.groups jobs)).Traced ctx 2 trace i ∧
      i.results? = some (jobs.map (·.target)) ∧ i.Orderly ctx jobs (.fresh .small) trace := by
  intro ctx locale jobs
  have limit : ctx.settings.batchSize ≤ Context.maxSlots := by decide
  refine ⟨limit, ?_⟩
  obtain ⟨hends, htraced, horderly⟩ := runJobs_orderly limit (.fresh .small) jobs
  have hok : ((ctx.runJobs jobs).run.run (.fresh .small)).1.toOption = some (jobs.map (·.target)) := by
    decide +kernel
  have hgives := Build.gives_of_run hok
  rw [Build.Gives] at hgives
  rw [hgives] at hends
  obtain ⟨i, hreach, -, hresults⟩ := hends
  obtain ⟨trace, htrace⟩ := htraced i hreach
  exact ⟨trace, i, htrace, hresults, horderly trace i htrace⟩

end Interleaving

end LocaleForge
