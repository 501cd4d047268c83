import LocaleForge.Proofs.Traces

/-!
The waves in which jobs are run are one order among all the orders in which their answers may come.
What the waves do is done by steps of a group, and what the batches do by steps of a run.
-/

namespace LocaleForge

/-- How far a started job has come. -/
def Started.progress : Started → Progress
  | opened c => .opened c
  | ended target => .written target
  | held stop => .failed stop

namespace Group

/-- Any number of steps. -/
abbrev Reaches (ctx : Context) (slots : Nat) : Group → Group → Prop :=
  Relation.ReflTransGen (Step ctx slots)

/-- What the computation does to the state, a group of these jobs does by steps. If it gives a result,
the jobs are as this demands; if it stops, a job has failed for that reason. -/
def Covers {α : Type} (ctx : Context) (slots : Nat) (jobs : List (Job × Progress)) (s : BuildState)
    (b : Build α) (P : α → List (Job × Progress) → Prop) : Prop :=
  match b.run.run s with
  | (.ok a, t) => ∃ jobs', P a jobs' ∧ Reaches ctx slots ⟨s, jobs⟩ ⟨t, jobs'⟩
  | (.error stop, t) => ∃ jobs', (∃ j, (j, Progress.failed stop) ∈ jobs') ∧
      Reaches ctx slots ⟨s, jobs⟩ ⟨t, jobs'⟩

variable {α β : Type} {ctx : Context} {slots slots' : Nat} {jobs before after now : List (Job × Progress)}
  {s t : BuildState} {j : Job} {b : Build α} {f : α → Build β} {P : α → List (Job × Progress) → Prop}
  {Q : β → List (Job × Progress) → Prop}

theorem Step.mono (hle : slots ≤ slots') {g g' : Group} (h : g.Step ctx slots g') :
    g.Step ctx slots' g' := by
  cases h with
  | start first room opens => exact .start first (Nat.lt_of_lt_of_le room hle) opens
  | finish closes => exact .finish closes

theorem Covers.mono (hle : slots ≤ slots') (h : Covers ctx slots jobs s b P) :
    Covers ctx slots' jobs s b P := by
  rw [Covers] at h ⊢
  rcases hr : b.run.run s with ⟨r, t⟩
  rw [hr] at h
  cases r with
  | ok a =>
    obtain ⟨jobs', ha, hreach⟩ := h
    exact ⟨jobs', ha, Relation.ReflTransGen.mono (fun _ _ => Step.mono hle) _ _ hreach⟩
  | error stop =>
    obtain ⟨jobs', hfail, hreach⟩ := h
    exact ⟨jobs', hfail, Relation.ReflTransGen.mono (fun _ _ => Step.mono hle) _ _ hreach⟩

theorem Covers.imp {P' : α → List (Job × Progress) → Prop} (h : Covers ctx slots jobs s b P)
    (hp : ∀ a jobs', P a jobs' → P' a jobs') : Covers ctx slots jobs s b P' := by
  rw [Covers] at h ⊢
  rcases hr : b.run.run s with ⟨r, t⟩
  rw [hr] at h
  cases r with
  | ok a =>
    obtain ⟨jobs', ha, hreach⟩ := h
    exact ⟨jobs', hp a jobs' ha, hreach⟩
  | error stop => exact h

theorem Covers.given (h : Covers ctx slots jobs s b P) :
    Covers ctx slots jobs s b fun a jobs' => P a jobs' ∧ ∃ t, b.Gives s a t := by
  rw [Covers] at h ⊢
  rcases hr : b.run.run s with ⟨r, t⟩
  rw [hr] at h
  cases r with
  | ok a =>
    obtain ⟨jobs', ha, hreach⟩ := h
    exact ⟨jobs', ⟨ha, t, hr⟩, hreach⟩
  | error stop => exact h

theorem covers_pure {a : α} (h : P a jobs) : Covers ctx slots jobs s (pure a) P :=
  ⟨jobs, h, .refl⟩

theorem covers_throw {stop : Stop} (h : (j, Progress.failed stop) ∈ jobs) :
    Covers ctx slots jobs s (throw stop) P :=
  ⟨jobs, ⟨j, h⟩, .refl⟩

theorem Covers.bind (hb : Covers ctx slots jobs s b P)
    (hf : ∀ a jobs' t, P a jobs' → Covers ctx slots jobs' t (f a) Q) :
    Covers ctx slots jobs s (b >>= f) Q := by
  rw [Covers] at hb
  rw [Covers, Build.run_bind]
  rcases hr : b.run.run s with ⟨r, t⟩
  rw [hr] at hb
  cases r with
  | error stop => exact hb
  | ok a =>
    obtain ⟨jobs', ha, hreach⟩ := hb
    have hfa := hf a jobs' t ha
    rw [Covers] at hfa
    simp only
    rcases hr' : (f a).run.run t with ⟨r', u⟩
    rw [hr'] at hfa
    cases r' with
    | ok c =>
      obtain ⟨jobs'', hc, hreach'⟩ := hfa
      exact ⟨jobs'', hc, hreach.trans hreach'⟩
    | error stop =>
      obtain ⟨jobs'', hfail, hreach'⟩ := hfa
      exact ⟨jobs'', hfail, hreach.trans hreach'⟩

/-! ## Single jobs -/

theorem reaches_of_openCall {r : Except Stop OpenCall} (first : before.all (!·.2.isWaiting) = true)
    (room : openCalls ⟨s, before ++ after⟩ < slots) (h : (ctx.openCall j).run.run s = (r, t)) :
    Reaches ctx slots ⟨s, before ++ (j, .waiting) :: after⟩ ⟨t, before ++ (j, .ofStart r) :: after⟩ := by
  refine .single (.start first ?_ h)
  rw [openCalls_middle]
  exact room

/-- A job is started by one step, and by another one if its call does not wait. -/
theorem covers_tryStart (first : before.all (!·.2.isWaiting) = true)
    (room : openCalls ⟨s, before ++ after⟩ < slots) :
    Covers ctx slots (before ++ (j, .waiting) :: after) s (ctx.tryStart j)
      fun x jobs => jobs = before ++ (j, x.progress) :: after := by
  rw [Covers, Context.tryStart, Build.run_tryCatch, Context.start, Build.run_bind]
  rcases hopen : (ctx.openCall j).run.run s with ⟨r, t⟩
  have hstart := reaches_of_openCall first room hopen
  cases r with
  | error stop => exact ⟨_, rfl, hstart⟩
  | ok c =>
    by_cases now : ctx.bundler.suspensions = 0
    · simp only [if_pos now, Build.run_bind]
      rcases hclose : (ctx.closeCall c).run.run t with ⟨r', u⟩
      cases r' with
      | ok target => exact ⟨_, rfl, hstart.tail (.finish hclose)⟩
      | error stop => exact ⟨_, rfl, hstart.tail (.finish hclose)⟩
    · simp only [if_neg now]
      exact ⟨_, rfl, hstart⟩

theorem covers_endStarted (x : Started) :
    Covers ctx slots (before ++ (j, x.progress) :: after) s (ctx.endStarted x)
      fun target jobs => jobs = before ++ (j, .written target) :: after := by
  cases x with
  | ended target => exact covers_pure rfl
  | held stop => exact covers_throw (List.mem_append_right before List.mem_cons_self)
  | opened c =>
    rw [Covers, Context.endStarted]
    rcases hclose : (ctx.closeCall c).run.run s with ⟨r, t⟩
    cases r with
    | ok target => exact ⟨_, rfl, .single (.finish hclose)⟩
    | error stop =>
      exact ⟨_, ⟨j, List.mem_append_right before List.mem_cons_self⟩, .single (.finish hclose)⟩

theorem covers_tryEnd (x : Started) :
    Covers ctx slots (before ++ (j, x.progress) :: after) s (ctx.tryEnd x)
      fun r jobs => jobs = before ++ (j, .ofEnd r) :: after := by
  rw [Context.tryEnd, map_eq_pure_bind]
  cases x with
  | ended target => exact ⟨_, rfl, .refl⟩
  | held stop => exact ⟨_, rfl, .refl⟩
  | opened c =>
    rw [Covers, Build.run_tryCatch, Build.run_bind, Context.endStarted]
    rcases hclose : (ctx.closeCall c).run.run s with ⟨r, t⟩
    cases r with
    | ok target => exact ⟨_, rfl, .single (.finish hclose)⟩
    | error stop => exact ⟨_, rfl, .single (.finish hclose)⟩

/-! ## Waves -/

theorem isWaiting_progress (x : Started) : x.progress.isWaiting = false := by
  cases x <;> rfl

theorem openCalls_append (s : BuildState) (before after : List (Job × Progress)) :
    openCalls ⟨s, before ++ after⟩ = openCalls ⟨s, before⟩ + openCalls ⟨s, after⟩ :=
  List.countP_append

/-- A wave goes on with the slots that the started job leaves. -/
theorem onward_ok {holds waiting : Bool} {n : Nat} {x : Started} {next : Nat × Bool}
    (h : Context.onward holds n waiting x = .ok next) : next.1 + x.progress.isOpen.toNat = n + 1 := by
  cases x with
  | opened c =>
    cases h
    rfl
  | ended target =>
    cases h
    rfl
  | held stop =>
    rw [Context.onward] at h
    split at h
    · cases h
      rfl
    · cases h

theorem onward_error {holds waiting : Bool} {n : Nat} {x : Started} {stop : Stop}
    (h : Context.onward holds n waiting x = .error stop) : x.progress = .failed stop := by
  cases x with
  | opened c => cases h
  | ended target => cases h
  | held stop' =>
    rw [Context.onward] at h
    split at h
    · cases h
    · cases h
      rfl

/-- The jobs of a wave are started by steps; they are the first ones that waited. -/
theorem covers_startWave (holds : Bool) (n : Nat) (waiting : Bool) (js : List Job)
    (first : before.all (!·.2.isWaiting) = true) (room : openCalls ⟨s, before⟩ + n ≤ slots) :
    Covers ctx slots (before ++ js.map (·, .waiting)) s (ctx.startWave holds n waiting js)
      fun (started, rest) jobs => ∃ now, jobs = before ++ now ++ rest.map (·, .waiting) ∧
        js = now.map (·.1) ++ rest ∧ now.map (·.2) = started.map Started.progress := by
  induction js generalizing n waiting before s with
  | nil =>
    rw [Context.startWave_nil]
    exact covers_pure ⟨[], by rw [List.append_nil], rfl, rfl⟩
  | cons j js ih =>
    cases n with
    | zero =>
      rw [Context.startWave_zero]
      exact covers_pure ⟨[], by rw [List.append_nil], rfl, rfl⟩
    | succ n =>
      rw [Context.startWave_cons]
      have room' : openCalls ⟨s, before ++ js.map (·, .waiting)⟩ < slots := by
        have hjs : openCalls ⟨s, js.map (·, .waiting)⟩ = 0 := Interleaving.openCalls_ofJobs s js
        rw [openCalls_append, hjs]
        omega
      refine (covers_tryStart first room').bind ?_
      rintro x _ t rfl
      cases hnext : Context.onward holds n waiting x with
      | error stop => exact covers_throw (j := j) (by simp [onward_error hnext])
      | ok next =>
        -- The started job is one of those that no longer wait.
        have first' : (before ++ [(j, x.progress)]).all (!·.2.isWaiting) = true := by
          simp only [List.all_append, first, List.all_cons, isWaiting_progress, List.all_nil]
          rfl
        have hbefore : before ++ (j, x.progress) :: js.map (·, .waiting) =
            (before ++ [(j, x.progress)]) ++ js.map (·, .waiting) := by
          rw [List.append_assoc]
          rfl
        have hopen : openCalls ⟨t, before ++ [(j, x.progress)]⟩ =
            openCalls ⟨s, before⟩ + x.progress.isOpen.toNat := by
          rw [openCalls_middle, List.append_nil]
          rfl
        have hslots := onward_ok hnext
        rw [hbefore]
        refine (ih next.1 next.2 first' (by omega)).bind ?_
        rintro ⟨started, rest⟩ _ u ⟨now, rfl, hjs, hnow⟩
        refine covers_pure ⟨(j, x.progress) :: now, ?_, ?_, ?_⟩
        · simp only [List.append_assoc, List.cons_append, List.nil_append]
        · rw [List.map_cons, List.cons_append, ← hjs]
        · rw [List.map_cons, List.map_cons, hnow]

theorem covers_mapM_endStarted (started : List Started) (before : List (Job × Progress))
    (hnow : now.map (·.2) = started.map Started.progress) :
    Covers ctx slots (before ++ now ++ after) s (started.mapM ctx.endStarted)
      fun ends jobs => ∃ done, jobs = before ++ done ++ after ∧ done.map (·.1) = now.map (·.1) ∧
        done.map (·.2) = ends.map .written := by
  induction started generalizing now before s with
  | nil =>
    obtain rfl := List.map_eq_nil_iff.1 hnow
    exact covers_pure ⟨[], rfl, rfl, rfl⟩
  | cons x started ih =>
    obtain ⟨⟨j, p⟩, now, rfl, rfl, hrest⟩ := List.map_eq_cons_iff.1 hnow
    rw [List.mapM_cons, List.append_assoc, List.cons_append]
    refine (covers_endStarted x).bind ?_
    rintro target _ t rfl
    have hbefore : before ++ (j, Progress.written target) :: (now ++ after) =
        (before ++ [(j, .written target)]) ++ now ++ after := by
      simp only [List.append_assoc, List.cons_append, List.nil_append]
    rw [hbefore]
    refine (ih _ hrest).bind ?_
    rintro ends _ u ⟨done, rfl, hfst, hsnd⟩
    refine covers_pure ⟨(j, .written target) :: done, ?_, ?_, ?_⟩
    · simp only [List.append_assoc, List.cons_append, List.nil_append]
    · rw [List.map_cons, List.map_cons, hfst]
    · rw [List.map_cons, List.map_cons, hsnd]

/-- The jobs of a wave end from the last one back. -/
theorem covers_mapM_tryEnd (started : List Started) (after : List (Job × Progress))
    (hnow : now.map (·.2) = started.reverse.map Started.progress) :
    Covers ctx slots (before ++ now ++ after) s (started.mapM ctx.tryEnd)
      fun ends jobs => ∃ done, jobs = before ++ done ++ after ∧ done.map (·.1) = now.map (·.1) ∧
        done.map (·.2) = ends.reverse.map .ofEnd := by
  induction started generalizing now after s with
  | nil =>
    obtain rfl := List.map_eq_nil_iff.1 hnow
    exact covers_pure ⟨[], rfl, rfl, rfl⟩
  | cons x started ih =>
    rw [List.reverse_cons, List.map_append] at hnow
    obtain ⟨now, last, rfl, hfirst, hlast⟩ := List.map_eq_append_iff.1 hnow
    obtain ⟨⟨j, p⟩, rest, rfl, rfl, hrest⟩ := List.map_eq_cons_iff.1 hlast
    obtain rfl := List.map_eq_nil_iff.1 hrest
    have hsplit : before ++ (now ++ [(j, x.progress)]) ++ after =
        (before ++ now) ++ (j, x.progress) :: after := by
      simp only [List.append_assoc, List.cons_append, List.nil_append]
    rw [List.mapM_cons, hsplit]
    refine (covers_tryEnd x).bind ?_
    rintro r _ t rfl
    refine (ih _ hfirst).bind ?_
    rintro ends _ u ⟨done, rfl, hfst, hsnd⟩
    refine covers_pure ⟨done ++ [(j, .ofEnd r)], ?_, ?_, ?_⟩
    · simp only [List.append_assoc, List.cons_append, List.nil_append]
    · rw [List.map_append, List.map_append, hfst]
      rfl
    · rw [List.map_append, List.reverse_cons, List.map_append, hsnd]
      rfl

/-- Once all jobs of a wave have ended, the first failure among them counts. -/
theorem covers_mapM_settle {settle : Except Stop Path → Build Path}
    (hok : ∀ p, settle (.ok p) = pure p) (herror : ∀ e, settle (.error e) = throw e)
    (ends : List (Except Stop Path)) (h : ∀ stop, .error stop ∈ ends → ∃ j, (j, .failed stop) ∈ jobs) :
    Covers ctx slots jobs s (ends.mapM settle)
      fun targets jobs' => jobs' = jobs ∧ ends = targets.map .ok := by
  induction ends with
  | nil => exact covers_pure ⟨rfl, rfl⟩
  | cons r ends ih =>
    rw [List.mapM_cons]
    cases r with
    | error stop =>
      obtain ⟨j, hj⟩ := h stop List.mem_cons_self
      rw [herror]
      exact covers_throw hj
    | ok target =>
      rw [hok, pure_bind]
      refine (ih fun stop hs => h stop (List.mem_cons_of_mem _ hs)).bind ?_
      rintro targets _ t ⟨rfl, rfl⟩
      exact covers_pure ⟨rfl, rfl⟩

theorem covers_endWave (backwards : Bool) (started : List Started) (before after : List (Job × Progress))
    (hnow : now.map (·.2) = started.map Started.progress) :
    Covers ctx slots (before ++ now ++ after) s (ctx.endWave backwards started)
      fun ends jobs => ∃ done, jobs = before ++ done ++ after ∧ done.map (·.1) = now.map (·.1) ∧
        done.map (·.2) = ends.map .written := by
  rw [Context.endWave]
  split
  case isFalse => exact covers_mapM_endStarted started before hnow
  case isTrue =>
    rw [← List.reverse_reverse started] at hnow
    refine (covers_mapM_tryEnd started.reverse after hnow).bind ?_
    rintro ends _ t ⟨done, rfl, hfst, hsnd⟩
    have hfail : ∀ stop, .error stop ∈ ends.reverse →
        ∃ j, (j, Progress.failed stop) ∈ before ++ done ++ after := by
      intro stop hs
      have hmem : Progress.ofEnd (.error stop) ∈ done.map (·.2) := hsnd ▸ List.mem_map_of_mem hs
      obtain ⟨⟨j, p⟩, hj, rfl⟩ := List.mem_map.1 hmem
      exact ⟨j, List.mem_append_left after (List.mem_append_right before hj)⟩
    refine (covers_mapM_settle ?_ ?_ ends.reverse hfail).imp ?_
    · exact fun _ => rfl
    · exact fun _ => rfl
    · rintro targets _ ⟨rfl, hends⟩
      refine ⟨done, rfl, hfst, ?_⟩
      rw [hsnd, hends, List.map_map]
      rfl

/-! ## Runs of jobs -/

/-- The waves of a group move it on until each of its jobs has written its file. -/
theorem covers_waves (large : Bool) (n : Nat) (js : List Job) (hn : js.length ≤ n)
    (room : js ≠ [] → 0 < slots) {written : List Path}
    (hbefore : before.map (·.2) = written.map .written) :
    Covers ctx slots (before ++ js.map (·, .waiting)) s (ctx.waves large slots n js)
      fun ends jobs => jobs.map (·.2) = (written ++ ends).map .written := by
  induction n generalizing js before written s with
  | zero =>
    obtain rfl := List.eq_nil_of_length_eq_zero (Nat.le_zero.1 hn)
    rw [Context.waves]
    refine covers_pure ?_
    rw [List.map_nil, List.append_nil, List.append_nil, hbefore]
  | succ n ih =>
    cases js with
    | nil =>
      rw [Context.waves]
      refine covers_pure ?_
      rw [List.map_nil, List.append_nil, List.append_nil, hbefore]
    | cons j js =>
      have hroom : 0 < slots := room (List.cons_ne_nil j js)
      have first : before.all (!·.2.isWaiting) = true := by
        refine List.all_eq_true.2 fun x hx => ?_
        have hmem : x.2 ∈ written.map .written := hbefore ▸ List.mem_map_of_mem hx
        obtain ⟨target, -, ht⟩ := List.mem_map.1 hmem
        rw [← ht]
        rfl
      have hopen : ∀ t, openCalls ⟨t, before⟩ = 0 := Interleaving.openCalls_of_written hbefore
      rw [Context.waves]
      have hfree : openCalls ⟨s, before⟩ + slots ≤ slots :=
        Nat.le_of_eq (by rw [hopen, Nat.zero_add])
      refine (covers_startWave large slots false (j :: js) first hfree).given.bind ?_
      rintro ⟨started, rest⟩ _ t ⟨⟨now, rfl, hjs, hnow⟩, t', hgives⟩
      have hne : started ≠ [] := by
        obtain ⟨m, rfl⟩ := Nat.exists_eq_add_one.2 hroom
        exact Context.ne_nil_of_startWave hgives
      refine (covers_endWave _ started before _ hnow).bind ?_
      rintro ends _ u ⟨done, rfl, hfst, hsnd⟩
      have hlength : rest.length ≤ n := by
        have hall := congrArg List.length hjs
        have hnow' := congrArg List.length hnow
        have hpos := List.length_pos_iff.2 hne
        simp only [List.length_cons, List.length_append, List.length_map] at hall hnow' hn
        omega
      have hdone : (before ++ done).map (·.2) = (written ++ ends).map .written := by
        rw [List.map_append, List.map_append, hbefore, hsnd]
      refine (ih rest hlength (fun _ => hroom) hdone).bind ?_
      intro more jobs v hjobs
      refine covers_pure ?_
      rw [hjobs, List.append_assoc]

theorem covers_runGroup {js : List Job} (room : js ≠ [] → 0 < slots) :
    Covers ctx slots (ofJobs s js).jobs s (ctx.runGroup slots js)
      fun ends jobs => jobs.map (·.2) = ends.map .written := by
  have hnone : ([] : List (Job × Progress)).map (·.2) = ([] : List Path).map .written := rfl
  exact covers_waves _ js.length js (Nat.le_refl _) room hnone

end Group

namespace Interleaving

variable {ctx : Context} {slots : Nat} {s t : BuildState}

theorem Reaches.trans {i k l : Interleaving} (h : Reaches ctx slots i k) (h' : Reaches ctx slots k l) :
    Reaches ctx slots i l := by
  induction h' with
  | refl => exact h
  | step _ last ih => exact ih.step last

theorem reaches_within {g g' : Group} (ended : List Path) (later : List (List Job))
    (h : g.Reaches ctx slots g') : Reaches ctx slots ⟨ended, g, later⟩ ⟨ended, g', later⟩ := by
  induction h with
  | refl => exact .refl
  | tail _ last ih => exact ih.step (.within last)

theorem results?_of_written {ended ends : List Path} {jobs : List (Job × Progress)}
    (h : jobs.map (·.2) = ends.map .written) (t : BuildState) :
    results? ⟨ended, ⟨t, jobs⟩, []⟩ = some (ended ++ ends) := by
  have htargets : Group.targets? ⟨t, jobs⟩ = some ends := Group.targets?_eq_some_iff.2 h
  simp only [results?, List.isEmpty_nil, if_true, htargets, Option.map_some]

/-- The run can come to an end with this outcome, of which `give` makes the list of targets. -/
def EndsWith {α : Type} (ctx : Context) (slots : Nat) (i : Interleaving) (give : α → List Path) :
    Except Stop α × BuildState → Prop
  | (.ok a, t) => ∃ k, Reaches ctx slots i k ∧ k.current.state = t ∧ k.results? = some (give a)
  | (.error stop, t) => ∃ k, Reaches ctx slots i k ∧ k.current.state = t ∧ k.Fails stop

theorem EndsWith.of_reaches {α : Type} {i k : Interleaving} {give : α → List Path}
    {out : Except Stop α × BuildState} (h : Reaches ctx slots i k) (hk : EndsWith ctx slots k give out) :
    EndsWith ctx slots i give out := by
  obtain ⟨r, t⟩ := out
  cases r with
  | ok a =>
    obtain ⟨l, hl, hend⟩ := hk
    exact ⟨l, h.trans hl, hend⟩
  | error stop =>
    obtain ⟨l, hl, hend⟩ := hk
    exact ⟨l, h.trans hl, hend⟩

theorem endsWith_of_covers {jobs : List (Job × Progress)} {b : Build (List Path)} (ended : List Path)
    (h : Group.Covers ctx slots jobs s b fun ends jobs => jobs.map (·.2) = ends.map .written) :
    EndsWith ctx slots ⟨ended, ⟨s, jobs⟩, []⟩ (ended ++ ·) (b.run.run s) := by
  rw [Group.Covers] at h
  rcases hr : b.run.run s with ⟨r, t⟩
  rw [hr] at h
  cases r with
  | ok ends =>
    obtain ⟨jobs', hjobs, hreach⟩ := h
    exact ⟨_, reaches_within ended [] hreach, rfl, results?_of_written hjobs t⟩
  | error stop =>
    obtain ⟨jobs', hfail, hreach⟩ := h
    exact ⟨_, reaches_within ended [] hreach, rfl, hfail⟩

/-- A group that ends well makes room for the next one. -/
theorem endsWith_cons {jobs : List (Job × Progress)} {b : Build (List Path)}
    {rest : Build (List (List Path))} {ended : List Path} {next : List Job} {later : List (List Job)}
    (h : Group.Covers ctx slots jobs s b fun ends jobs => jobs.map (·.2) = ends.map .written)
    (hrest : ∀ ends t, EndsWith ctx slots ⟨ended ++ ends, .ofJobs t next, later⟩
      (fun more => ended ++ ends ++ more.flatten) (rest.run.run t)) :
    EndsWith ctx slots ⟨ended, ⟨s, jobs⟩, next :: later⟩ (fun all => ended ++ all.flatten)
      ((do return (← b) :: (← rest) : Build (List (List Path))).run.run s) := by
  rw [Group.Covers] at h
  rw [Build.run_bind]
  rcases hr : b.run.run s with ⟨r, t⟩
  rw [hr] at h
  cases r with
  | error stop =>
    obtain ⟨jobs', hfail, hreach⟩ := h
    exact ⟨_, reaches_within ended _ hreach, rfl, hfail⟩
  | ok ends =>
    obtain ⟨jobs', hjobs, hreach⟩ := h
    have hnext : Reaches ctx slots ⟨ended, ⟨s, jobs⟩, next :: later⟩
        ⟨ended ++ ends, .ofJobs t next, later⟩ :=
      (reaches_within ended _ hreach).step (.next (Group.targets?_eq_some_iff.2 hjobs))
    refine .of_reaches hnext ?_
    have hthen := hrest ends t
    simp only [Build.run_bind]
    rcases hr' : rest.run.run t with ⟨r', u⟩
    rw [hr'] at hthen
    cases r' with
    | error stop => exact hthen
    | ok more =>
      obtain ⟨k, hk, hstate, hresults⟩ := hthen
      refine ⟨k, hk, hstate, ?_⟩
      simp only [hresults, List.flatten_cons, List.append_assoc]

/-- Batches that are run one after another are the groups of a run. -/
theorem endsWith_batches (ended : List Path) (batch : List Job) (batches : List (List Job))
    (hlength : ∀ b ∈ batch :: batches, b.length ≤ slots) :
    EndsWith ctx slots ⟨ended, .ofJobs s batch, batches⟩ (fun all => ended ++ List.flatten all)
      (((batch :: batches).mapM fun b => ctx.runGroup b.length b).run.run s) := by
  have first : ∀ s, Group.Covers ctx slots (Group.ofJobs s batch).jobs s
      (ctx.runGroup batch.length batch) fun ends jobs => jobs.map (·.2) = ends.map .written :=
    fun s => (Group.covers_runGroup List.length_pos_iff.2).mono (hlength batch List.mem_cons_self)
  induction batches generalizing ended batch s with
  | nil =>
    have h := endsWith_of_covers ended (first s)
    rw [List.mapM_cons, Build.run_bind]
    rcases hr : (ctx.runGroup batch.length batch).run.run s with ⟨r, t⟩
    rw [hr] at h
    cases r with
    | error stop => exact h
    | ok ends =>
      obtain ⟨k, hk, hstate, hresults⟩ := h
      refine ⟨k, hk, hstate, ?_⟩
      rw [hresults]
      exact congrArg (some <| ended ++ ·) (List.append_nil ends).symm
  | cons next batches ih =>
    rw [List.mapM_cons]
    refine endsWith_cons (first s) fun ends t => ?_
    have hlength' : ∀ b ∈ next :: batches, b.length ≤ slots :=
      fun b hb => hlength b (List.mem_cons_of_mem _ hb)
    exact ih (ended ++ ends) next hlength' fun s =>
      (Group.covers_runGroup List.length_pos_iff.2).mono (hlength' next List.mem_cons_self)

theorem endsWith_runBatched {size : Nat} (hsize : 0 < size) (s : BuildState) (jobs : List Job) :
    EndsWith ctx size (ofGroups s (chunks size jobs)) id ((ctx.runBatched size jobs).run.run s) := by
  have hlength : ∀ b ∈ chunks size jobs, b.length ≤ size := fun b => length_le_of_mem_chunks hsize
  simp only [Context.runBatched, Build.run_bind]
  generalize chunks size jobs = batches at hlength ⊢
  cases batches with
  | nil => exact ⟨_, .refl, rfl, rfl⟩
  | cons batch batches =>
    have h : EndsWith ctx size ⟨[], .ofJobs s batch, batches⟩ (fun all => [] ++ List.flatten all)
        (((batch :: batches).mapM fun b => ctx.runGroup b.length b).run.run s) :=
      endsWith_batches [] batch batches hlength
    rcases hr : ((batch :: batches).mapM fun b => ctx.runGroup b.length b).run.run s with ⟨r, t⟩
    rw [hr] at h ⊢
    cases r with
    | ok ends => exact h
    | error stop => exact h

/-- What the program does with its jobs is the end of one of the runs. -/
theorem endsWith_runJobs (limit : ctx.settings.batchSize ≤ Context.maxSlots) (s : BuildState)
    (jobs : List Job) :
    EndsWith ctx (max ctx.settings.batchSize 1) (ofGroups s (ctx.settings.groups jobs)) id
      ((ctx.runJobs jobs).run.run s) := by
  have room : 0 < max ctx.settings.batchSize 1 := by omega
  rw [Context.runJobs, Settings.groups]
  cases ctx.settings.batchMode with
  | pooled =>
    have hlimit : ¬ Context.maxSlots < max ctx.settings.batchSize 1 := by
      rw [Context.maxSlots] at limit ⊢
      omega
    simp only [Context.runPooled, if_neg hlimit]
    exact endsWith_of_covers [] (Group.covers_runGroup fun _ => room)
  | batched => exact endsWith_runBatched room s jobs

end Interleaving

end LocaleForge
